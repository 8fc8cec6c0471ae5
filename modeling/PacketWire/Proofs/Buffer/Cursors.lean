/-
The order of the cursors along a run.

The cursors are meant to stand in order, the write cursor inside the stored
bytes. Along every run they do up to one byte, and to the byte exactly as long
as no operation overshoots the buffer that it is done on
(`orderedAlong_iff_neverOvershoots`). `overshootingRun` is a run with one that does.
-/
import PacketWire.Proofs.Buffer.Reachable

namespace PacketWire.Buffer

/-- The buffers along a run of operations, each done on what the one before
left: the first of them, and the one that each operation leaves. -/
def trail : List Operation → Buffer → List Buffer
  | [], b => [b]
  | op :: ops, b => b :: trail ops (op.after b)

/-- Along the run the cursors stand in order. -/
def OrderedAlong (ops : List Operation) (b : Buffer) : Prop := ∀ s ∈ trail ops b, s.Ordered

/-- Along the run no operation overshoots the buffer that it is done on. -/
def NeverOvershoots (ops : List Operation) (b : Buffer) : Prop :=
  ∀ step ∈ ops.zip (trail ops b), ¬ step.1.Overshoots step.2

/-- What holds first, and is kept by every operation of the run, holds all along it. -/
theorem along_trail {P : Buffer → Prop} : ∀ {ops : List Operation} {b : Buffer},
    (∀ op ∈ ops, ∀ s, P s → P (op.after s)) → P b → ∀ s ∈ trail ops b, P s
  | [], b, _, h, s, hs => by
    obtain rfl : s = b := by simpa [trail] using hs
    exact h
  | op :: ops, b, hstep, h, s, hs => by
    rcases List.mem_cons.mp hs with rfl | hs
    · exact h
    · have hnext := hstep op (List.mem_cons_self ..) b h
      exact along_trail (fun op hmem => hstep op (List.mem_cons_of_mem _ hmem)) hnext s hs

theorem Reachable.trail {b s : Buffer} (h : Reachable b) {ops : List Operation} (hs : s ∈ trail ops b) :
    Reachable s :=
  along_trail (fun op _ _ hs => hs.step op) h s hs

theorem orderedAlong_cons {op : Operation} {ops : List Operation} {b : Buffer} :
    OrderedAlong (op :: ops) b ↔ b.Ordered ∧ OrderedAlong ops (op.after b) := by
  simp [OrderedAlong, trail]

theorem neverOvershoots_cons {op : Operation} {ops : List Operation} {b : Buffer} :
    NeverOvershoots (op :: ops) b ↔ ¬ op.Overshoots b ∧ NeverOvershoots ops (op.after b) := by
  simp [NeverOvershoots, trail]

theorem OrderedAlong.head {ops : List Operation} {b : Buffer} (h : OrderedAlong ops b) : b.Ordered := by
  cases ops <;> exact h b (by simp [trail])

theorem orderedAlong_iff_neverOvershoots : ∀ (ops : List Operation) {b : Buffer}, b.WellFormed →
    b.Ordered → (OrderedAlong ops b ↔ NeverOvershoots ops b)
  | [], b, _, ho => by simp [OrderedAlong, NeverOvershoots, trail, ho]
  | op :: ops, b, hb, ho => by
    have hstep := op.ordered_after_iff hb ho
    have hrest := orderedAlong_iff_neverOvershoots ops (op.wellFormed_after hb)
    rw [orderedAlong_cons, neverOvershoots_cons]
    constructor
    · rintro ⟨_, h⟩
      exact ⟨hstep.mp h.head, (hrest h.head).mp h⟩
    · rintro ⟨hop, h⟩
      exact ⟨ho, (hrest (hstep.mpr hop)).mpr h⟩

/-- Along every run on a buffer from any constructor, the read cursor stands
before the write cursor and the write cursor one byte past the stored ones at
most. It stands inside them all along exactly if no operation overshoots. -/
theorem ordered_along_iff {b : Buffer} (made : Made b) (ops : List Operation) :
    (∀ s ∈ trail ops b, s.rpos ≤ s.wpos ∧ s.wpos ≤ s.size + 1) ∧
      (OrderedAlong ops b ↔ NeverOvershoots ops b) := by
  refine ⟨fun s hs => ?_, orderedAlong_iff_neverOvershoots ops made.wellFormed made.ordered⟩
  have h := ((Reachable.made made).trail hs).wellFormed
  exact ⟨h.rpos_le, h.wpos_le⟩

/-- A bit is pending over the one stored byte when the write cursor is sent to two. -/
def overshootingRun : List Operation :=
  [.append [1], .setWritePos 0, .writeBit true, .setWritePos 2]

theorem ordered_along_overshootingRun :
    Made .empty ∧ (OrderedAlong overshootingRun .empty ↔ NeverOvershoots overshootingRun .empty) :=
  ⟨.fresh .empty, (ordered_along_iff (.fresh .empty) overshootingRun).2⟩

/-- The run leaves the write cursor at two, past the one stored byte. -/
theorem not_orderedAlong_overshootingRun : Made .empty ∧ ¬ OrderedAlong overshootingRun .empty :=
  ⟨.fresh .empty, by unfold OrderedAlong; decide⟩

end PacketWire.Buffer
