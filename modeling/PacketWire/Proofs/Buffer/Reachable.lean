/-
The buffers that can come to be, and what holds of every one of them.

`Reachable` is what any operations leave of a buffer that a constructor made,
also after operations that were refused or that aborted. `WellFormed` holds of
all of it (`Reachable.wellFormed`): the write cursor is one past the stored
bytes at most, these are under the ceiling, and bits wait only for less than a
byte. `Ordered`, the order of the cursors, is what the operations are meant to
keep; `Operation.ordered_after_iff` says which one does not.
-/
import PacketWire.Proofs.Buffer.Change

namespace PacketWire.Buffer

/-! ## Buffers as they are made -/

/-- An empty buffer as it is made. -/
inductive Fresh : Buffer → Prop
  | empty : Fresh .empty
  | withCapacity (reserve : Nat) : Fresh (.withCapacity reserve)
  | withLimit (reserve limit : Nat) : Fresh (.withLimit reserve limit)

/-- A buffer as it is made, empty or around received bytes. -/
inductive Made : Buffer → Prop
  | fresh {b} : Fresh b → Made b
  | ofBytes {b} (bytes : List UInt8) : Buffer.ofBytes bytes = .ok b → Made b
  | ofBytesWithLimit {b} (bytes : List UInt8) (limit : Nat) :
      Buffer.ofBytesWithLimit bytes limit = .ok b → Made b

/-- A buffer that any operations, in any order, can leave. -/
inductive Reachable : Buffer → Prop
  | made {b} : Made b → Reachable b
  | step {b} (op : Operation) : Reachable b → Reachable (op.after b)

/-! ## What holds of a buffer -/

/-- What holds of every buffer that can come to be. -/
structure WellFormed (b : Buffer) : Prop where
  rpos_le : b.rpos ≤ b.wpos
  wpos_le : b.wpos ≤ b.size + 1
  size_le_limit : b.size ≤ b.limit
  size_le_capacity : b.size ≤ b.capacity
  pending_lt : b.pending.length < 8
  unread_lt : b.unread.length < 8
  begun : b.unread ≠ [] → 0 < b.rpos

/-- The cursors stand in order, inside the stored bytes. -/
structure Ordered (b : Buffer) : Prop where
  rpos_le : b.rpos ≤ b.wpos
  wpos_le : b.wpos ≤ b.size

instance (b : Buffer) : Decidable b.Ordered :=
  decidable_of_iff (b.rpos ≤ b.wpos ∧ b.wpos ≤ b.size) ⟨fun h => ⟨h.1, h.2⟩, fun h => ⟨h.1, h.2⟩⟩

theorem le_grow (capacity old new : Nat) : capacity ≤ grow capacity old new ∧ new ≤ grow capacity old new := by
  unfold grow
  split <;> omega

theorem Fresh.eq {b : Buffer} (h : Fresh b) : ∃ capacity limit, b = ⟨[], 0, 0, [], [], capacity, limit⟩ := by
  cases h <;> exact ⟨_, _, rfl⟩

theorem Fresh.wellFormed {b : Buffer} (h : Fresh b) : b.WellFormed := by
  obtain ⟨capacity, limit, rfl⟩ := h.eq
  constructor <;> simp [size]

theorem Fresh.ordered {b : Buffer} (h : Fresh b) : b.Ordered := by
  obtain ⟨capacity, limit, rfl⟩ := h.eq
  constructor <;> simp

theorem eq_of_ofBytesWithLimit {bytes : List UInt8} {limit : Nat} {b : Buffer}
    (h : ofBytesWithLimit bytes limit = .ok b) :
    bytes.length ≤ limit ∧ b = ⟨bytes, 0, bytes.length, [], [], bytes.length, limit⟩ := by
  unfold ofBytesWithLimit at h
  split at h
  · cases h
  · cases h
    exact ⟨by omega, rfl⟩

theorem wellFormed_ofBytesWithLimit {bytes : List UInt8} {limit : Nat} {b : Buffer}
    (h : ofBytesWithLimit bytes limit = .ok b) : b.WellFormed := by
  obtain ⟨hlen, rfl⟩ := eq_of_ofBytesWithLimit h
  constructor <;> simp [size, hlen]

theorem ordered_ofBytesWithLimit {bytes : List UInt8} {limit : Nat} {b : Buffer}
    (h : ofBytesWithLimit bytes limit = .ok b) : b.Ordered := by
  obtain ⟨_, rfl⟩ := eq_of_ofBytesWithLimit h
  constructor <;> simp [size]

theorem Made.wellFormed {b : Buffer} (h : Made b) : b.WellFormed := by
  cases h with
  | fresh h => exact h.wellFormed
  | ofBytes _ h => exact wellFormed_ofBytesWithLimit h
  | ofBytesWithLimit _ _ h => exact wellFormed_ofBytesWithLimit h

theorem Made.ordered {b : Buffer} (h : Made b) : b.Ordered := by
  cases h with
  | fresh h => exact h.ordered
  | ofBytes _ h => exact ordered_ofBytesWithLimit h
  | ofBytesWithLimit _ _ h => exact ordered_ofBytesWithLimit h

/-- A buffer that is made without bytes is empty all through. -/
theorem Made.eq_of_isEmpty {b : Buffer} (h : Made b) (hempty : b.isEmpty) :
    ∃ capacity limit, b = ⟨[], 0, 0, [], [], capacity, limit⟩ := by
  have hreceived : ∀ bytes limit, Buffer.ofBytesWithLimit bytes limit = .ok b →
      ∃ capacity limit, b = ⟨[], 0, 0, [], [], capacity, limit⟩ := fun bytes limit hb => by
    obtain ⟨-, rfl⟩ := eq_of_ofBytesWithLimit hb
    obtain rfl : bytes = [] := List.isEmpty_iff.mp hempty
    exact ⟨_, _, rfl⟩
  cases h with
  | fresh h => exact h.eq
  | ofBytes bytes h => exact hreceived bytes _ h
  | ofBytesWithLimit bytes limit h => exact hreceived bytes limit h

theorem Made.bitWritePos_eq_zero {b : Buffer} (h : Made b) (hempty : b.isEmpty) : b.bitWritePos = 0 := by
  obtain ⟨capacity, limit, rfl⟩ := h.eq_of_isEmpty hempty
  rfl

/-! ## What a change keeps -/

theorem Change.wellFormed {b b' : Buffer} (h : Change b b') (hb : b.WellFormed) : b'.WellFormed := by
  cases h with
  | @place src hne hroom =>
    have hsize := size_place b src
    have hcap := le_grow b.capacity b.size (b.wpos + src.length)
    refine ⟨?_, ?_, ?_, ?_, hb.pending_lt, hb.unread_lt, hb.begun⟩
    · exact Nat.le_add_right_of_le hb.rpos_le
    · simp only [wpos_place]; omega
    · have := hb.size_le_limit
      simp only [limit_place]; omega
    · have := hb.size_le_capacity
      show (b.place src).size ≤ grow b.capacity b.size (b.wpos + src.length)
      omega
  | keepBits hlen => exact { hb with pending_lt := hlen }
  | patch hlen =>
    exact { hb with
      wpos_le := by simpa [size, hlen] using hb.wpos_le
      size_le_limit := by simpa [size, hlen] using hb.size_le_limit
      size_le_capacity := by simpa [size, hlen] using hb.size_le_capacity }
  | moveRead hpos => exact { hb with rpos_le := hpos, unread_lt := by simp, begun := by simp }
  | beginByte hpos _ => exact { hb with rpos_le := hpos, unread_lt := by simp, begun := by simp }
  | passBits hrest =>
    have hlen := hrest.length_le
    have hlt := hb.unread_lt
    exact { hb with
      unread_lt := by simp only; omega
      begun := fun hne => hb.begun fun h => hne (List.suffix_nil.mp (h ▸ hrest)) }
  | moveWrite hr hpos => exact { hb with rpos_le := hr, wpos_le := Nat.le_succ_of_le hpos }
  | reserve total =>
    exact { hb with size_le_capacity := Nat.le_trans hb.size_le_capacity (Nat.le_max_left ..) }
  | clear =>
    exact { hb with
      rpos_le := by simp [Buffer.clear]
      wpos_le := by simp [Buffer.clear]
      size_le_limit := by simp [Buffer.clear, size]
      size_le_capacity := by simp [Buffer.clear, size]
      pending_lt := by simp [Buffer.clear]
      unread_lt := by simp [Buffer.clear]
      begun := by simp [Buffer.clear] }

theorem Change.ordered {b b' : Buffer} (h : Change b b') (hb : b.Ordered) : b'.Ordered := by
  obtain ⟨hr, hw⟩ := hb
  cases h with
  | @place src hne hroom =>
    have hsize := size_place b src
    exact ⟨Nat.le_add_right_of_le hr, by simp only [wpos_place]; omega⟩
  | keepBits _ => exact ⟨hr, hw⟩
  | patch hlen => exact ⟨hr, by simpa [size, hlen] using hw⟩
  | moveRead hpos => exact ⟨hpos, hw⟩
  | beginByte hpos _ => exact ⟨hpos, hw⟩
  | passBits _ => exact ⟨hr, hw⟩
  | moveWrite hr' hpos => exact ⟨hr', hpos⟩
  | reserve _ => exact ⟨hr, hw⟩
  | clear => exact ⟨by simp [Buffer.clear], by simp [Buffer.clear]⟩

theorem Changes.wellFormed {b b' : Buffer} (h : Changes b b') (hb : b.WellFormed) : b'.WellFormed := by
  induction h with
  | refl => exact hb
  | tail _ step ih => exact step.wellFormed ih

theorem Changes.ordered {b b' : Buffer} (h : Changes b b') (hb : b.Ordered) : b'.Ordered := by
  induction h with
  | refl => exact hb
  | tail _ step ih => exact step.ordered ih

/-! ## What an operation keeps -/

theorem size_flushed_of_lt {b : Buffer} (h : b.wpos < b.size) : b.flushed.size = b.size := by
  unfold flushed
  split
  · rfl
  · rw [size_placeBits]
    omega

theorem Operation.wellFormed_after {b : Buffer} (hb : b.WellFormed) (op : Operation) :
    (op.after b).WellFormed := by
  by_cases h : op.Overshoots b
  · have hflushed := (changes_flushed (b := b) fun _ => by
      have := hb.size_le_limit
      have := h.2.2
      omega).wellFormed hb
    have hsize := size_flushed_of_lt h.2.2
    have hle := hb.rpos_le
    rw [h.after hb.rpos_le hb.size_le_limit]
    exact { hflushed with
      rpos_le := by
        have := hb.rpos_le
        have := h.2.2
        simp only [rpos_flushed]; omega
      wpos_le := by
        show b.size + 1 ≤ b.flushed.size + 1
        omega }
  · exact (Operation.changes h).wellFormed hb

/-- From cursors in order, the order is lost exactly by overshooting. -/
theorem Operation.ordered_after_iff {b : Buffer} (hb : b.WellFormed) (ho : b.Ordered) (op : Operation) :
    (op.after b).Ordered ↔ ¬ op.Overshoots b := by
  refine ⟨fun hafter h => ?_, fun h => (Operation.changes h).ordered ho⟩
  rw [h.after hb.rpos_le hb.size_le_limit] at hafter
  have : b.size + 1 ≤ b.flushed.size := hafter.wpos_le
  rw [size_flushed_of_lt h.2.2] at this
  omega

theorem Reachable.wellFormed {b : Buffer} (h : Reachable b) : b.WellFormed := by
  induction h with
  | made h => exact h.wellFormed
  | step op _ ih => exact op.wellFormed_after ih

end PacketWire.Buffer
