/-
What a write can do to a buffer.

A write stores runs of bytes at the write cursor and keeps bits for later, and does
nothing else. What these two leave true (`Stable`) is left true by every write,
however it ends (`Stable.write`): that the stored bytes end at the write cursor if
they did (`stable_end`), that those behind it are the ones that were there
(`stable_behind`), and what the room is, given the first room and the size
(`stable_grown`).
-/
import PacketWire.Proofs.Buffer.Ceiling

namespace PacketWire.Buffer

/-- What storing a run and keeping bits for later leave true. -/
structure Stable (P : Buffer → Prop) : Prop where
  place : ∀ {b : Buffer} (src : List UInt8), P b → P (b.place src)
  keepBits : ∀ {b : Buffer} (bits : List Bool), P b → P { b with pending := bits }

/-- A sequence of operations leaves it true, however it ends. -/
def Keeps (P : Buffer → Prop) {α : Type} (m : BufferM α) : Prop := ∀ b, P b → P (after m b)

theorem Keeps.bind {P : Buffer → Prop} {α β : Type} {m : BufferM α} {f : α → BufferM β} (hm : Keeps P m)
    (hf : ∀ a, Keeps P (f a)) : Keeps P (m >>= f) := by
  intro b h
  obtain ⟨a, hafter⟩ | hafter := after_bind m f b
  · rw [hafter]
    exact hf a _ (hm b h)
  · rw [hafter]
    exact hm b h

theorem Keeps.pure {P : Buffer → Prop} {α : Type} (a : α) : Keeps P (Pure.pure a) := fun _ h => h

theorem keeps_sequential (P : Buffer → Prop) : Sequential (Keeps P) := ⟨Keeps.pure, Keeps.bind⟩

theorem Keeps.ite {P : Buffer → Prop} {α : Type} {c : Prop} [Decidable c] {m n : BufferM α} (hm : Keeps P m)
    (hn : Keeps P n) : Keeps P (if c then m else n) := by
  split
  · exact hm
  · exact hn

theorem keeps_refuse {P : Buffer → Prop} {α : Type} (cause : CodecError) : Keeps P (refuse cause : BufferM α) :=
  fun _ h => h

theorem keeps_get (P : Buffer → Prop) : Keeps P get := fun _ h => h

theorem keeps_checkBitCount (P : Buffer → Prop) (count : Nat) : Keeps P (checkBitCount count) := by
  intro b h
  rw [after, checkBitCount_run]
  split <;> exact h

theorem keeps_checkLimit (P : Buffer → Prop) (extra : Nat) : Keeps P (checkLimit extra) := by
  intro b h
  rw [after, checkLimit_run]
  split <;> exact h

/-! ## Writes -/

namespace Stable

variable {P : Buffer → Prop}

theorem placeBits (hP : Stable P) {b : Buffer} (bits : List Bool) (h : P b) : P (b.placeBits bits) :=
  hP.place _ (hP.keepBits [] h)

theorem flushed (hP : Stable P) {b : Buffer} (h : P b) : P b.flushed := by
  unfold Buffer.flushed
  split
  · exact h
  · exact hP.placeBits _ h

theorem flushBits (hP : Stable P) : Keeps P flushBits := by
  intro b h
  rw [after, flushBits_run]
  split
  · exact h
  · exact hP.flushed h

theorem writeBit (hP : Stable P) (bit : Bool) : Keeps P (writeBit bit) := by
  intro b h
  rw [after, writeBit_run]
  split
  · exact h
  split
  · exact h
  · simp only [left_ok, pushBit]
    split
    · exact hP.keepBits _ h
    · exact hP.placeBits _ h

theorem append (hP : Stable P) (src : List UInt8) : Keeps P (append src) := by
  intro b h
  rw [after, append_run]
  split
  · exact h
  split
  · exact h
  · exact hP.place _ (hP.flushed h)

theorem writeBits (hP : Stable P) (value : UInt64) (count : Nat) : Keeps P (writeBits value count) := by
  rw [writeBits_eq]
  exact (keeps_checkBitCount P count).bind fun _ => (keeps_get P).bind fun _ => (keeps_checkLimit P _).bind fun _ =>
    (keeps_sequential P).forM_writeBit hP.writeBit _

theorem appendBuffer (hP : Stable P) (source : Buffer) : Keeps P (appendBuffer source) := by
  unfold Buffer.appendBuffer
  split
  · exact fun _ h => h
  · split
    · exact fun _ h => h
    · exact hP.append _

theorem writeString (hP : Stable P) (text : String) : Keeps P (writeString text) := by
  unfold Buffer.writeString
  split
  · exact fun _ h => h
  · exact hP.append _

theorem writeTerminated (hP : Stable P) (text : String) : Keeps P (writeTerminated text) :=
  (keeps_get P).bind fun _ => (keeps_checkLimit P _).bind fun _ => (hP.writeString text).bind fun _ =>
    write_of_append hP.append _ _

theorem write (hP : Stable P) {op : Operation} (write : op.IsWrite) : Keeps P op.run := by
  cases op <;> try exact write.elim
  case append src => exact (keeps_sequential P).map (hP.append src)
  case appendBuffer source => exact (keeps_sequential P).map (hP.appendBuffer source)
  case write t value => exact (keeps_sequential P).map (write_of_append hP.append t value)
  case writeString text => exact (keeps_sequential P).map (hP.writeString text)
  case writeTerminated text => exact (keeps_sequential P).map (hP.writeTerminated text)
  case writeGuid guid => exact (keeps_sequential P).map (hP.append _)
  case writeBit bit => exact (keeps_sequential P).map (hP.writeBit bit)
  case writeBits value count => exact (keeps_sequential P).map (hP.writeBits value count)
  case flushBits => exact (keeps_sequential P).map hP.flushBits

end Stable

/-! ## What writes leave true -/

/-- No stored bytes are left behind the write cursor, if there were none. -/
theorem stable_end : Stable fun b => b.size ≤ b.wpos where
  place src h := by
    rw [size_place, wpos_place]
    omega
  keepBits _ h := h

theorem drop_contents_place (b : Buffer) (src : List UInt8) :
    (b.place src).contents.drop (b.wpos + src.length) = b.contents.drop (b.wpos + src.length) := by
  have hpad : b.wpos ≤ (b.contents ++ List.replicate (b.wpos - b.size) 0).length := by
    rw [List.length_append, List.length_replicate, ← size]
    omega
  have hzeros : (List.replicate (b.wpos - b.size) (0 : UInt8)).drop (b.wpos + src.length - b.contents.length) = [] :=
    List.drop_of_length_le (by rw [List.length_replicate, size]; omega)
  rw [Buffer.place, drop_overwrite hpad, List.drop_append, hzeros, List.append_nil]

/-- The bytes behind the write cursor are those that were there. -/
theorem stable_behind (start : Buffer) :
    Stable fun b => start.wpos ≤ b.wpos ∧ b.contents.drop b.wpos = start.contents.drop b.wpos where
  place {b} src := by
    rintro ⟨hle, hsame⟩
    refine ⟨Nat.le_add_right_of_le hle, ?_⟩
    rw [wpos_place, drop_contents_place, ← List.drop_drop, hsame, List.drop_drop]
  keepBits _ h := h

/-- The room for `size` bytes that were written to a store with room for `initial`:
what there was while that suffices for a small packet, and else what the stage
gives, if it is more. -/
def roomFor (initial size : Nat) : Nat :=
  if size < 100 ∧ size ≤ initial then initial else max initial (max size (stage size))

theorem stage_mono {m n : Nat} (h : m ≤ n) : stage m ≤ stage n := by
  unfold stage
  split_ifs <;> omega

theorem stage_of_lt {n : Nat} (h : n < 100) : stage n = 300 := if_pos h

theorem lt_of_stage_eq {m n : Nat} (hm : m < 100) (h : stage n = stage m) : n < 100 := by
  rw [stage_of_lt hm] at h
  unfold stage at h
  split_ifs at h <;> omega

/-- Growing makes the room for the size there is then, whatever the sizes in between. -/
theorem grow_roomFor (initial size stop : Nat) :
    grow (roomFor initial size) size stop = roomFor initial (max size stop) := by
  have henough : size ≤ roomFor initial size := by
    unfold roomFor
    split_ifs <;> omega
  rcases Nat.le_total stop size with hle | hle
  · have hstage := stage_mono hle
    rw [Nat.max_eq_left hle, grow, if_neg (by omega)]
  rw [Nat.max_eq_right hle]
  have hstage := stage_mono hle
  -- The stage tells the small packets, which may keep less than it, from the others.
  have hsmall : size < 100 → stage stop = stage size → stop < 100 := lt_of_stage_eq
  have hfirst : stop < 100 → stage stop = stage size := fun h => by
    rw [stage_of_lt h, stage_of_lt (Nat.lt_of_le_of_lt hle h)]
  unfold grow roomFor
  split_ifs <;> omega

/-- The room is what the size asks for. -/
theorem stable_grown (initial : Nat) : Stable fun b => b.capacity = roomFor initial b.size where
  place {b} src h := by
    rw [size_place, ← grow_roomFor, ← h]
    rfl
  keepBits _ h := h

end PacketWire.Buffer
