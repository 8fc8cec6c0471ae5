/-
What an operation can do to a buffer, said once.

Whatever it is asked and however it ends, an operation takes a buffer through
finitely many steps of the kinds that `Change` lists (`Operation.changes`). The
one exception is the move of the write cursor that `Operation.Overshoots`
describes; what that leaves is `Overshoots.after`. An invariant is then a fact
about nine small steps, and no proof of one looks into an operation.
-/
import Mathlib.Logic.Relation
import PacketWire.Proofs.Buffer.Reading
import PacketWire.Proofs.Buffer.Writing

namespace PacketWire.Buffer

/-- One step of an operation, with what the operation has made sure of. -/
inductive Change : Buffer → Buffer → Prop
  /-- A run of bytes is stored at the write cursor, under the ceiling. -/
  | place {b src} : src ≠ [] → b.wpos + src.length ≤ b.limit → Change b (b.place src)
  /-- Fewer than eight bits are kept for later. -/
  | keepBits {b bits} : bits.length < 8 → Change b { b with pending := bits }
  /-- Stored bytes are replaced where they are. -/
  | patch {b contents} : contents.length = b.size → Change b { b with contents }
  /-- The read cursor moves, up to the write cursor at most. -/
  | moveRead {b pos} : pos ≤ b.wpos → Change b { b with rpos := pos, unread := [] }
  /-- A byte before the write cursor is taken to be read bit by bit. -/
  | beginByte {b byte} : b.rpos < b.wpos → b.contents[b.rpos]? = some byte →
      Change b { b with rpos := b.rpos + 1, unread := (Bits.ofByte byte).tail }
  /-- Bits of the byte begun are taken, or dropped. -/
  | passBits {b rest} : rest <:+ b.unread → Change b { b with unread := rest }
  /-- The write cursor moves to a stored byte or to the end of them. -/
  | moveWrite {b pos} : b.rpos ≤ pos → pos ≤ b.size → Change b { b with wpos := pos }
  | reserve {b} (total : Nat) : Change b (b.reserve total)
  | clear {b} : Change b b.clear

abbrev Changes : Buffer → Buffer → Prop := Relation.ReflTransGen Change

theorem Change.changes {b b' : Buffer} (h : Change b b') : Changes b b' := .single h

/-! ## Sequences of operations -/

/-- The buffer that a run left, however it ended. -/
def left {α : Type} : EStateM.Result Failure Buffer α → Buffer
  | .ok _ b | .error _ b => b

@[simp] theorem left_ok {α : Type} (a : α) (b : Buffer) :
    left (.ok a b : EStateM.Result Failure Buffer α) = b := rfl

@[simp] theorem left_error {α : Type} (e : Failure) (b : Buffer) :
    left (.error e b : EStateM.Result Failure Buffer α) = b := rfl

@[simp] theorem left_ite {α : Type} (c : Prop) [Decidable c] (x y : EStateM.Result Failure Buffer α) :
    left (if c then x else y) = if c then left x else left y := apply_ite left c x y

/-- The buffer that a sequence of operations leaves, however it ends. -/
def after {α : Type} (m : BufferM α) (b : Buffer) : Buffer := left (m.run b)

@[simp] theorem after_map {α β : Type} (f : α → β) (m : BufferM α) (b : Buffer) :
    after (f <$> m) b = after m b := by
  rw [after, after, run_map]
  cases m.run b <;> rfl

/-- A sequence leaves what its first part leaves, or what the rest leaves of that. -/
theorem after_bind {α β : Type} (m : BufferM α) (f : α → BufferM β) (b : Buffer) :
    (∃ a, after (m >>= f) b = after (f a) (after m b)) ∨ after (m >>= f) b = after m b := by
  simp only [after]
  cases h : m.run b with
  | ok a b₁ => exact .inl ⟨a, by rw [run_bind_of_ok h]; rfl⟩
  | error e b₁ => exact .inr (by rw [run_bind_of_error h]; rfl)

def Moves {α : Type} (m : BufferM α) : Prop := ∀ b, Changes b (after m b)

theorem Moves.pure {α : Type} (a : α) : Moves (pure a) := fun _ => .refl

theorem Moves.bind {α β : Type} {m : BufferM α} {f : α → BufferM β} (hm : Moves m)
    (hf : ∀ a, Moves (f a)) : Moves (m >>= f) := by
  intro b
  obtain ⟨a, hafter⟩ | hafter := after_bind m f b
  · rw [hafter]
    exact (hm b).trans (hf a _)
  · rw [hafter]
    exact hm b

theorem Moves.map {α β : Type} {f : α → β} {m : BufferM α} (hm : Moves m) : Moves (f <$> m) :=
  fun b => by rw [after_map]; exact hm b

theorem moves_sequential : Sequential Moves := ⟨Moves.pure, Moves.bind⟩

theorem Moves.ite {α : Type} {c : Prop} [Decidable c] {m n : BufferM α} (hm : Moves m)
    (hn : Moves n) : Moves (if c then m else n) := by
  split
  · exact hm
  · exact hn

theorem moves_get : Moves get := fun _ => .refl

theorem moves_checkBitCount (count : Nat) : Moves (checkBitCount count) := by
  intro b
  rw [after, checkBitCount_run]
  split <;> exact .refl

theorem moves_checkLimit (extra : Nat) : Moves (checkLimit extra) := by
  intro b
  rw [after, checkLimit_run]
  split <;> exact .refl

/-! ## Writes -/

theorem changes_placeBits {b : Buffer} {bits : List Bool} (h : b.wpos + 1 ≤ b.limit) :
    Changes b (b.placeBits bits) := by
  have hkeep : Change b { b with pending := [] } := .keepBits (by simp)
  exact .tail hkeep.changes (.place (by simp) (by simpa using h))

theorem changes_flushed {b : Buffer} (h : b.pending ≠ [] → b.wpos + 1 ≤ b.limit) :
    Changes b b.flushed := by
  unfold flushed
  split
  · exact .refl
  · exact changes_placeBits (h ‹_›)

theorem changes_admitted {b : Buffer} (h : ¬ (b.pending ≠ [] ∧ b.limit < b.wpos + 1)) :
    Changes b b.flushed :=
  changes_flushed fun hp => Nat.not_lt.mp fun hl => h ⟨hp, hl⟩

theorem moves_flushBits : Moves flushBits := by
  intro b
  simp only [after, flushBits_run, left_ite, left_ok, left_error]
  split
  · exact .refl
  · exact changes_admitted ‹_›

theorem moves_writeBit (bit : Bool) : Moves (writeBit bit) := by
  intro b
  simp only [after, writeBit_run, left_ite, left_ok, left_error, pushBit]
  split
  · exact .refl
  split
  · exact .refl
  split
  · exact Change.changes (.keepBits (by simpa using ‹_›))
  · exact changes_placeBits (by omega)

theorem moves_writeBits (value : UInt64) (count : Nat) : Moves (writeBits value count) := by
  rw [writeBits_eq]
  exact .bind (moves_checkBitCount _) fun _ => .bind moves_get fun _ =>
    .bind (moves_checkLimit _) fun _ => moves_sequential.forM_writeBit moves_writeBit _

theorem moves_append (src : List UInt8) : Moves (append src) := by
  intro b
  simp only [after, append_run, left_ite, left_ok, left_error]
  split
  · exact .refl
  split
  · exact .refl
  next hs hl =>
  have hflush : b.pending ≠ [] → b.wpos + 1 ≤ b.limit := fun hp => by
    rw [flushSize_of_ne hp] at hl
    omega
  exact .tail (changes_flushed hflush) (.place hs (by simp only [wpos_flushed, limit_flushed]; omega))

theorem moves_write (t : ScalarType) (value : t.Value) : Moves (write t value) := write_of_append moves_append t value

theorem moves_appendBuffer (source : Buffer) : Moves (appendBuffer source) := by
  unfold appendBuffer
  exact .ite (.pure _) (.ite (fun _ => .refl) (moves_append _))

theorem moves_writeString (text : String) : Moves (writeString text) := by
  unfold writeString
  exact .ite (.pure _) (moves_append _)

theorem moves_writeTerminated (text : String) : Moves (writeTerminated text) := by
  unfold writeTerminated
  exact .bind moves_get fun _ => .bind (moves_checkLimit _) fun _ =>
    .bind (moves_writeString text) fun _ => moves_write _ _

theorem moves_writeAt (pos : Nat) (src : List UInt8) : Moves (writeAt pos src) := by
  intro b
  simp only [after, writeAt_run, left_ite, left_ok, left_error]
  split
  · exact .refl
  split
  · exact .refl
  next hl =>
  unfold size at hl
  refine Change.changes (.patch ?_)
  rw [length_overwrite (by omega), size]
  omega

theorem moves_put (pos : Nat) (t : ScalarType) (value : t.Value) : Moves (put pos t value) := by
  rw [put_eq]
  exact moves_writeAt pos _

theorem moves_putBits (pos : Nat) (value : UInt64) (count : Nat) : Moves (putBits pos value count) := by
  intro b
  simp only [after, putBits_run, left_ite, left_ok, left_error]
  split
  · exact .refl
  split
  · exact .refl
  next hl =>
  exact Change.changes (.patch (Bits.length_patch (by rw [Bits.length_ofNat]; unfold size at hl; omega)))

/-! ## Reads -/

theorem changes_passed {b : Buffer} {len : Nat} (h : ¬ b.wpos < b.rpos + len) :
    Changes b (b.passed len) :=
  Change.changes (.moveRead (by omega))

theorem moves_readBytes (len : Nat) : Moves (readBytes len) := by
  intro b
  simp only [after, readBytes_run, left_ite, left_ok, left_error, ite_self]
  split
  · exact .refl
  · exact changes_passed ‹_›

theorem moves_read (t : ScalarType) : Moves (read t) := by
  intro b
  simp only [after, read_run, left_ite, left_ok, left_error]
  split
  · exact .refl
  split
  · exact .refl
  split
  · exact changes_passed ‹_›
  · exact .refl

theorem moves_readString (len : Nat) : Moves (readString len) := by
  intro b
  simp only [after, readString_run, left_ite, left_error]
  split
  · exact .refl
  split
  · exact .refl
  split
  · exact changes_passed ‹_›
  · exact .refl

theorem moves_readTerminatedBytes : Moves readTerminatedBytes := by
  intro b
  simp only [after, readTerminatedBytes_run, left_ite, left_ok, left_error]
  split
  · exact .refl
  split
  · exact .refl
  split
  · exact changes_passed (terminated_le ‹_›)
  · exact .refl

theorem moves_readTerminated : Moves readTerminated := by
  intro b
  simp only [after, readTerminated_run, left_ite, left_error]
  split
  · exact .refl
  split
  · exact .refl
  split
  · split
    · exact changes_passed (terminated_le ‹_›)
    · exact .refl
  · exact .refl

theorem moves_readBit : Moves readBit := by
  intro b
  rw [after, readBit_run]
  split
  next bit rest h =>
    exact Change.changes (.passBits ⟨[bit], h.symm⟩)
  · rw [left_ite]
    split
    · exact .refl
    · split
      · exact .refl
      · exact Change.changes (.beginByte (by omega) ‹_›)

/-- A bit field that gets to taking its bits leaves what these leave. -/
theorem after_readBits (count : Nat) (b : Buffer) :
    after (readBits count) b = b ∨ after (readBits count) b = after (takeBits count) b := by
  simp only [after, readBits_run, left_ite, left_error]
  split
  · exact .inl rfl
  split
  · exact .inl rfl
  split
  · exact .inl rfl
  · cases (takeBits count).run b <;> exact .inr rfl

theorem moves_readBits (count : Nat) : Moves (readBits count) := by
  intro b
  rcases after_readBits count b with h | h
  · rw [h]
  · rw [h]
    exact moves_sequential.takeBits moves_readBit count b

theorem moves_dropUnread : Moves (modify dropUnread) :=
  fun _ => Change.changes (.passBits (List.nil_suffix))

theorem moves_setReadPos (pos : Nat) : Moves (setReadPos pos) := by
  intro b
  simp only [after, setReadPos_run, left_ite, left_ok, left_error]
  split
  · exact .refl
  · exact Change.changes (.moveRead (by omega))

/-! ## Messages -/

theorem moves_readGuid : Moves Guid.read := .bind (moves_readBytes _) fun _ => .pure _

theorem moves_readMessage : ∀ opcode : Opcode, Moves (Message.read opcode) :=
  moves_sequential.readMessage moves_readBytes moves_read moves_readBit moves_dropUnread

theorem moves_writeMessage : ∀ message : ServerMessage, Moves message.write :=
  moves_sequential.writeMessage moves_append moves_writeBit moves_flushBits

/-! ## Every operation -/

namespace Operation

/-- The buffer that an operation leaves, however it ends. -/
def after (op : Operation) (b : Buffer) : Buffer := Buffer.after op.run b

/-- The write cursor is sent to where the pending bits' byte would end if it
came after the stored ones, while it goes over one of them. -/
def Overshoots (op : Operation) (b : Buffer) : Prop :=
  op = .setWritePos (b.size + 1) ∧ b.pending ≠ [] ∧ b.wpos < b.size

theorem changes_setWritePos {pos : Nat} {b : Buffer} (h : ¬ (setWritePos pos).Overshoots b) :
    Changes b ((setWritePos pos).after b) := by
  simp only [after, run, after_map]
  simp only [Buffer.after, setWritePos_run, left_ite, left_ok, left_error]
  split
  · exact .refl
  split
  · exact .refl
  next hpos hflush =>
  have hle : pos ≤ b.flushed.size := by
    simp only [Overshoots, Operation.setWritePos.injEq] at h
    by_cases hp : b.pending = []
    · rw [flushed_of_nil hp]
      rw [flushSize_of_nil hp] at hpos
      omega
    · rw [flushed, if_neg hp, size_placeBits]
      rw [flushSize_of_ne hp] at hpos
      have : ¬ (pos = b.size + 1 ∧ b.wpos < b.size) := fun hw => h ⟨hw.1, hp, hw.2⟩
      omega
  exact .tail (changes_admitted hflush) (.moveWrite (by rw [rpos_flushed]; omega) hle)

/-- What an operation leaves is reached by changes, unless it overshoots. -/
theorem changes {op : Operation} {b : Buffer} (h : ¬ op.Overshoots b) : Changes b (op.after b) := by
  cases op with
  | append src => exact Moves.map (moves_append src) b
  | appendBuffer source => exact Moves.map (moves_appendBuffer source) b
  | write t value => exact Moves.map (moves_write t value) b
  | writeString text => exact Moves.map (moves_writeString text) b
  | writeTerminated text => exact Moves.map (moves_writeTerminated text) b
  | writeGuid guid => exact Moves.map (moves_append _) b
  | writeMessage message => exact Moves.map (moves_writeMessage message) b
  | writeBit bit => exact Moves.map (moves_writeBit bit) b
  | writeBits value count => exact Moves.map (moves_writeBits value count) b
  | flushBits => exact Moves.map moves_flushBits b
  | writeAt pos src => exact Moves.map (moves_writeAt pos src) b
  | put pos t value => exact Moves.map (moves_put pos t value) b
  | putBits pos value count => exact Moves.map (moves_putBits pos value count) b
  | read t => exact Moves.map (moves_read t) b
  | readBytes len => exact Moves.map (moves_readBytes len) b
  | skip len => exact Moves.map (.bind (moves_readBytes len) fun _ => .pure _) b
  | readString len => exact Moves.map (moves_readString len) b
  | readTerminated => exact Moves.map moves_readTerminated b
  | readTerminatedBytes => exact Moves.map moves_readTerminatedBytes b
  | readGuid => exact Moves.map moves_readGuid b
  | readMessage opcode => exact Moves.map (moves_readMessage opcode) b
  | readBit => exact Moves.map moves_readBit b
  | readBits count => exact Moves.map (moves_readBits count) b
  | dropUnread => exact Moves.map moves_dropUnread b
  | setReadPos pos => exact Moves.map (moves_setReadPos pos) b
  | setWritePos pos => exact changes_setWritePos h
  | reserve total => exact Change.changes (.reserve total)
  | clear => exact Change.changes .clear

/-- What an operation that overshoots leaves: a write cursor past the stored bytes. -/
theorem Overshoots.after {op : Operation} {b : Buffer} (h : op.Overshoots b) (hr : b.rpos ≤ b.wpos)
    (hl : b.size ≤ b.limit) : op.after b = { b.flushed with wpos := b.size + 1 } := by
  obtain ⟨rfl, hp, hw⟩ := h
  simp only [Operation.after, run, after_map]
  have hpos : ¬ (b.size + 1 < b.rpos ∨ b.size + b.flushSize < b.size + 1) := by
    rw [flushSize_of_ne hp]
    omega
  have hflush : ¬ (b.pending ≠ [] ∧ b.limit < b.wpos + 1) := by omega
  rw [Buffer.after, setWritePos_run, if_neg hpos, if_neg hflush, left_ok]

end Operation

end PacketWire.Buffer
