/-
Where an operation aborts.

Every slice, index, shift and difference that an operation takes demands its
range. The write cursor can come to stand one past the stored bytes, by the one
move that `Operation.Overshoots` describes, and there a read that the write
cursor lets through can reach for the byte that is not stored.
`Operation.Overruns` says for each operation when it does. No other demand
fails in a buffer that can come to be: the bytes that a write goes over are
stored by then, a bit finds its place in its byte, and a bit field's count was
checked (`InRange`). So everywhere else an operation ends with its result or is
refused (`overruns_iff`).
-/
import PacketWire.Proofs.Buffer.Cursors
import PacketWire.Proofs.Buffer.Refusal
import PacketWire.Proofs.Layout

namespace PacketWire.Buffer

/-- The run ended because a step was out of range. -/
def Aborts {α : Type} (r : EStateM.Result Failure Buffer α) : Prop := ∃ b, r = .error .overrun b

@[simp] theorem aborts_ok {α : Type} (a : α) (b : Buffer) :
    ¬ Aborts (.ok a b : EStateM.Result Failure Buffer α) := fun ⟨_, h⟩ => by cases h

@[simp] theorem aborts_refused {α : Type} (cause : CodecError) (b : Buffer) :
    ¬ Aborts (.error (.refused cause) b : EStateM.Result Failure Buffer α) := fun ⟨_, h⟩ => by cases h

@[simp] theorem aborts_overrun {α : Type} (b : Buffer) :
    Aborts (.error .overrun b : EStateM.Result Failure Buffer α) := ⟨b, rfl⟩

@[simp] theorem aborts_ite {α : Type} (c : Prop) [Decidable c] (x y : EStateM.Result Failure Buffer α) :
    Aborts (if c then x else y) ↔ if c then Aborts x else Aborts y := by split <;> rfl

@[simp] theorem aborts_map {α β : Type} (f : α → β) (m : BufferM α) (b : Buffer) :
    Aborts ((f <$> m).run b) ↔ Aborts (m.run b) := exists_congr fun _ => run_map_error

theorem aborts_bind_of_ok {α β : Type} {m : BufferM α} {f : α → BufferM β} {b b' : Buffer} {a : α}
    (h : m.run b = .ok a b') : Aborts ((m >>= f).run b) ↔ Aborts ((f a).run b') := by
  rw [run_bind_of_ok h]

theorem not_aborts_decoded {raw : List UInt8} {b b' : Buffer} :
    ¬ Aborts (match Text.Utf8.decode? raw with
      | some text => .ok text b'
      | none => .error (.refused (.invalidValue "string" (Text.Utf8.lossy raw))) b) := by
  split
  · exact aborts_ok _ _
  · exact aborts_refused _ _

/-- A run that does not abort gives its result or is refused. -/
theorem ok_or_refused {α : Type} {r : EStateM.Result Failure Buffer α} (h : ¬ Aborts r) :
    (∃ a b, r = .ok a b) ∨ ∃ cause b, r = .error (.refused cause) b := by
  match r with
  | .ok a b => exact .inl ⟨a, b, rfl⟩
  | .error (.refused cause) b => exact .inr ⟨cause, b, rfl⟩
  | .error .overrun b => exact absurd ⟨b, rfl⟩ h

/-! ## Which steps are out of range -/

/-- The write cursor stands one past the stored bytes. -/
def IsPast (b : Buffer) : Prop := b.wpos = b.size + 1

/-- The bits that are left to read of the byte begun and of the stored bytes. -/
def storedBits (b : Buffer) : Nat := b.unread.length + 8 * (b.size - b.rpos)

/-- The operation's slice passes the check against the write cursor and ends
past the stored bytes, of the source for `appendBuffer`. -/
def Operation.Overruns : Operation → Buffer → Prop
  | appendBuffer source, _ => source.IsPast
  | read t, b => b.IsPast ∧ b.rpos + t.size = b.size + 1
  | readBytes len, b | skip len, b | readString len, b => b.IsPast ∧ b.rpos + len = b.size + 1
  | readGuid, b => b.IsPast ∧ b.rpos + Guid.size = b.size + 1
  | readTerminated, b | readTerminatedBytes, b => b.IsPast ∧ b.rpos < b.wpos
  | readBit, b => b.IsPast ∧ b.unread = [] ∧ b.rpos = b.size
  | readBits count, b =>
    b.IsPast ∧ 1 ≤ count ∧ count ≤ 64 ∧ count ≤ b.availableBits ∧ b.storedBits < count
  | readMessage opcode, b =>
    b.IsPast ∧ ∃ taken, taken <+: Message.runs b opcode ∧ taken ≠ [] ∧ b.rpos + taken.sum = b.size + 1
  | _, _ => False

/-! ## Reads -/

section
variable {b : Buffer} (hw : b.wpos ≤ b.size + 1)
include hw

/-- A slice that the write cursor lets through ends past the stored bytes. -/
theorem past_iff (stop : Nat) : ¬ b.wpos < stop ∧ b.size < stop ↔ b.IsPast ∧ stop = b.size + 1 := by
  unfold IsPast
  omega

theorem readBytes_aborts_iff (len : Nat) :
    Aborts ((readBytes len).run b) ↔ b.IsPast ∧ b.rpos + len = b.size + 1 := by
  rw [← past_iff hw, readBytes_run]
  by_cases h : b.wpos < b.rpos + len <;> simp [h]

theorem read_aborts_iff (t : ScalarType) :
    Aborts ((read t).run b) ↔ b.IsPast ∧ b.rpos + t.size = b.size + 1 := by
  rw [← past_iff hw, read_run]
  by_cases h : b.wpos < b.rpos + t.size <;> simp [h]

theorem skip_aborts_iff (len : Nat) :
    Aborts ((skip len).run b) ↔ b.IsPast ∧ b.rpos + len = b.size + 1 := by
  rw [← past_iff hw, skip_run]
  by_cases h : b.wpos < b.rpos + len <;> simp [h]

theorem readGuid_aborts_iff :
    Aborts (Guid.read.run b) ↔ b.IsPast ∧ b.rpos + Guid.size = b.size + 1 := by
  rw [← past_iff hw, readGuid_run]
  by_cases h : b.wpos < b.rpos + Guid.size <;> simp [h]

theorem readString_aborts_iff (len : Nat) :
    Aborts ((readString len).run b) ↔ b.IsPast ∧ b.rpos + len = b.size + 1 := by
  rw [← past_iff hw, readString_run, aborts_ite, aborts_ite]
  split
  next hshort => simp [hshort]
  next hfits =>
    split
    next hpast => simp [hfits, hpast]
    next hstored => exact iff_of_false not_aborts_decoded fun h => hstored h.2

theorem readTerminatedBytes_aborts_iff : Aborts (readTerminatedBytes.run b) ↔ b.IsPast ∧ b.rpos < b.wpos := by
  rw [readTerminatedBytes_run]
  unfold IsPast
  by_cases h : b.wpos ≤ b.rpos
  · simp [h]
  · simp [h]
    omega

theorem readTerminated_aborts_iff : Aborts (readTerminated.run b) ↔ b.IsPast ∧ b.rpos < b.wpos := by
  rw [readTerminated_run, aborts_ite, aborts_ite, aborts_ite]
  unfold IsPast
  split
  next hnone => exact iff_of_false (aborts_refused _ _) fun h => absurd h.2 (Nat.not_lt.mpr hnone)
  next hsome =>
    split
    next hpast => exact iff_of_true (aborts_overrun _) (by omega)
    next hstored =>
      refine iff_of_false ?_ fun h => hstored (by omega)
      split
      · exact not_aborts_decoded
      · exact aborts_refused _ _

theorem readBit_aborts_iff : Aborts (readBit.run b) ↔ b.IsPast ∧ b.unread = [] ∧ b.rpos = b.size := by
  rw [readBit_run]
  unfold IsPast
  split
  next bit rest hu => exact iff_of_false (aborts_ok _ _) (by simp [hu])
  next hu =>
    rw [aborts_ite]
    split
    next hshort => exact iff_of_false (aborts_refused _ _) fun ⟨_, _, _⟩ => by omega
    next hfits =>
      split
      next hnone =>
        have hle : b.size ≤ b.rpos := List.getElem?_eq_none_iff.mp hnone
        exact iff_of_true (aborts_overrun _) ⟨by omega, hu, by omega⟩
      next byte hbyte =>
        have hlt : b.rpos < b.size := (List.getElem?_eq_some_iff.mp hbyte).1
        exact iff_of_false (aborts_ok _ _) fun ⟨_, _, _⟩ => by omega

end

/-- A bit taken is one stored bit less. -/
theorem storedBits_of_readBit {b b' : Buffer} {bit : Bool} (h : readBit.run b = .ok bit b') :
    b'.storedBits + 1 = b.storedBits ∧ b'.wpos = b.wpos ∧ b'.size = b.size := by
  rw [readBit_run] at h
  split at h
  next bit rest hu =>
    cases h
    refine ⟨?_, rfl, rfl⟩
    simp only [storedBits, hu, List.length_cons, size]
    omega
  next hu =>
    split at h
    · cases h
    split at h
    · cases h
    next byte hbyte =>
      cases h
      have hlt : b.rpos < b.size := (List.getElem?_eq_some_iff.mp hbyte).1
      refine ⟨?_, rfl, rfl⟩
      simp only [storedBits, hu, List.length_tail, Bits.length_ofByte, List.length_nil, size] at hlt ⊢
      omega

/-- Bits that the write cursor lets through are taken as far as they are stored. -/
theorem takeBits_aborts_iff : ∀ (count : Nat) {b : Buffer}, b.wpos ≤ b.size + 1 →
    count ≤ b.availableBits → (Aborts ((takeBits count).run b) ↔ b.storedBits < count)
  | 0, b, _, _ => iff_of_false (aborts_ok _ _) (Nat.not_lt_zero _)
  | count + 1, b, hw, ha => by
    have hsteps : takeBits (count + 1) = readBit >>= fun bit => (bit :: ·) <$> takeBits count := rfl
    rw [hsteps]
    cases hbit : readBit.run b with
    | ok bit b₁ =>
      obtain ⟨hstored, hwpos, hsize⟩ := storedBits_of_readBit hbit
      have havail := availableBits_of_readBit hbit
      have hrest := takeBits_aborts_iff count (b := b₁) (by omega) (by omega)
      rw [aborts_bind_of_ok hbit, aborts_map, hrest]
      omega
    | error e b₁ =>
      cases e with
      | refused cause =>
        rw [availableBits_of_readBit_refused hbit] at ha
        omega
      | overrun =>
        have habort : Aborts (readBit.run b) := ⟨b₁, hbit⟩
        obtain ⟨-, hu, hr⟩ := (readBit_aborts_iff hw).mp habort
        refine iff_of_true ⟨b₁, run_bind_of_error hbit⟩ ?_
        rw [storedBits, hu, hr, Nat.sub_self, List.length_nil]
        omega

theorem readBits_aborts_iff {b : Buffer} (hr : b.rpos ≤ b.wpos) (hw : b.wpos ≤ b.size + 1) (count : Nat) :
    Aborts ((readBits count).run b) ↔
      b.IsPast ∧ 1 ≤ count ∧ count ≤ 64 ∧ count ≤ b.availableBits ∧ b.storedBits < count := by
  rw [readBits_run_of_le hr, aborts_ite, aborts_ite]
  split
  next hcount => exact iff_of_false (aborts_refused _ _) fun ⟨_, _, _, _⟩ => by omega
  next hcount =>
    split
    next hshort => exact iff_of_false (aborts_refused _ _) fun ⟨_, _, _, _, _⟩ => by omega
    next havail =>
      have htake := takeBits_aborts_iff count hw (Nat.not_lt.mp havail)
      refine Iff.trans (b := Aborts ((takeBits count).run b)) ?_ (htake.trans ?_)
      · cases (takeBits count).run b <;> simp [Aborts]
      · -- More bits than are stored pass the check only where the write cursor is past them.
        unfold IsPast
        unfold availableBits remaining at *
        unfold storedBits
        omega

theorem readMessage_aborts_iff {b : Buffer} (hw : b.wpos ≤ b.size + 1) (opcode : Opcode) :
    Aborts ((Message.read opcode).run b) ↔ b.IsPast ∧
      ∃ taken, taken <+: Message.runs b opcode ∧ taken ≠ [] ∧ b.rpos + taken.sum = b.size + 1 := by
  obtain ⟨value, hends⟩ := Message.read_ends_runs b opcode
  exact hends.overrun_iff hw

/-! ## Everything else -/

/-- Where it begins with what holds of every buffer that can come to be, the
operation's steps are in range, and it goes on from buffers of which this holds. -/
structure InRange {α : Type} (m : BufferM α) : Prop where
  moves : Moves m
  not_aborts : ∀ b : Buffer, b.WellFormed → ¬ Aborts (m.run b)

theorem InRange.pure {α : Type} (a : α) : InRange (Pure.pure a) := ⟨Moves.pure a, fun _ _ => aborts_ok _ _⟩

theorem InRange.bind {α β : Type} {m : BufferM α} {f : α → BufferM β} (hm : InRange m)
    (hf : ∀ a, InRange (f a)) : InRange (m >>= f) := by
  refine ⟨hm.moves.bind fun a => (hf a).moves, fun b hb => ?_⟩
  have hchanges := hm.moves b
  cases hrun : m.run b with
  | ok a b₁ =>
    rw [after, hrun] at hchanges
    rw [aborts_bind_of_ok hrun]
    exact (hf a).not_aborts b₁ (hchanges.wellFormed hb)
  | error e b₁ =>
    rintro ⟨b', h⟩
    rw [run_bind_of_error hrun] at h
    cases h
    exact hm.not_aborts b hb ⟨b₁, hrun⟩

theorem inRange_sequential : Sequential InRange := ⟨InRange.pure, InRange.bind⟩

theorem inRange_append (src : List UInt8) : InRange (append src) :=
  ⟨moves_append src, fun b _ => by simp [append_run]⟩

theorem inRange_flushBits : InRange flushBits := ⟨moves_flushBits, fun b _ => by simp [flushBits_run]⟩

/-- The pending bits leave a place for the next one. -/
theorem inRange_writeBit (bit : Bool) : InRange (writeBit bit) :=
  ⟨moves_writeBit bit, fun b hb => by simp [writeBit_run_of_lt hb.pending_lt]⟩

theorem inRange_writeBits (value : UInt64) (count : Nat) : InRange (writeBits value count) :=
  ⟨moves_writeBits value count, fun b hb => by simp [writeBits_run _ _ hb.pending_lt]⟩

theorem inRange_writeString (text : String) : InRange (writeString text) := by
  unfold writeString
  split
  · exact .pure _
  · exact inRange_append _

theorem inRange_writeTerminated (text : String) : InRange (writeTerminated text) :=
  ⟨moves_writeTerminated text, fun b _ => by simp [writeTerminated_run]⟩

theorem inRange_writeMessage : ∀ message : ServerMessage, InRange message.write :=
  inRange_sequential.writeMessage inRange_append inRange_writeBit inRange_flushBits

theorem inRange_writeAt (pos : Nat) (src : List UInt8) : InRange (writeAt pos src) :=
  ⟨moves_writeAt pos src, fun b _ => by simp [writeAt_run]⟩

theorem inRange_put (pos : Nat) (t : ScalarType) (value : t.Value) : InRange (put pos t value) := by
  rw [put_eq]
  exact inRange_writeAt pos _

theorem inRange_putBits (pos : Nat) (value : UInt64) (count : Nat) : InRange (putBits pos value count) :=
  ⟨moves_putBits pos value count, fun b _ => by simp [putBits_run]⟩

theorem appendBuffer_aborts_iff {source b : Buffer} (hw : source.wpos ≤ source.size + 1) (hb : b.WellFormed) :
    Aborts ((appendBuffer source).run b) ↔ source.IsPast := by
  rw [appendBuffer_run, aborts_ite, aborts_ite]
  unfold IsPast
  split
  next hzero => exact iff_of_false (aborts_ok _ _) (by omega)
  next hpos =>
    split
    next hpast => exact iff_of_true (aborts_overrun _) (by omega)
    next hstored => exact iff_of_false ((inRange_append _).not_aborts b hb) (by omega)

/-! ## Every operation -/

theorem Operation.aborts_iff {b : Buffer} (hb : b.WellFormed) (op : Operation)
    (hsource : ∀ source, op = .appendBuffer source → source.WellFormed) :
    Aborts (op.run.run b) ↔ op.Overruns b := by
  have hw := hb.wpos_le
  have hnever {m : BufferM Unit} {op : Operation} (hrun : op.run = (fun _ => .done) <$> m)
      (hm : ¬ Aborts (m.run b)) (ho : ¬ op.Overruns b) : Aborts (op.run.run b) ↔ op.Overruns b := by
    rw [hrun, aborts_map]
    exact iff_of_false hm ho
  have hwrite {m : BufferM Unit} {op : Operation} (hrun : op.run = (fun _ => .done) <$> m)
      (hm : InRange m) (ho : ¬ op.Overruns b) : Aborts (op.run.run b) ↔ op.Overruns b :=
    hnever hrun (hm.not_aborts b hb) ho
  cases op with
  | append src => exact hwrite rfl (inRange_append src) id
  | appendBuffer source =>
    rw [run, aborts_map]
    exact appendBuffer_aborts_iff (hsource source rfl).wpos_le hb
  | write t value => exact hwrite rfl (write_of_append inRange_append t value) id
  | writeString text => exact hwrite rfl (inRange_writeString text) id
  | writeTerminated text => exact hwrite rfl (inRange_writeTerminated text) id
  | writeGuid guid => exact hwrite rfl (inRange_append _) id
  | writeMessage message => exact hwrite rfl (inRange_writeMessage message) id
  | writeBit bit => exact hwrite rfl (inRange_writeBit bit) id
  | writeBits value count => exact hwrite rfl (inRange_writeBits value count) id
  | flushBits => exact hwrite rfl inRange_flushBits id
  | writeAt pos src => exact hwrite rfl (inRange_writeAt pos src) id
  | put pos t value => exact hwrite rfl (inRange_put pos t value) id
  | putBits pos value count => exact hwrite rfl (inRange_putBits pos value count) id
  | read t =>
    rw [run, aborts_map]
    exact read_aborts_iff hw t
  | readBytes len =>
    rw [run, aborts_map]
    exact readBytes_aborts_iff hw len
  | skip len =>
    rw [run, aborts_map]
    exact skip_aborts_iff hw len
  | readString len =>
    rw [run, aborts_map]
    exact readString_aborts_iff hw len
  | readTerminated =>
    rw [run, aborts_map]
    exact readTerminated_aborts_iff hw
  | readTerminatedBytes =>
    rw [run, aborts_map]
    exact readTerminatedBytes_aborts_iff hw
  | readGuid =>
    rw [run, aborts_map]
    exact readGuid_aborts_iff hw
  | readMessage opcode =>
    rw [run, aborts_map]
    exact readMessage_aborts_iff hw opcode
  | readBit =>
    rw [run, aborts_map]
    exact readBit_aborts_iff hw
  | readBits count =>
    rw [run, aborts_map]
    exact readBits_aborts_iff hb.rpos_le hw count
  | dropUnread => exact hnever rfl (aborts_ok _ _) id
  | setReadPos pos => exact hnever rfl (by simp [setReadPos_run]) id
  | setWritePos pos => exact hnever rfl (by simp [setWritePos_run]) id
  | reserve total => exact hnever rfl (aborts_ok _ _) id
  | clear => exact hnever rfl (aborts_ok _ _) id

/-- A write cursor stands past the stored bytes only after overshooting. -/
theorem Operation.isPast_after_iff {b : Buffer} (hb : b.WellFormed) (op : Operation) (hw : b.wpos ≤ b.size) :
    (op.after b).IsPast ↔ op.Overshoots b := by
  have hafter := op.wellFormed_after hb
  have hordered := op.ordered_after_iff hb ⟨hb.rpos_le, hw⟩
  have hpast : (op.after b).IsPast ↔ ¬ (op.after b).Ordered := by
    have := hafter.wpos_le
    constructor
    · intro h ho
      have := ho.wpos_le
      unfold IsPast at h
      omega
    · intro ho
      by_contra h
      unfold IsPast at h
      exact ho ⟨hafter.rpos_le, by omega⟩
  rw [hpast, hordered, Classical.not_not]

/-- Every buffer that can come to be keeps to the bounds that the operations'
steps rely on: the cursors stand in order, the write cursor one past the stored
bytes at most, there is room for what is stored, and a byte that is begun has a
place for the next bit. Between the steps of an operation too, a total that there
is no room for is not below the stored bytes, which growing and `reserve` subtract
from it. The write cursor does not stand past the stored bytes in a buffer as it is
made, and comes to stand there only by overshooting. An operation aborts, at a slice,
an index, a shift or a difference, exactly if it overruns the buffer that it slices,
and else gives its result or is refused. -/
theorem overruns_iff {b : Buffer} (reachable : Reachable b) (op : Operation)
    (sliced : ∀ source, op = .appendBuffer source → Reachable source) :
    (b.rpos ≤ b.wpos ∧ b.wpos ≤ b.size + 1 ∧ b.size ≤ b.capacity ∧
        b.pending.length < 8 ∧ b.unread.length < 8) ∧
      (∀ c, Changes b c → ∀ total, c.capacity < total → c.size ≤ total) ∧
      (Made b → ¬ b.IsPast) ∧
      (b.wpos ≤ b.size → ((op.after b).IsPast ↔ op.Overshoots b)) ∧
      ((∃ b', op.run.run b = .error .overrun b') ↔ op.Overruns b) ∧
      (¬ op.Overruns b → (∃ answer b', op.run.run b = .ok answer b') ∨
        ∃ cause b', op.run.run b = .error (.refused cause) b') := by
  have hb := reachable.wellFormed
  have haborts := op.aborts_iff hb fun source h => (sliced source h).wellFormed
  refine ⟨⟨hb.rpos_le, hb.wpos_le, hb.size_le_capacity, hb.pending_lt, hb.unread_lt⟩, ?_, ?_, ?_, haborts, ?_⟩
  · intro c changes total hroom
    exact Nat.le_trans (changes.wellFormed hb).size_le_capacity (Nat.le_of_lt hroom)
  · intro made past
    have := made.ordered.wpos_le
    unfold IsPast at past
    omega
  · exact op.isPast_after_iff hb
  · exact fun h => ok_or_refused (mt haborts.mp h)

/-- What `overshootingRun` leaves of an empty buffer: the write cursor at two,
past the one stored byte. -/
def overshot : Buffer := overshootingRun.foldl (fun b op => op.after b) .empty

theorem reachable_overshot : Reachable overshot := by
  have hlast : overshot ∈ trail overshootingRun .empty := by decide
  exact (Reachable.made (.fresh .empty)).trail hlast

/-- Two bytes to read by the cursors and one by the store; a buffer that takes
it over would take two. -/
theorem overruns_iff_overshot :
    Reachable overshot ∧
      (∃ b', (Operation.read .u16).run.run overshot = .error .overrun b') ∧
      (∃ b', (Operation.appendBuffer overshot).run.run .empty = .error .overrun b') := by
  have hreach := reachable_overshot
  refine ⟨hreach, ?_, ?_⟩
  · exact (overruns_iff hreach (.read .u16) (by simp)).2.2.2.2.1.mpr ⟨rfl, rfl⟩
  · refine (overruns_iff (.made (.fresh .empty)) (.appendBuffer overshot) ?_).2.2.2.2.1.mpr rfl
    rintro source ⟨⟩
    exact hreach

end PacketWire.Buffer
