/-
How much room a buffer has makes no difference.

The room decides when a store grows, and nothing that an operation answers or
leaves behind hangs on it: without its room (`bare`) a buffer answers the same
and is left the same but for the room (`Blind`). So buffers that are alike but
for it are never told apart by what is done with them (`transcript_alike`), and
`capacity_unobservable` draws from this what a first room, growing, reserving
and clearing come to.
-/
import PacketWire.Packet
import PacketWire.Proofs.Buffer.Reachable

namespace PacketWire.Buffer

/-! ## Buffers but for their room -/

/-- The buffer without its room. -/
def bare (b : Buffer) : Buffer := { b with capacity := 0 }

/-- The two agree on everything but the room. -/
def Alike (b c : Buffer) : Prop := b.bare = c.bare

/-- What is seen of how an operation ends: all of it but the room that is left. -/
def seen {α : Type} : EStateM.Result Failure Buffer α → EStateM.Result Failure Buffer α
  | .ok a b => .ok a b.bare
  | .error e b => .error e b.bare

@[simp] theorem seen_ok {α : Type} (a : α) (b : Buffer) :
    seen (.ok a b : EStateM.Result Failure Buffer α) = .ok a b.bare := rfl

@[simp] theorem seen_error {α : Type} (e : Failure) (b : Buffer) :
    seen (.error e b : EStateM.Result Failure Buffer α) = .error e b.bare := rfl

@[simp] theorem seen_ite {α : Type} (c : Prop) [Decidable c] (x y : EStateM.Result Failure Buffer α) :
    seen (if c then x else y) = if c then seen x else seen y := apply_ite seen c x y

theorem eq_of_seen_ok {α : Type} {r : EStateM.Result Failure Buffer α} {a : α} {b : Buffer}
    (h : seen r = .ok a b) : ∃ c : Buffer, r = .ok a c ∧ c.bare = b := by
  cases r with
  | ok a' c =>
    cases h
    exact ⟨c, rfl, rfl⟩
  | error e c => cases h

theorem eq_of_seen_error {α : Type} {r : EStateM.Result Failure Buffer α} {e : Failure} {b : Buffer}
    (h : seen r = .error e b) : ∃ c : Buffer, r = .error e c ∧ c.bare = b := by
  cases r with
  | ok a c => cases h
  | error e' c =>
    cases h
    exact ⟨c, rfl, rfl⟩

theorem left_seen {α : Type} (r : EStateM.Result Failure Buffer α) : left (seen r) = (left r).bare := by
  cases r <;> rfl

/-- What is seen of the operations in turn, each done on what the one before left. -/
def transcript : List Operation → Buffer → List (EStateM.Result Failure Buffer Answer)
  | [], _ => []
  | op :: ops, b => seen (op.run.run b) :: transcript ops (op.after b)

/-! ## Storing -/

theorem bare_place (b : Buffer) (src : List UInt8) : (b.bare.place src).bare = (b.place src).bare := rfl

theorem bare_flushed (b : Buffer) : b.bare.flushed.bare = b.flushed.bare := by
  unfold flushed
  by_cases h : b.pending = []
  · rw [if_pos h, if_pos (show b.bare.pending = [] from h)]
    rfl
  · rw [if_neg h, if_neg (show b.bare.pending ≠ [] from h)]
    rfl

theorem bare_flushed_place (b : Buffer) (src : List UInt8) :
    (b.bare.flushed.place src).bare = (b.flushed.place src).bare := by
  rw [← bare_place, bare_flushed, bare_place]

theorem bare_pushBit (b : Buffer) (bit : Bool) : (b.bare.pushBit bit).bare = (b.pushBit bit).bare := by
  unfold pushBit
  by_cases h : b.pending.length + 1 < 8
  · rw [if_pos h, if_pos (show b.bare.pending.length + 1 < 8 from h)]
    rfl
  · rw [if_neg h, if_neg (show ¬ b.bare.pending.length + 1 < 8 from h)]
    rfl

/-! ## Operations that the room makes no difference to -/

/-- Without its room a buffer gives the same result, and is left the same but for the room. -/
def Blind {α : Type} (m : BufferM α) : Prop := ∀ b : Buffer, seen (m.run b.bare) = seen (m.run b)

theorem Blind.seen_eq {α : Type} {m : BufferM α} (hm : Blind m) {b c : Buffer} (h : b.Alike c) :
    seen (m.run b) = seen (m.run c) := by
  rw [← hm b, h, hm c]

theorem Blind.pure {α : Type} (a : α) : Blind (Pure.pure a) := fun _ => rfl

theorem Blind.bind {α β : Type} {m : BufferM α} {f : α → BufferM β} (hm : Blind m)
    (hf : ∀ a, Blind (f a)) : Blind (m >>= f) := by
  intro b
  have hfirst := hm b
  cases hrun : m.run b with
  | ok a b₁ =>
    rw [hrun] at hfirst
    obtain ⟨c, hbare, halike⟩ := eq_of_seen_ok hfirst
    rw [run_bind_of_ok hrun, run_bind_of_ok hbare]
    exact (hf a).seen_eq halike
  | error e b₁ =>
    rw [hrun] at hfirst
    obtain ⟨c, hbare, halike⟩ := eq_of_seen_error hfirst
    rw [run_bind_of_error hrun, run_bind_of_error hbare, seen_error, seen_error, halike]

theorem blind_sequential : Sequential Blind := ⟨Blind.pure, Blind.bind⟩

theorem Blind.ite {α : Type} {c : Prop} [Decidable c] {m n : BufferM α} (hm : Blind m)
    (hn : Blind n) : Blind (if c then m else n) := by
  split
  · exact hm
  · exact hn

/-- What goes on may look at the buffer, except for its room. -/
theorem Blind.look {α : Type} {f : Buffer → BufferM α} (hf : ∀ b, Blind (f b))
    (hbare : ∀ b : Buffer, f b.bare = f b) : Blind (get >>= f) := by
  intro b
  have hrun : ∀ c : Buffer, (get >>= f).run c = (f c).run c := fun _ => rfl
  rw [hrun, hrun, hbare, hf b b]

theorem blind_refuse {α : Type} (cause : CodecError) : Blind (refuse cause : BufferM α) := fun _ => rfl

theorem blind_overrun {α : Type} : Blind (throw .overrun : BufferM α) := fun _ => rfl

theorem blind_demand (range : Prop) [Decidable range] : Blind (demand range) := .ite (.pure ()) blind_overrun

theorem blind_subtract (m n : Nat) : Blind (subtract m n) := .bind (blind_demand _) fun _ => .pure _

theorem blind_checkBitCount (count : Nat) : Blind (checkBitCount count) :=
  .ite (blind_refuse _) (.pure ())

theorem blind_checkLimit (extra : Nat) : Blind (checkLimit extra) := by
  intro b
  simp only [checkLimit_run, seen_ite, seen_ok, seen_error]
  rfl

/-! ## Writes -/

theorem blind_flushBits : Blind flushBits := by
  intro b
  simp only [flushBits_run, seen_ite, seen_ok, seen_error, bare_flushed]
  rfl

theorem blind_writeBit (bit : Bool) : Blind (writeBit bit) := by
  intro b
  simp only [writeBit_run, seen_ite, seen_ok, seen_error, bare_pushBit]
  rfl

theorem blind_writeBits (value : UInt64) (count : Nat) : Blind (writeBits value count) := by
  rw [writeBits_eq]
  exact .bind (blind_checkBitCount count) fun _ =>
    .look (fun _ => .bind (blind_checkLimit _) fun _ => blind_sequential.forM_writeBit blind_writeBit _) fun _ => rfl

theorem blind_append (src : List UInt8) : Blind (append src) := by
  intro b
  simp only [append_run, seen_ite, seen_ok, seen_error, bare_flushed_place]
  rfl

theorem blind_write (t : ScalarType) (value : t.Value) : Blind (write t value) := write_of_append blind_append t value

theorem blind_appendBuffer (source : Buffer) : Blind (appendBuffer source) :=
  .ite (.pure ()) (.ite blind_overrun (blind_append _))

theorem blind_writeString (text : String) : Blind (writeString text) := .ite (.pure ()) (blind_append _)

theorem blind_writeTerminated (text : String) : Blind (writeTerminated text) :=
  .look (fun _ => .bind (blind_checkLimit _) fun _ => .bind (blind_writeString text) fun _ => blind_write _ _)
    fun _ => rfl

theorem blind_setWritePos (pos : Nat) : Blind (setWritePos pos) := by
  intro b
  have hmoved : ({ b.bare.flushed with wpos := pos } : Buffer).bare =
      ({ b.flushed with wpos := pos } : Buffer).bare :=
    congrArg (fun c : Buffer => { c with wpos := pos }) (bare_flushed b)
  simp only [setWritePos_run, seen_ite, seen_ok, seen_error, hmoved]
  rfl

theorem blind_writeAt (pos : Nat) (src : List UInt8) : Blind (writeAt pos src) := by
  intro b
  simp only [writeAt_run, seen_ite, seen_ok, seen_error]
  rfl

theorem blind_put (pos : Nat) (t : ScalarType) (value : t.Value) : Blind (put pos t value) := by
  rw [put_eq]
  exact blind_writeAt pos _

theorem blind_putBits (pos : Nat) (value : UInt64) (count : Nat) : Blind (putBits pos value count) := by
  intro b
  simp only [putBits_run, seen_ite, seen_ok, seen_error]
  rfl

/-! ## Reads -/

theorem blind_peek (len : Nat) : Blind (peek len) := by
  intro b
  simp only [peek_run, seen_ite, seen_ok, seen_error]
  rfl

theorem blind_advance (len : Nat) : Blind (advance len) := fun _ => rfl

theorem blind_readBytes (len : Nat) : Blind (readBytes len) := by
  intro b
  simp only [readBytes_run, seen_ite, seen_ok, seen_error]
  rfl

theorem blind_decodeText (raw : List UInt8) : Blind (decodeText raw) := by
  unfold decodeText
  split
  · exact .pure _
  · exact blind_refuse _

theorem blind_read (t : ScalarType) : Blind (read t) :=
  .bind (blind_peek _) fun _ => .ite (.bind (blind_refuse _) fun _ => .bind (blind_advance _) fun _ => .pure _)
    (.bind (blind_advance _) fun _ => .pure _)

theorem blind_readString (len : Nat) : Blind (readString len) :=
  .bind (blind_peek len) fun raw => .bind (blind_decodeText raw) fun _ =>
    .bind (blind_advance len) fun _ => .pure _

theorem blind_peekTerminated : Blind peekTerminated := by
  intro b
  simp only [peekTerminated_run, seen_ite, seen_ok, seen_error]
  rfl

theorem blind_readTerminatedBytes : Blind readTerminatedBytes :=
  .bind blind_peekTerminated fun _ => .bind (blind_advance _) fun _ => .pure _

theorem blind_readTerminated : Blind readTerminated :=
  .bind blind_peekTerminated fun raw => .bind (blind_decodeText raw) fun _ =>
    .bind (blind_advance _) fun _ => .pure _

theorem blind_readBit : Blind readBit := by
  intro b
  have hunread : b.bare.unread = b.unread := rfl
  have hnext : b.bare.contents[b.bare.rpos]? = b.contents[b.rpos]? := rfl
  rw [readBit_run, readBit_run, hunread, hnext]
  cases b.unread with
  | cons bit rest => rfl
  | nil =>
    simp only [seen_ite]
    cases b.contents[b.rpos]? <;> rfl

theorem blind_readBits (count : Nat) : Blind (readBits count) :=
  have hword : Blind (readWord count) := blind_sequential.readWord blind_readBit blind_demand count
  .bind (blind_checkBitCount count) fun _ =>
    .look (fun _ => .bind (blind_subtract _ _) fun _ =>
      .ite (.bind (blind_subtract _ _) fun _ => .bind (blind_refuse _) fun _ => hword) hword) fun _ => rfl

theorem blind_dropUnread : Blind (modify dropUnread) := fun _ => rfl

theorem blind_setReadPos (pos : Nat) : Blind (setReadPos pos) := by
  intro b
  simp only [setReadPos_run, seen_ite, seen_ok, seen_error]
  rfl

theorem blind_readGuid : Blind Guid.read := .bind (blind_readBytes _) fun _ => .pure _

/-! ## Messages -/

theorem blind_readMessage : ∀ opcode : Opcode, Blind (Message.read opcode) :=
  blind_sequential.readMessage blind_readBytes blind_read blind_readBit blind_dropUnread

theorem blind_writeMessage : ∀ message : ServerMessage, Blind message.write :=
  blind_sequential.writeMessage blind_append blind_writeBit blind_flushBits

/-! ## Every operation -/

/-- No operation regards the room. -/
theorem Operation.blind : ∀ op : Operation, Blind op.run
  | .append src => blind_sequential.map (blind_append src)
  | .appendBuffer source => blind_sequential.map (blind_appendBuffer source)
  | .write t value => blind_sequential.map (blind_write t value)
  | .writeString text => blind_sequential.map (blind_writeString text)
  | .writeTerminated text => blind_sequential.map (blind_writeTerminated text)
  | .writeGuid _ => blind_sequential.map (blind_append _)
  | .writeMessage message => blind_sequential.map (blind_writeMessage message)
  | .writeBit bit => blind_sequential.map (blind_writeBit bit)
  | .writeBits value count => blind_sequential.map (blind_writeBits value count)
  | .flushBits => blind_sequential.map blind_flushBits
  | .writeAt pos src => blind_sequential.map (blind_writeAt pos src)
  | .put pos t value => blind_sequential.map (blind_put pos t value)
  | .putBits pos value count => blind_sequential.map (blind_putBits pos value count)
  | .read t => blind_sequential.map (blind_read t)
  | .readBytes len => blind_sequential.map (blind_readBytes len)
  | .skip len => blind_sequential.map (.bind (blind_readBytes len) fun _ => .pure _)
  | .readString len => blind_sequential.map (blind_readString len)
  | .readTerminated => blind_sequential.map blind_readTerminated
  | .readTerminatedBytes => blind_sequential.map blind_readTerminatedBytes
  | .readGuid => blind_sequential.map blind_readGuid
  | .readMessage opcode => blind_sequential.map (blind_readMessage opcode)
  | .readBit => blind_sequential.map blind_readBit
  | .readBits count => blind_sequential.map (blind_readBits count)
  | .dropUnread => blind_sequential.map blind_dropUnread
  | .setReadPos pos => blind_sequential.map (blind_setReadPos pos)
  | .setWritePos pos => blind_sequential.map (blind_setWritePos pos)
  | .reserve _ => blind_sequential.map fun _ => rfl
  | .clear => blind_sequential.map fun _ => rfl

/-- What an operation leaves of buffers that are alike but for their room is so again. -/
theorem Operation.after_alike (op : Operation) {b c : Buffer} (h : b.Alike c) :
    (op.after b).Alike (op.after c) := by
  have hseen := congrArg left (op.blind.seen_eq h)
  rwa [left_seen, left_seen] at hseen

/-! ## Every run -/

theorem transcript_alike : ∀ (ops : List Operation) {b c : Buffer}, b.Alike c →
    transcript ops b = transcript ops c
  | [], _, _, _ => rfl
  | op :: ops, b, c, h => by
    rw [transcript, transcript, op.blind.seen_eq h, transcript_alike ops (op.after_alike h)]

theorem appendBuffer_alike {source other : Buffer} (h : source.Alike other) :
    appendBuffer source = appendBuffer other := by
  have hbare : ∀ s : Buffer, appendBuffer s.bare = appendBuffer s := fun _ => rfl
  rw [← hbare source, h, hbare other]

/-- The operation asks for room. -/
def Operation.isReserve : Operation → Bool
  | .reserve _ => true
  | _ => false

theorem Operation.after_isReserve {op : Operation} (h : op.isReserve) (b : Buffer) : (op.after b).Alike b := by
  cases op <;> first | rfl | cases h

/-- What is seen of the operations that do not ask for room is the same without those that do. -/
theorem transcript_filter : ∀ (ops : List Operation) (b : Buffer),
    transcript (ops.filter (!·.isReserve)) b =
      ((ops.zip (transcript ops b)).filter (!·.1.isReserve)).map (·.2)
  | [], _ => rfl
  | op :: ops, b => by
    have ih := transcript_filter ops (op.after b)
    rw [transcript, List.zip_cons_cons, List.filter_cons, List.filter_cons]
    cases h : op.isReserve with
    | true =>
      have hfiltered : transcript (ops.filter (!·.isReserve)) b =
          transcript (ops.filter (!·.isReserve)) (op.after b) :=
        transcript_alike _ (op.after_isReserve h b).symm
      simpa [hfiltered] using ih
    | false => simpa [transcript] using ih

theorem clear_alike (b : Buffer) {fresh : Buffer} (made : Made fresh) (empty : fresh.isEmpty)
    (limit : fresh.limit = b.limit) : (Operation.clear.after b).Alike fresh := by
  obtain ⟨capacity, ceiling, rfl⟩ := made.eq_of_isEmpty empty
  obtain rfl : ceiling = b.limit := limit
  rfl

/-- Whatever the operations: what is seen of them is the same on any two buffers
that are alike but for their room, and if one of these is appended to another. So
it does not hang on the room that a buffer, or a packet, is made with, nor on what
room is asked for on the way. A buffer that was cleared, whatever was done with it
before, shows what any empty buffer shows that was just made under its ceiling. -/
theorem capacity_unobservable :
    (∀ b c : Buffer, b.Alike c → ∀ ops, transcript ops b = transcript ops c) ∧
    (∀ source other : Buffer, source.Alike other → appendBuffer source = appendBuffer other) ∧
    (∀ reserve ops, transcript ops (.withCapacity reserve) = transcript ops .empty) ∧
    (∀ reserve limit ops, transcript ops (.withLimit reserve limit) = transcript ops (.withLimit 0 limit)) ∧
    (∀ opcode hint limit ops, transcript ops (Packet.outboundWithLimit opcode hint limit).buffer =
      transcript ops (.withLimit 0 limit)) ∧
    (∀ (b : Buffer) (ops : List Operation), transcript (ops.filter (!·.isReserve)) b =
      ((ops.zip (transcript ops b)).filter (!·.1.isReserve)).map (·.2)) ∧
    ∀ b fresh : Buffer, Made fresh → fresh.isEmpty → fresh.limit = b.limit →
      ∀ ops, transcript ops (Operation.clear.after b) = transcript ops fresh := by
  refine ⟨?alike, ?appended, ?capacity, ?limit, ?outbound, ?reserve, ?clear⟩
  case alike => exact fun _ _ h ops => transcript_alike ops h
  case appended => exact fun _ _ => appendBuffer_alike
  case capacity => exact fun _ ops => transcript_alike ops rfl
  case limit => exact fun _ _ ops => transcript_alike ops rfl
  case outbound => exact fun _ _ _ ops => transcript_alike ops rfl
  case reserve => exact fun b ops => transcript_filter ops b
  case clear => exact fun b _ made empty limit ops => transcript_alike ops (clear_alike b made empty limit)

/-- A bit is pending behind three stored bytes, and five bits of the first are unread. -/
def halfRead : Buffer :=
  (Operation.readBits 3).after ((Operation.writeBit true).after ((Operation.append [7, 8, 9]).after (.withLimit 0 9)))

/-- Once cleared, it takes and gives bits and bytes as a buffer does that was made with room for them. -/
theorem capacity_unobservable_halfRead :
    halfRead.pending = [true] ∧ halfRead.unread.length = 5 ∧ halfRead.capacity = 300 ∧
      let ops : List Operation := [.writeBits 5 3, .append [1], .readBits 2, .readBytes 1, .reserve 400, .append [2]]
      transcript ops (Operation.clear.after halfRead) = transcript ops (.withLimit 5 9) :=
  ⟨rfl, rfl, rfl, capacity_unobservable.2.2.2.2.2.2 halfRead (.withLimit 5 9) (.fresh (.withLimit 5 9)) rfl rfl _⟩

end PacketWire.Buffer
