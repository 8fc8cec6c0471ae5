/-
What a dispatcher does with a packet or a payload, said once.

A dispatch takes one of the ways out that `Course` lists, and which one is a
function of the dispatcher and of the packet alone. Its result, the calls made,
the counters raised and the events logged are read off the way it took
(`dispatch_run`, `dispatchRaw_run`), so that nothing that is proved of
dispatchers looks into a dispatch again.
-/
import PacketWire.Dispatcher
import PacketWire.Proofs.Encode

namespace PacketWire

/-- How a packet, or a payload under a number, fares at a dispatcher. -/
inductive Course (τ : Type)
  /-- The payload makes no packet. -/
  | barred (cause : CodecError)
  /-- The packet is refused by the schema of its opcode, or for being the server's own. -/
  | undecoded (cause : CodecError)
  /-- The schema slices past the packet's stored bytes. -/
  | aborted
  /-- No handler was registered for the message. -/
  | unhandled
  /-- The handler fails. -/
  | failed (call : Call τ) (cause : CodecError)
  /-- The handler's reply passes the ceiling, at `size` bytes of it. -/
  | unsent (call : Call τ) (reply : ServerMessage) (size limit : Nat)
  /-- The handler does not reply. -/
  | silent (call : Call τ)
  /-- The handler replies, and this is the reply's packet. -/
  | answered (call : Call τ) (packet : Packet)

namespace Course

variable {τ : Type}

/-- What the caller gets. -/
def result : Course τ → Except Failure (Option Packet)
  | barred cause | undecoded cause => .error (.refused cause)
  | aborted => .error .overrun
  | unhandled => .error (.refused .unexpectedMessage)
  | failed _ cause => .error (.refused cause)
  | unsent _ _ size limit => .error (.refused (.capacityExceeded size limit))
  | silent _ => .ok none
  | answered _ packet => .ok (some packet)

/-- The handlers called. -/
def calls : Course τ → List (Call τ)
  | failed call _ | unsent call .. | silent call | answered call _ => [call]
  | _ => []

/-- What is counted on the way out. -/
def count : Course τ → Metrics → Metrics
  | barred cause | undecoded cause => (·.codecError cause)
  | aborted => id
  | unhandled => (·.unhandled)
  | failed .. => (·.handlerError)
  | unsent _ _ size limit => (·.codecError (.capacityExceeded size limit))
  | silent _ => id
  | answered _ packet => (·.sent packet.buffer.size.toUInt64)

/-- What is logged on the way out. -/
def events : Course τ → List Event
  | barred (.unknownOpcode raw) => [.unknownOpcode raw]
  | undecoded cause => [.packetDropped cause]
  | failed _ cause => [.handlerFailed cause]
  | unsent _ reply size limit =>
    [.replyNotEncoded (.capacityExceeded size limit) (.server reply.opcode)]
  | answered _ packet => [.packetEncoded packet.opcode packet.buffer.size]
  | _ => []

end Course

/-! ## Telemetry -/

namespace Journal

theorem recordAll_recordAll (j : Journal) (es later : List Event) :
    (j.recordAll es).recordAll later = j.recordAll (es ++ later) := by
  rw [recordAll, recordAll, recordAll, List.foldl_append]

end Journal

namespace Telemetry

variable {τ : Type}

/-- A result, with the telemetry that is left. -/
def conclude {α : Type} (result : Except Failure α) (t : Telemetry τ) :
    EStateM.Result Failure (Telemetry τ) α :=
  match result with
  | .ok value => .ok value t
  | .error failure => .error failure t

/-- The result of a step of work. -/
def outcome {α : Type} : EStateM.Result Failure (Telemetry τ) α → Except Failure α
  | .ok value _ => .ok value
  | .error failure _ => .error failure

/-- The telemetry that a step of work leaves. -/
def left {α : Type} : EStateM.Result Failure (Telemetry τ) α → Telemetry τ
  | .ok _ t | .error _ t => t

@[simp] theorem outcome_conclude {α : Type} (result : Except Failure α) (t : Telemetry τ) :
    outcome (conclude result t) = result := by
  cases result <;> rfl

@[simp] theorem left_conclude {α : Type} (result : Except Failure α) (t : Telemetry τ) :
    left (conclude result t) = t := by
  cases result <;> rfl

/-- The telemetry after more work. -/
def extend (t : Telemetry τ) (count : Metrics → Metrics) (events : List Event) (calls : List (Call τ)) :
    Telemetry τ :=
  ⟨count t.metrics, t.journal.recordAll events, t.calls ++ calls⟩

end Telemetry

/-! ## The course of a dispatch -/

/-- What a dispatcher is asked to dispatch. -/
inductive Request
  | packet (packet : Packet)
  | payload (raw : UInt32) (bytes : List UInt8)

/-- A payload in its packet, with nothing read. -/
def Packet.fresh (opcode : Opcode) (payload : List UInt8) (limit : Nat) : Packet :=
  ⟨opcode, ⟨payload, 0, payload.length, [], [], payload.length, limit⟩⟩

theorem Packet.inboundWithLimit_eq (opcode : Opcode) (payload : List UInt8) (limit : Nat) :
    Packet.inboundWithLimit opcode payload limit =
      if limit < payload.length then .error (.capacityExceeded payload.length limit)
      else .ok (.fresh opcode payload limit) := by
  rw [Packet.inboundWithLimit, Buffer.ofBytesWithLimit]
  split <;> rfl

theorem ClientOpcode.ofRaw_raw (op : ClientOpcode) : ofRaw op.raw = .ok op := by
  cases op <;> rfl

theorem ClientOpcode.raw_of_ofRaw {raw : UInt32} {op : ClientOpcode} (h : ofRaw raw = .ok op) :
    op.raw = raw := by
  unfold ofRaw at h
  split at h
  next found hfound =>
    cases h
    simpa using List.find?_some hfound
  next => cases h

theorem ClientOpcode.eq_of_ofRaw_error {raw : UInt32} {cause : CodecError} (h : ofRaw raw = .error cause) :
    cause = .unknownOpcode raw := by
  unfold ofRaw at h
  split at h
  next => cases h
  next => exact (Except.error.inj h).symm

/-- How a message fares at its handler, whose reply has a ceiling. -/
def Handler.course {τ : Type} (handler : Handler τ) (message : ClientMessage) (limit : Nat) : Course τ :=
  match handler.respond message with
  | .error cause => .failed ⟨handler.tag, message⟩ cause
  | .ok none => .silent ⟨handler.tag, message⟩
  | .ok (some reply) =>
    match reply.excess? limit with
    | none => .answered ⟨handler.tag, message⟩ (reply.packet limit)
    | some size => .unsent ⟨handler.tag, message⟩ reply size limit

namespace Dispatcher

open Telemetry

variable {τ : Type}

/-- Dispatches what is asked for. -/
def handle (d : Dispatcher τ) : Request → DispatchM τ (Option Packet)
  | .packet packet => d.dispatch packet
  | .payload raw bytes => d.dispatchRaw raw bytes

/-- How a decoded message fares. -/
def messageCourse (d : Dispatcher τ) (message : ClientMessage) : Course τ :=
  match d.handler? message.opcode with
  | none => .unhandled
  | some handler => handler.course message d.config.maxPayloadSize

/-- How a packet fares. -/
def course (d : Dispatcher τ) (packet : Packet) : Course τ :=
  match (ClientMessage.decode packet d.config.warnOnTrailingBytes).1 with
  | .ok message => d.messageCourse message
  | .error (.refused cause) => .undecoded cause
  | .error .overrun => .aborted

/-- The packet that a payload makes under a number. -/
def receive (d : Dispatcher τ) (raw : UInt32) (payload : List UInt8) : Except CodecError Packet := do
  let opcode ← ClientOpcode.ofRaw raw
  Packet.inboundWithLimit (.client opcode) payload d.config.maxPayloadSize

/-- What is logged of a packet before its handler is looked up. -/
def arrivalEvents (d : Dispatcher τ) (packet : Packet) : List Event :=
  (if d.config.dumpInbound then [.payloadDump (packet.buffer.dump .hexadecimal)] else []) ++
    (ClientMessage.decode packet d.config.warnOnTrailingBytes).2

theorem call_run (handler : Handler τ) (message : ClientMessage) (t : Telemetry τ) :
    call handler message t =
      match handler.respond message with
      | .ok reply => .ok reply (t.extend id [] [⟨handler.tag, message⟩])
      | .error cause => .error (.refused cause)
          (t.extend Metrics.handlerError [.handlerFailed cause] [⟨handler.tag, message⟩]) := by
  unfold call
  cases handler.respond message with
  | ok reply => rfl
  | error cause => rfl

theorem send_run (d : Dispatcher τ) (reply : ServerMessage) (t : Telemetry τ) :
    d.send reply t =
      match reply.excess? d.config.maxPayloadSize with
      | none => .ok (reply.packet d.config.maxPayloadSize)
          (t.extend (·.sent reply.bytes.length.toUInt64)
            [.packetEncoded (.server reply.opcode) reply.bytes.length] [])
      | some size => .error (.refused (.capacityExceeded size d.config.maxPayloadSize))
          (t.extend (·.codecError (.capacityExceeded size d.config.maxPayloadSize))
            [.replyNotEncoded (.capacityExceeded size d.config.maxPayloadSize) (.server reply.opcode)] []) := by
  unfold send
  rw [reply.encodeWithLimit_eq]
  cases reply.excess? d.config.maxPayloadSize with
  | none =>
    have hsize : (reply.packet d.config.maxPayloadSize).buffer.size = reply.bytes.length :=
      reply.size_packet _
    simp only [extend, List.append_nil, ← hsize]
    rfl
  | some size =>
    simp only [extend, List.append_nil]
    rfl

/-- What is done with a decoded message. -/
def answer (d : Dispatcher τ) (message : ClientMessage) : DispatchM τ (Option Packet) :=
  match d.handler? message.opcode with
  | none => do
    count (·.unhandled)
    throw (.refused .unexpectedMessage)
  | some handler => do
    match ← call handler message with
    | none => return none
    | some reply => return some (← d.send reply)

theorem answer_run (d : Dispatcher τ) (message : ClientMessage) (t : Telemetry τ) :
    d.answer message t = conclude (d.messageCourse message).result
      (t.extend (d.messageCourse message).count (d.messageCourse message).events
        (d.messageCourse message).calls) := by
  unfold answer messageCourse Handler.course
  cases d.handler? message.opcode with
  | none =>
    simp only [extend, Course.calls, List.append_nil]
    rfl
  | some handler =>
    have hcall := call_run handler message t
    simp only [bind, EStateM.bind, hcall]
    cases handler.respond message with
    | error cause => rfl
    | ok reply =>
      cases reply with
      | none => rfl
      | some reply =>
        have hsend := d.send_run reply (t.extend id [] [⟨handler.tag, message⟩])
        show EStateM.bind (d.send reply) (fun packet => pure (some packet))
          (t.extend id [] [⟨handler.tag, message⟩]) = _
        simp only [EStateM.bind, hsend]
        cases reply.excess? d.config.maxPayloadSize with
        | none =>
          simp only [extend, Course.count, Course.events, Course.calls, ServerMessage.size_packet,
            List.append_nil]
          rfl
        | some size =>
          simp only [extend, Course.count, Course.events, Course.calls, List.append_nil]
          rfl

/-- Dumping to the log is the same as recording the dump, which a journal that is
not that verbose does not keep. -/
theorem dump_run (buffer : Buffer) (t : Telemetry τ) :
    EStateM.run ((buffer.dumpTo (t.journal.enabled .trace) .hexadecimal).forM
        fun text => log (.payloadDump text)) t =
      .ok () (t.extend id [.payloadDump (buffer.dump .hexadecimal)] []) := by
  have hrecord : t.journal.recordAll [.payloadDump (buffer.dump .hexadecimal)] =
      if t.journal.enabled .trace then t.journal.record (.payloadDump (buffer.dump .hexadecimal))
      else t.journal := by
    simp only [Journal.recordAll, List.foldl_cons, List.foldl_nil, Journal.record, Event.level]
    split <;> simp_all
  simp only [extend, List.append_nil, hrecord, Buffer.dumpTo]
  split <;> rfl

/-- A packet is counted, dumped and decoded before anything is done with its message. -/
theorem route_eq (d : Dispatcher τ) (packet : Packet) (t : Telemetry τ) :
    d.route packet t =
      let arrived := t.extend (·.received packet.buffer.size.toUInt64) (d.arrivalEvents packet) []
      match (ClientMessage.decode packet d.config.warnOnTrailingBytes).1 with
      | .ok message => d.answer message arrived
      | .error (.refused cause) =>
        .error (.refused cause) (arrived.extend (·.codecError cause) [.packetDropped cause] [])
      | .error .overrun => .error .overrun arrived := by
  unfold route arrivalEvents
  rcases ClientMessage.decode packet d.config.warnOnTrailingBytes with ⟨decoded, events⟩
  cases d.config.dumpInbound with
  | false =>
    simp only [extend, List.append_nil, Bool.false_eq_true, if_false, List.nil_append]
    rcases decoded with (cause | _) | message <;> rfl
  | true =>
    -- The dump looks the journal's level up, behind the packet's own counters.
    have hdump := dump_run packet.buffer
      ⟨t.metrics.received packet.buffer.size.toUInt64, t.journal, t.calls⟩
    show EStateM.run _ t = _
    simp only [EStateM.run_bind, count, EStateM.run_modify, if_true, EStateM.run_get, hdump]
    simp only [extend, List.append_nil, ← Journal.recordAll_recordAll]
    rcases decoded with (cause | _) | message <;> rfl

/-- A dispatch up to its closing record. -/
theorem route_run (d : Dispatcher τ) (packet : Packet) (t : Telemetry τ) :
    d.route packet t = conclude (d.course packet).result
      (t.extend (fun m => (d.course packet).count (m.received packet.buffer.size.toUInt64))
        (d.arrivalEvents packet ++ (d.course packet).events) (d.course packet).calls) := by
  rw [route_eq, course]
  rcases (ClientMessage.decode packet d.config.warnOnTrailingBytes).1 with (cause | _) | message
  · simp only [extend, Journal.recordAll_recordAll, Course.calls, List.append_nil]
    rfl
  · simp only [extend, Course.calls, Course.events, List.append_nil]
    rfl
  · simp only [answer_run, extend, Journal.recordAll_recordAll, List.append_nil]

/-- A dispatch is counted as received, then as what comes of it, and closed with a record. -/
theorem dispatch_run (d : Dispatcher τ) (packet : Packet) (t : Telemetry τ) :
    d.dispatch packet t = conclude (d.course packet).result
      (t.extend (fun m => (d.course packet).count (m.received packet.buffer.size.toUInt64))
        (d.arrivalEvents packet ++ (d.course packet).events ++ [.operationCompleted "dispatch"])
        (d.course packet).calls) := by
  unfold dispatch
  rw [route_run]
  cases (d.course packet).result <;>
    simp only [conclude, extend, ← Journal.recordAll_recordAll] <;> rfl

/-! ## Requests -/

/-- A payload under a number is dispatched as the packet that it makes, if it makes one. -/
theorem dispatchRaw_run (d : Dispatcher τ) (raw : UInt32) (payload : List UInt8) (t : Telemetry τ) :
    d.dispatchRaw raw payload t = match d.receive raw payload with
      | .ok packet => d.dispatch packet t
      | .error cause =>
        .error (.refused cause)
          (t.extend (·.codecError cause) (Course.barred cause : Course τ).events []) := by
  unfold dispatchRaw receive
  cases hop : ClientOpcode.ofRaw raw with
  | error cause =>
    obtain rfl := ClientOpcode.eq_of_ofRaw_error hop
    simp only [extend, List.append_nil]
    rfl
  | ok op =>
    -- The opcode is known: what is left is the payload's size.
    show (orReport
        ((Packet.inboundWithLimit (.client op) payload d.config.maxPayloadSize).mapError .refused)
        (fun cause => count (·.codecError cause)) >>= d.dispatch) t =
      match Packet.inboundWithLimit (.client op) payload d.config.maxPayloadSize with
        | .ok packet => d.dispatch packet t
        | .error cause =>
          .error (.refused cause)
            (t.extend (·.codecError cause) (Course.barred cause : Course τ).events [])
    rw [Packet.inboundWithLimit_eq]
    split
    · simp only [extend, List.append_nil]
      rfl
    · rfl

/-- The packet that a request brings, if it brings one. -/
def packet? (d : Dispatcher τ) : Request → Option Packet
  | .packet packet => some packet
  | .payload raw bytes => (d.receive raw bytes).toOption

/-- How a request fares. -/
def fate (d : Dispatcher τ) : Request → Course τ
  | .packet packet => d.course packet
  | .payload raw bytes =>
    match d.receive raw bytes with
    | .ok packet => d.course packet
    | .error cause => .barred cause

/-- What is counted of a request before anything comes of it. -/
def arrive (d : Dispatcher τ) (r : Request) (m : Metrics) : Metrics :=
  match d.packet? r with
  | some packet => m.received packet.buffer.size.toUInt64
  | none => m

/-- What is logged of a request. -/
def record (d : Dispatcher τ) (r : Request) : List Event :=
  match d.packet? r with
  | some packet => d.arrivalEvents packet ++ (d.fate r).events ++ [.operationCompleted "dispatch"]
  | none => (d.fate r).events

/-- A request takes its course: its packet is counted, if it brings one, then what comes of it. -/
theorem handle_run (d : Dispatcher τ) (r : Request) (t : Telemetry τ) :
    d.handle r t = conclude (d.fate r).result
      (t.extend (fun m => (d.fate r).count (d.arrive r m)) (d.record r) (d.fate r).calls) := by
  cases r with
  | packet packet => exact d.dispatch_run packet t
  | payload raw bytes =>
    simp only [handle, dispatchRaw_run, fate, arrive, record, packet?]
    cases d.receive raw bytes with
    | ok packet => exact d.dispatch_run packet t
    | error cause => rfl

theorem outcome_handle (d : Dispatcher τ) (r : Request) (t : Telemetry τ) :
    outcome (d.handle r t) = (d.fate r).result := by
  rw [handle_run, outcome_conclude]

theorem left_handle (d : Dispatcher τ) (r : Request) (t : Telemetry τ) :
    left (d.handle r t) =
      t.extend (fun m => (d.fate r).count (d.arrive r m)) (d.record r) (d.fate r).calls := by
  rw [handle_run, left_conclude]

end Dispatcher

end PacketWire
