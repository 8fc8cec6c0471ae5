/-
What the counters say after a session.

A session is a list of actions on one dispatcher: handlers are registered,
payloads come under numbers, and packets are dispatched that were received. Its
`Exchange`s are the requests that were made, each with the dispatcher as it was
and with the result. Each request belongs to one `Reckoning`, which says what it
adds to the counters; over a session these sum up to `session_balanced`. Where
packets are dispatched that were not received as they are, but read from or made
by hand, it is `serve` that says what takes place, and a session is one case of it.
-/
import Mathlib.Algebra.Order.BigOperators.Group.List
import Mathlib.Algebra.Order.Ring.Nat
import PacketWire.Proofs.Dispatch.Counting

namespace PacketWire

open Telemetry

/-! ## Sessions -/

/-- What is done with a dispatcher. -/
inductive Action (τ : Type)
  | register (opcode : ClientOpcode) (handler : Handler τ)
  /-- A payload is dispatched under a number. -/
  | payload (raw : UInt32) (bytes : List UInt8)
  /-- A payload is received as a packet, and the packet is dispatched if it makes one. -/
  | packet (opcode : Opcode) (bytes : List UInt8)

/-- What a dispatcher is made to do next: to know a handler, or to dispatch
whatever there is. A handler whose replies change is one that is registered anew. -/
inductive Turn (τ : Type)
  | register (opcode : ClientOpcode) (handler : Handler τ)
  | request (r : Request)

/-- A request, the dispatcher that it was made to, and the result. -/
structure Exchange (τ : Type) where
  dispatcher : Dispatcher τ
  request : Request
  result : Except Failure (Option Packet)

namespace Action

variable {τ : Type}

/-- The request that is made with an action. -/
def request? : Action τ → Option Request
  | register .. => none
  | payload raw bytes => some (.payload raw bytes)
  | packet opcode bytes => (Packet.inbound opcode bytes).toOption.map .packet

/-- The dispatcher behind an action. -/
def next (d : Dispatcher τ) : Action τ → Dispatcher τ
  | register opcode handler => d.register opcode handler
  | _ => d

/-- The turn that is taken with an action. -/
def turn? : Action τ → Option (Turn τ)
  | register opcode handler => some (.register opcode handler)
  | payload raw bytes => some (.request (.payload raw bytes))
  | packet opcode bytes => (Packet.inbound opcode bytes).toOption.map fun p => .request (.packet p)

end Action

namespace Dispatcher

variable {τ : Type}

/-- The requests of a session, and the telemetry that it leaves. -/
def session (d : Dispatcher τ) (t : Telemetry τ) :
    List (Action τ) → List (Exchange τ) × Telemetry τ
  | [] => ([], t)
  | action :: actions =>
    match action.request? with
    | none => session (action.next d) t actions
    | some r =>
      let ending := d.handle r t
      let later := session d (left ending) actions
      (⟨d, r, outcome ending⟩ :: later.1, later.2)

/-- The requests of a list of turns, and the telemetry that it leaves. -/
def serve (d : Dispatcher τ) (t : Telemetry τ) : List (Turn τ) → List (Exchange τ) × Telemetry τ
  | [] => ([], t)
  | .register opcode handler :: turns => serve (d.register opcode handler) t turns
  | .request r :: turns =>
    let ending := d.handle r t
    let later := serve d (left ending) turns
    (⟨d, r, outcome ending⟩ :: later.1, later.2)

/-- The reply that a request's handler makes. -/
def reply? (d : Dispatcher τ) (r : Request) : Option ServerMessage := do
  let packet ← d.packet? r
  let message ← (ClientMessage.decode packet d.config.warnOnTrailingBytes).1.toOption
  let handler ← d.handler? message.opcode
  (handler.respond message).toOption.join

/-- The reply cannot be encoded. -/
def failsToEncode (d : Dispatcher τ) (r : Request) : Bool :=
  (d.reply? r).any fun reply => !(reply.encodeWithLimit d.config.maxPayloadSize).1.isOk

end Dispatcher

namespace Request

/-- The bytes that come in. -/
def bytes : Request → List UInt8
  | packet p => p.buffer.contents
  | payload _ bytes => bytes

/-- A payload comes under a number of no client opcode. -/
def isUnknown : Request → Bool
  | packet _ => false
  | payload raw _ => !ClientOpcode.all.any (·.raw = raw)

theorem isUnknown_payload_iff {raw : UInt32} {bytes : List UInt8} :
    (payload raw bytes).isUnknown = true ↔ ∀ op : ClientOpcode, op.raw ≠ raw := by
  have hall : ∀ op : ClientOpcode, op ∈ ClientOpcode.all := by
    intro op
    cases op <;> decide
  simp [isUnknown, hall]

theorem not_isUnknown_payload {raw : UInt32} {bytes : List UInt8} {op : ClientOpcode} (known : op.raw = raw) :
    (payload raw bytes).isUnknown = false :=
  Bool.eq_false_iff.mpr fun h => isUnknown_payload_iff.mp h op known

/-- A payload has more bytes than the ceiling admits. -/
def isOversized (limit : Nat) : Request → Bool
  | packet _ => false
  | payload _ bytes => limit < bytes.length

/-- The request is a packet, or makes one. -/
def isAdmitted (limit : Nat) (r : Request) : Bool := !r.isUnknown && !r.isOversized limit

instance (r : Request) : Decidable r.Misdirected :=
  match r with
  | .packet p => inferInstanceAs (Decidable (p.opcode.direction = .serverToClient))
  | .payload .. => .isFalse id

/-- What the request brings has not been read from. -/
def IsFresh : Request → Prop
  | packet p => ∃ opcode bytes limit, p = .fresh opcode bytes limit
  | payload .. => True

end Request

namespace Exchange

variable {τ : Type}

/-- The packet that is sent. -/
def sent? (e : Exchange τ) : Option Packet := e.result.toOption.join

/-- The bytes that come in. -/
def bytesIn (limit : Nat) (e : Exchange τ) : Nat :=
  if e.request.isAdmitted limit then e.request.bytes.length else 0

/-- The bytes that go out. -/
def bytesOut (e : Exchange τ) : Nat := e.sent?.elim 0 (·.buffer.contents.length)

/-- The handler's reply cannot be encoded. -/
def isUnsent (e : Exchange τ) : Bool := e.dispatcher.failsToEncode e.request

/-- What a counter gains. -/
def gain (e : Exchange τ) (c : Counter) : Nat := e.dispatcher.gain e.request c

/-- An exchange as it takes place in a session under a ceiling. -/
structure Genuine (limit : Nat) (e : Exchange τ) : Prop where
  ceiling : e.dispatcher.config.maxPayloadSize = limit
  result : e.result = (e.dispatcher.fate e.request).result
  fresh : e.request.IsFresh

end Exchange

theorem Packet.inbound_fresh {opcode : Opcode} {bytes : List UInt8} {packet : Packet}
    (h : Packet.inbound opcode bytes = .ok packet) : packet = .fresh opcode bytes maxPayloadSize := by
  rw [inbound, inboundWithLimit_eq] at h
  split at h
  · cases h
  · exact (Except.ok.inj h).symm

namespace Action

variable {τ : Type}

theorem isFresh_of_request? {action : Action τ} {r : Request} (h : action.request? = some r) : r.IsFresh := by
  cases action with
  | register => cases h
  | payload =>
    cases h
    trivial
  | packet opcode bytes =>
    simp only [request?] at h
    cases hpacket : Packet.inbound opcode bytes with
    | error cause =>
      rw [hpacket] at h
      cases h
    | ok packet =>
      rw [hpacket] at h
      cases h
      exact ⟨opcode, bytes, _, Packet.inbound_fresh hpacket⟩

theorem config_next (d : Dispatcher τ) (action : Action τ) : (action.next d).config = d.config := by
  cases action <;> rfl

end Action

namespace Dispatcher

variable {τ : Type}

theorem session_genuine {d : Dispatcher τ} {t : Telemetry τ} {actions : List (Action τ)} :
    ∀ e ∈ (d.session t actions).1, e.Genuine d.config.maxPayloadSize := by
  induction actions generalizing d t with
  | nil => exact fun _ h => nomatch h
  | cons action actions ih =>
    intro e he
    rw [session] at he
    split at he
    next =>
      have hgenuine := ih e he
      rwa [Action.config_next] at hgenuine
    next r hrequest =>
      rcases List.mem_cons.mp he with rfl | hlater
      · exact ⟨rfl, d.outcome_handle r t, Action.isFresh_of_request? hrequest⟩
      · exact ih e hlater

/-- Over a list of turns each counter gains what it gains from each request. -/
theorem value_serve (c : Counter) (d : Dispatcher τ) (t : Telemetry τ) (turns : List (Turn τ)) :
    c.value (d.serve t turns).2.metrics =
      c.value t.metrics + .ofNat ((d.serve t turns).1.map (·.gain c)).sum := by
  induction turns generalizing d t with
  | nil => exact (UInt64.add_zero _).symm
  | cons turn turns ih =>
    cases turn with
    | register opcode handler => exact ih _ t
    | request r =>
      rw [serve, ih, value_handle, List.map_cons, List.sum_cons, UInt64.ofNat_add, UInt64.add_assoc]
      rfl

/-- A session is the list of its turns. -/
theorem session_eq_serve (d : Dispatcher τ) (t : Telemetry τ) (actions : List (Action τ)) :
    d.session t actions = d.serve t (actions.filterMap Action.turn?) := by
  induction actions generalizing d t with
  | nil => rfl
  | cons action actions ih =>
    rw [session, List.filterMap_cons]
    cases action with
    | register opcode handler => exact ih _ t
    | payload raw bytes => simp only [Action.request?, Action.turn?, serve, ih]
    | packet opcode bytes =>
      simp only [Action.request?, Action.turn?]
      cases Packet.inbound opcode bytes with
      | error cause => exact ih d t
      | ok packet => simp only [Except.toOption, Option.map_some, serve, ih]

theorem value_session (c : Counter) (d : Dispatcher τ) (t : Telemetry τ) (actions : List (Action τ)) :
    c.value (d.session t actions).2.metrics =
      c.value t.metrics + .ofNat ((d.session t actions).1.map (·.gain c)).sum := by
  rw [session_eq_serve]
  exact value_serve c d t _

end Dispatcher

/-! ## What a request comes to -/

namespace Course

variable {τ : Type}

/-- The handler's reply is not sent. -/
def isUnsent : Course τ → Bool
  | unsent .. => true
  | _ => false

/-- What becomes of a client's packet of which nothing was read. -/
inductive IsTaken : Course τ → Prop
  | short (pos size width : Nat) : IsTaken (.undecoded (.position pos size width))
  | unhandled : IsTaken .unhandled
  | failed (call : Call τ) (cause : CodecError) : IsTaken (.failed call cause)
  | unsent (call : Call τ) (reply : ServerMessage) (size limit : Nat) :
    IsTaken (.unsent call reply size limit)
  | silent (call : Call τ) : IsTaken (.silent call)
  | answered (call : Call τ) (packet : Packet) : IsTaken (.answered call packet)

end Course

namespace Dispatcher

variable {τ : Type}

theorem messageCourse_isTaken (d : Dispatcher τ) (message : ClientMessage) :
    (d.messageCourse message).IsTaken := by
  unfold messageCourse
  split
  · exact .unhandled
  · unfold Handler.course
    split
    · exact .failed _ _
    · exact .silent _
    · split
      · exact .answered _ _
      · exact .unsent _ _ _ _

theorem course_fresh_isTaken (d : Dispatcher τ) (op : ClientOpcode) (bytes : List UInt8) (limit : Nat) :
    (d.course (.fresh (.client op) bytes limit)).IsTaken := by
  rcases Nat.lt_or_ge bytes.length (Message.length bytes (.client op)) with hshort | hlen
  · obtain ⟨before, width, after, -, -, -, hcourse⟩ := course_fresh_short hshort d limit
    rw [hcourse]
    exact .short _ _ _
  · rw [course_fresh hlen]
    exact d.messageCourse_isTaken _

theorem isUnsent_course (handler : Handler τ) (message : ClientMessage) (limit : Nat) :
    (handler.course message limit).isUnsent =
      (handler.respond message).toOption.join.any fun reply => !(reply.encodeWithLimit limit).1.isOk := by
  unfold Handler.course
  rcases handler.respond message with cause | _ | reply
  · rfl
  · rfl
  · simp only [Except.toOption, Option.join_some, Option.any_some, reply.encodeWithLimit_eq]
    cases reply.excess? limit <;> rfl

/-- A reply that cannot be encoded is one that is not sent. -/
theorem failsToEncode_eq (d : Dispatcher τ) (r : Request) : d.failsToEncode r = (d.fate r).isUnsent := by
  have hcourse : ∀ packet : Packet, d.packet? r = some packet → d.fate r = d.course packet →
      d.failsToEncode r = (d.fate r).isUnsent := by
    intro packet hpacket hfate
    rw [hfate, failsToEncode, reply?, hpacket, course]
    simp only [bind, Option.bind_some]
    rcases (ClientMessage.decode packet d.config.warnOnTrailingBytes).1 with (cause | _) | message
    · rfl
    · rfl
    · simp only [Except.toOption, Option.bind_some, messageCourse]
      cases d.handler? message.opcode with
      | none => rfl
      | some handler => exact (isUnsent_course handler message _).symm
  cases r with
  | packet p => exact hcourse p rfl rfl
  | payload raw bytes =>
    cases hreceive : d.receive raw bytes with
    | error cause =>
      simp only [failsToEncode, reply?, packet?, fate, hreceive]
      rfl
    | ok packet => exact hcourse packet (by rw [packet?, hreceive]; rfl) (by rw [fate, hreceive])

/-- What a request comes to under a ceiling. -/
inductive Reckoning (d : Dispatcher τ) (limit : Nat) (r : Request) : Prop
  | unknown (raw : UInt32) (unknown : r.isUnknown = true) (directed : ¬ r.Misdirected)
    (barred : d.packet? r = none) (fate : d.fate r = .barred (.unknownOpcode raw))
  | oversized (size : Nat) (known : r.isUnknown = false) (oversized : r.isOversized limit = true)
    (directed : ¬ r.Misdirected) (barred : d.packet? r = none)
    (fate : d.fate r = .barred (.capacityExceeded size limit))
  | stray (packet : Packet) (known : r.isUnknown = false) (fits : r.isOversized limit = false)
    (misdirected : r.Misdirected) (admitted : d.packet? r = some packet)
    (bytes : packet.buffer.contents = r.bytes) (fate : d.fate r = .undecoded .unexpectedMessage)
  | taken (packet : Packet) (known : r.isUnknown = false) (fits : r.isOversized limit = false)
    (directed : ¬ r.Misdirected) (admitted : d.packet? r = some packet)
    (bytes : packet.buffer.contents = r.bytes) (fate : (d.fate r).IsTaken)

theorem reckoning (d : Dispatcher τ) {r : Request} (fresh : r.IsFresh) :
    d.Reckoning d.config.maxPayloadSize r := by
  cases r with
  | packet p =>
    obtain ⟨opcode, bytes, limit, rfl⟩ := fresh
    cases opcode with
    | client op => exact .taken _ rfl rfl nofun rfl rfl (d.course_fresh_isTaken op bytes limit)
    | server op => exact .stray _ rfl rfl rfl rfl rfl rfl
  | payload raw bytes =>
    cases d.arrival raw bytes with
    | unknown unknown barred =>
      refine .unknown raw (Request.isUnknown_payload_iff.mpr unknown) id ?_ (fate_barred barred)
      rw [packet?, barred]
      rfl
    | oversized op known exceeds barred =>
      refine .oversized bytes.length (Request.not_isUnknown_payload known) (decide_eq_true exceeds) id ?_
        (fate_barred barred)
      rw [packet?, barred]
      rfl
    | admitted op known fits received =>
      refine .taken (.fresh (.client op) bytes d.config.maxPayloadSize)
        (Request.not_isUnknown_payload known) (decide_eq_false (Nat.not_lt.mpr fits)) id ?_ rfl ?_
      · rw [packet?, received]
        rfl
      · rw [fate_received received]
        exact d.course_fresh_isTaken op bytes _

end Dispatcher

/-! ## What an exchange adds -/

namespace Course

variable {τ : Type}

theorem sent?_eq (course : Course τ) : course.sent? = course.result.toOption.join := by
  cases course <;> rfl

theorem IsTaken.unknownOpcodes {course : Course τ} (h : course.IsTaken) :
    Counter.unknownOpcodes.ofError course.error? = 0 := by
  cases h <;> rfl

theorem IsTaken.capacityErrors {course : Course τ} (h : course.IsTaken) :
    Counter.capacityErrors.ofError course.error? = course.isUnsent.toNat := by
  cases h <;> rfl

theorem IsTaken.invalidValueErrors {course : Course τ} (h : course.IsTaken) :
    Counter.invalidValueErrors.ofError course.error? = 0 := by
  cases h <;> rfl

/-- What is taken ends with a result, or as one of these failures. -/
theorem IsTaken.balance {course : Course τ} (h : course.IsTaken) :
    course.result.isOk.toNat + Counter.positionErrors.ofError course.error? +
      Counter.unhandledOpcodes.ofError course.error? + Counter.handlerErrors.ofError course.error? +
      course.isUnsent.toNat = 1 := by
  cases h <;> rfl

end Course

namespace Exchange

variable {τ : Type}

theorem gain_error (e : Exchange τ) {c : Counter} (hc : c.isError) :
    e.gain c = c.ofError (e.dispatcher.fate e.request).error? :=
  e.dispatcher.gain_of_isError e.request hc

theorem isUnsent_eq (e : Exchange τ) : e.isUnsent = (e.dispatcher.fate e.request).isUnsent :=
  e.dispatcher.failsToEncode_eq e.request

namespace Genuine

variable {limit : Nat} {e : Exchange τ}

theorem reckoning (h : e.Genuine limit) : e.dispatcher.Reckoning limit e.request :=
  h.ceiling ▸ e.dispatcher.reckoning h.fresh

/-- A packet comes in exactly if the request is admitted. -/
theorem admission (h : e.Genuine limit) :
    (e.dispatcher.packet? e.request = none ∧ e.request.isAdmitted limit = false) ∨
      ∃ packet, e.dispatcher.packet? e.request = some packet ∧ e.request.isAdmitted limit = true ∧
        packet.buffer.contents = e.request.bytes := by
  cases h.reckoning with
  | unknown raw unknown directed barred fate =>
    refine .inl ⟨barred, ?_⟩
    rw [Request.isAdmitted, unknown]
    rfl
  | oversized size known oversized directed barred fate =>
    refine .inl ⟨barred, ?_⟩
    rw [Request.isAdmitted, known, oversized]
    rfl
  | stray packet known fits misdirected admitted bytes fate
  | taken packet known fits directed admitted bytes fate =>
    refine .inr ⟨packet, admitted, ?_, bytes⟩
    rw [Request.isAdmitted, known, fits]
    rfl

theorem sent?_eq (h : e.Genuine limit) : (e.dispatcher.fate e.request).sent? = e.sent? := by
  rw [Course.sent?_eq, ← h.result, sent?]

theorem gain_packetsReceived (h : e.Genuine limit) :
    e.gain .packetsReceived = (e.request.isAdmitted limit).toNat := by
  rw [gain, Dispatcher.gain_of_not_isError _ _ (by decide), h.sent?_eq]
  obtain ⟨hnone, hadmitted⟩ | ⟨packet, hsome, hadmitted, -⟩ := h.admission
  · rw [hnone, hadmitted]
    cases e.sent? <;> rfl
  · rw [hsome, hadmitted]
    cases e.sent? <;> rfl

theorem gain_bytesReceived (h : e.Genuine limit) : e.gain .bytesReceived = e.bytesIn limit := by
  rw [gain, Dispatcher.gain_of_not_isError _ _ (by decide), h.sent?_eq, bytesIn]
  obtain ⟨hnone, hadmitted⟩ | ⟨packet, hsome, hadmitted, hbytes⟩ := h.admission
  · rw [hnone, hadmitted]
    cases e.sent? <;> rfl
  · rw [hsome, hadmitted, ← hbytes]
    cases e.sent? <;> rfl

theorem gain_packetsSent (h : e.Genuine limit) : e.gain .packetsSent = e.sent?.isSome.toNat := by
  rw [gain, Dispatcher.gain_of_not_isError _ _ (by decide), h.sent?_eq]
  cases e.dispatcher.packet? e.request <;> cases e.sent? <;> rfl

theorem gain_bytesSent (h : e.Genuine limit) : e.gain .bytesSent = e.bytesOut := by
  rw [gain, Dispatcher.gain_of_not_isError _ _ (by decide), h.sent?_eq, bytesOut]
  cases e.dispatcher.packet? e.request <;> cases e.sent? <;> first | rfl | exact Nat.zero_add _

theorem gain_unknownOpcodes (h : e.Genuine limit) : e.gain .unknownOpcodes = e.request.isUnknown.toNat := by
  rw [gain_error e rfl]
  cases h.reckoning with
  | unknown raw unknown directed barred fate =>
    rw [fate, unknown]
    rfl
  | oversized size known oversized directed barred fate =>
    rw [fate, known]
    rfl
  | stray packet known fits misdirected admitted bytes fate =>
    rw [fate, known]
    rfl
  | taken packet known fits directed admitted bytes fate =>
    rw [fate.unknownOpcodes, known]
    rfl

theorem gain_capacityErrors (h : e.Genuine limit) : e.gain .capacityErrors =
    (!e.request.isUnknown && e.request.isOversized limit).toNat + e.isUnsent.toNat := by
  rw [gain_error e rfl, isUnsent_eq]
  cases h.reckoning with
  | unknown raw unknown directed barred fate =>
    rw [fate, unknown]
    rfl
  | oversized size known oversized directed barred fate =>
    rw [fate, known, oversized]
    rfl
  | stray packet known fits misdirected admitted bytes fate =>
    rw [fate, known, fits]
    rfl
  | taken packet known fits directed admitted bytes fate =>
    rw [fate.capacityErrors, known, fits]
    exact (Nat.zero_add _).symm

theorem gain_invalidValueErrors (h : e.Genuine limit) : e.gain .invalidValueErrors = 0 := by
  rw [gain_error e rfl]
  cases h.reckoning with
  | unknown raw unknown directed barred fate => rw [fate]; rfl
  | oversized size known oversized directed barred fate => rw [fate]; rfl
  | stray packet known fits misdirected admitted bytes fate => rw [fate]; rfl
  | taken packet known fits directed admitted bytes fate => exact fate.invalidValueErrors

/-- What comes in is answered, or left as one of the failures behind the ceiling. -/
theorem balance (h : e.Genuine limit) : e.gain .packetsReceived =
    e.result.isOk.toNat + e.gain .positionErrors + e.gain .unhandledOpcodes + e.gain .handlerErrors +
      e.isUnsent.toNat + (decide e.request.Misdirected).toNat := by
  rw [h.gain_packetsReceived, h.result, isUnsent_eq, gain_error e rfl, gain_error e rfl, gain_error e rfl]
  cases h.reckoning with
  | unknown raw unknown directed barred fate =>
    rw [fate, Request.isAdmitted, unknown, decide_eq_false directed]
    rfl
  | oversized size known oversized directed barred fate =>
    rw [fate, Request.isAdmitted, known, oversized, decide_eq_false directed]
    rfl
  | stray packet known fits misdirected admitted bytes fate =>
    rw [fate, Request.isAdmitted, known, fits, decide_eq_true misdirected]
    rfl
  | taken packet known fits directed admitted bytes fate =>
    rw [fate.balance, Request.isAdmitted, known, fits, decide_eq_false directed]
    rfl

end Genuine

/-- No more than one is added, but for bytes. -/
theorem Genuine.gain_le_one {limit : Nat} {e : Exchange τ} (h : e.Genuine limit) {c : Counter}
    (hin : c ≠ .bytesReceived) (hout : c ≠ .bytesSent) : e.gain c ≤ 1 := by
  by_cases herror : c.isError
  · rw [gain_error e herror]
    exact c.ofError_le_one _
  · cases c with
    | packetsReceived =>
      rw [h.gain_packetsReceived]
      exact Bool.toNat_le _
    | packetsSent =>
      rw [h.gain_packetsSent]
      exact Bool.toNat_le _
    | bytesReceived => exact absurd rfl hin
    | bytesSent => exact absurd rfl hout
    | _ => exact absurd rfl herror

end Exchange

/-! ## What a session adds -/

namespace Dispatcher

variable {τ : Type}

/-- From cleared counters on, a counter is the sum of its gains, while that is a 64-bit word. -/
theorem toNat_value_session {t : Telemetry τ} (cleared : t.metrics = .zero) (c : Counter) (d : Dispatcher τ)
    {actions : List (Action τ)} (h : ((d.session t actions).1.map (·.gain c)).sum < 2 ^ 64) :
    (c.value (d.session t actions).2.metrics).toNat = ((d.session t actions).1.map (·.gain c)).sum := by
  have hzero : c.value Metrics.zero = 0 := by cases c <;> rfl
  rw [value_session, cleared, hzero, UInt64.zero_add, UInt64.toNat_ofNat_of_lt' h]

end Dispatcher

/-- A session of fewer than 2 ^ 64 requests and bytes on a dispatcher with cleared
counters. What came in are the packets and the payloads that were admitted, with
their bytes, and what was sent are the packets of the results. Unknown numbers are
counted as such, known ones with too large a payload under the ceiling, together
with the replies that it kept from being encoded, and no read finds an invalid
value. All that came in is answered, or counted as a failure, or was a packet of
the server's own. -/
theorem session_balanced {τ : Type} (d : Dispatcher τ) {t : Telemetry τ} (cleared : t.metrics = .zero)
    (actions : List (Action τ)) :
    let exchanges := (d.session t actions).1
    let m := (d.session t actions).2.metrics
    let limit := d.config.maxPayloadSize
    exchanges.length < 2 ^ 64 → (exchanges.map (·.bytesIn limit)).sum < 2 ^ 64 →
    (exchanges.map (·.bytesOut)).sum < 2 ^ 64 →
    m.packetsReceived.toNat = exchanges.countP (·.request.isAdmitted limit) ∧
    m.bytesReceived.toNat = (exchanges.map (·.bytesIn limit)).sum ∧
    m.packetsSent.toNat = exchanges.countP (·.sent?.isSome) ∧
    m.bytesSent.toNat = (exchanges.map (·.bytesOut)).sum ∧
    m.unknownOpcodes.toNat = exchanges.countP (·.request.isUnknown) ∧
    m.capacityErrors.toNat =
      exchanges.countP (fun e => !e.request.isUnknown && e.request.isOversized limit) +
        exchanges.countP (·.isUnsent) ∧
    m.invalidValueErrors = 0 ∧
    m.packetsReceived.toNat =
      exchanges.countP (·.result.isOk) + m.positionErrors.toNat + m.unhandledOpcodes.toNat +
        m.handlerErrors.toNat + exchanges.countP (·.isUnsent) +
        exchanges.countP (decide ·.request.Misdirected) := by
  intro exchanges m limit hlength hin hout
  have hgenuine : ∀ e ∈ exchanges, e.Genuine limit := Dispatcher.session_genuine
  have hvalue : ∀ (c : Counter) {f : Exchange τ → Nat}, (∀ e ∈ exchanges, e.gain c = f e) →
      (exchanges.map f).sum < 2 ^ 64 → (c.value m).toNat = (exchanges.map f).sum := by
    intro c f hgain hlt
    rw [← List.map_congr_left hgain] at hlt ⊢
    exact Dispatcher.toNat_value_session cleared c d hlt
  -- A counter of events gains one at most from a request, and there are fewer than 2 ^ 64.
  have hunit : ∀ (c : Counter) {f : Exchange τ → Nat}, c ≠ .bytesReceived → c ≠ .bytesSent →
      (∀ e ∈ exchanges, e.gain c = f e) → (c.value m).toNat = (exchanges.map f).sum := by
    intro c f hcin hcout hgain
    refine hvalue c hgain (lt_of_le_of_lt ?_ hlength)
    have hle := List.sum_le_card_nsmul (exchanges.map f) 1 (by
      intro n hn
      obtain ⟨e, he, rfl⟩ := List.mem_map.mp hn
      rw [← hgain e he]
      exact (hgenuine e he).gain_le_one hcin hcout)
    simpa using hle
  have hreceived := hunit .packetsReceived (by decide) (by decide)
    fun e he => (hgenuine e he).gain_packetsReceived
  have hpackets := hunit .packetsSent (by decide) (by decide) fun e he => (hgenuine e he).gain_packetsSent
  have hunknown := hunit .unknownOpcodes (by decide) (by decide)
    fun e he => (hgenuine e he).gain_unknownOpcodes
  have hcapacity := hunit .capacityErrors (by decide) (by decide)
    fun e he => (hgenuine e he).gain_capacityErrors
  have hinvalid := hunit .invalidValueErrors (by decide) (by decide)
    fun e he => (hgenuine e he).gain_invalidValueErrors
  -- The received packets once more, now by what became of them.
  have hbalance := hunit .packetsReceived (by decide) (by decide) fun e he => (hgenuine e he).balance
  have hposition := hunit .positionErrors (by decide) (by decide) fun _ _ => rfl
  have hunhandled := hunit .unhandledOpcodes (by decide) (by decide) fun _ _ => rfl
  have hhandler := hunit .handlerErrors (by decide) (by decide) fun _ _ => rfl
  simp only [List.sum_map_add, sum_map_toNat] at hreceived hpackets hunknown hcapacity hbalance
  rw [← hposition, ← hunhandled, ← hhandler] at hbalance
  refine ⟨hreceived, ?_, hpackets, ?_, hunknown, hcapacity, ?_, hbalance⟩
  · exact hvalue .bytesReceived (fun e he => (hgenuine e he).gain_bytesReceived) hin
  · exact hvalue .bytesSent (fun e he => (hgenuine e he).gain_bytesSent) hout
  · have hzero : (exchanges.map fun _ => 0).sum = 0 := by simp
    rw [hzero] at hinvalid
    exact UInt64.toNat.inj hinvalid

/-- The desk is opened, and a request of every kind is made. -/
def deskHours : List (Action Nat) :=
  flightDesk.map (fun entry => .register entry.1 entry.2) ++
    [.payload 0x2670 [], .payload 0x34A3 (.replicate 31 7), .payload 0x34A3 (.replicate 22 7),
      .packet (.client .enableTaxiNode) (.replicate 16 7), .payload 0x34A3 (.replicate 28 7),
      .payload 0x34A2 (.replicate 16 7), .packet (.server .taxiNodeStatus) []]

/-- Five packets come in: one is answered, and one is left for each of the other reasons. -/
theorem session_balanced_deskHours :
    let d : Dispatcher Nat := .withConfig ⟨30, false, true⟩
    let m := (d.session (.opened none) deskHours).2.metrics
    m.packetsReceived.toNat = 5 ∧ m.bytesReceived.toNat = 82 ∧ m.packetsSent.toNat = 1 ∧
      m.bytesSent.toNat = 1 ∧ m.unknownOpcodes.toNat = 1 ∧ m.capacityErrors.toNat = 1 + 1 ∧
      m.invalidValueErrors = 0 ∧
      5 = 1 + m.positionErrors.toNat + m.unhandledOpcodes.toNat + m.handlerErrors.toNat + 1 + 1 := by
  intro d m
  have hbalanced := session_balanced d (t := .opened none) rfl deskHours (by decide) (by decide) (by decide)
  obtain ⟨hreceived, hin, hsent, hout, hunknown, hcapacity, hinvalid, hbalance⟩ := hbalanced
  have hfive := hreceived.trans (by decide : _ = 5)
  rw [hfive] at hbalance
  exact ⟨hfive, hin.trans (by decide), hsent.trans (by decide), hout.trans (by decide),
    hunknown.trans (by decide), hcapacity.trans (by decide), hinvalid, hbalance.trans (by decide)⟩

/-- A payload that is too large, but comes under an unknown number, is not counted
under the ceiling. -/
theorem capacityErrors_ne_oversized :
    let d : Dispatcher Nat := .withConfig ⟨64, false, true⟩
    let session := d.session (.opened none) [.payload 0x2670 (.replicate 65 7)]
    session.2.metrics.capacityErrors.toNat ≠
      session.1.countP (·.request.isOversized 64) + session.1.countP (·.isUnsent) := by
  decide

end PacketWire
