/-
What a request adds to each counter.

The counters are taken one by one: `gain` says how much of its course goes to
each, and `value_handle` that the counters grow by it and by nothing else. Of
the six counters of errors a refused request raises exactly one, unless it
brings a packet of the server's own, which no counter of errors is for
(`counted_once_iff`).
-/
import PacketWire.Proofs.Counters
import PacketWire.Proofs.Dispatch.Routing

namespace PacketWire

open Buffer

/-! ## Packets -/

namespace Counter

/-- What the counter gains from a packet that comes in. -/
def ofReceived (packet : Packet) : Counter → Nat
  | packetsReceived => 1
  | bytesReceived => packet.buffer.size
  | _ => 0

/-- What the counter gains from a packet that goes out. -/
def ofSent (packet : Packet) : Counter → Nat
  | packetsSent => 1
  | bytesSent => packet.buffer.size
  | _ => 0

theorem value_received (c : Counter) (m : Metrics) (packet : Packet) :
    c.value (m.received packet.buffer.size.toUInt64) = c.value m + .ofNat (c.ofReceived packet) := by
  cases c <;> simp [value, Metrics.received, ofReceived]

theorem value_sent (c : Counter) (m : Metrics) (packet : Packet) :
    c.value (m.sent packet.buffer.size.toUInt64) = c.value m + .ofNat (c.ofSent packet) := by
  cases c <;> simp [value, Metrics.sent, ofSent]

end Counter

/-! ## Gains -/

namespace Course

variable {τ : Type}

/-- The counter of failures that is raised. -/
def error? : Course τ → Option Counter
  | barred cause | undecoded cause => cause.counter?
  | unhandled => some .unhandledOpcodes
  | failed .. => some .handlerErrors
  | unsent .. => some .capacityErrors
  | aborted | silent _ | answered .. => none

/-- The packet that is sent. -/
def sent? : Course τ → Option Packet
  | answered _ packet => some packet
  | _ => none

/-- What a counter gains on the way out. -/
def gain (course : Course τ) (c : Counter) : Nat :=
  c.ofError course.error? + course.sent?.elim 0 c.ofSent

theorem isError_of_error? {course : Course τ} {c : Counter} (h : course.error? = some c) : c.isError := by
  cases course with
  | barred cause | undecoded cause => cases cause <;> cases h <;> rfl
  | _ => cases h <;> rfl

theorem value_count (course : Course τ) (m : Metrics) (c : Counter) :
    c.value (course.count m) = c.value m + .ofNat (course.gain c) := by
  cases course with
  | barred cause | undecoded cause => exact c.value_codecError m cause
  | unhandled => exact c.value_unhandled m
  | failed => exact c.value_handlerError m
  | unsent call reply size limit => exact c.value_codecError m (.capacityExceeded size limit)
  | answered call packet =>
    have hgain : (answered call packet).gain c = c.ofSent packet := Nat.zero_add _
    rw [hgain]
    exact c.value_sent m packet
  | aborted | silent => exact (UInt64.add_zero _).symm

end Course

namespace Dispatcher

open Telemetry

variable {τ : Type}

/-- What a counter gains from a request. -/
def gain (d : Dispatcher τ) (r : Request) (c : Counter) : Nat :=
  (d.packet? r).elim 0 c.ofReceived + (d.fate r).gain c

theorem value_arrive (d : Dispatcher τ) (r : Request) (m : Metrics) (c : Counter) :
    c.value (d.arrive r m) = c.value m + .ofNat ((d.packet? r).elim 0 c.ofReceived) := by
  unfold arrive
  cases d.packet? r with
  | none => exact (UInt64.add_zero _).symm
  | some packet => exact c.value_received m packet

/-- A request adds its gain to each counter. -/
theorem value_handle (d : Dispatcher τ) (r : Request) (t : Telemetry τ) (c : Counter) :
    c.value (left (d.handle r t)).metrics = c.value t.metrics + .ofNat (d.gain r c) := by
  have hmetrics : (left (d.handle r t)).metrics = (d.fate r).count (d.arrive r t.metrics) := by
    rw [left_handle]
    rfl
  rw [hmetrics, Course.value_count, value_arrive, gain, UInt64.ofNat_add, UInt64.add_assoc]

end Dispatcher

/-! ## Which failures are counted -/

/-- Reading ends with a value, aborts, or is refused for a position. -/
theorem Ends.error_eq {α : Type} {failure : Failure} {b' : Buffer} : ∀ {widths : List Nat}
    {value : List UInt8 → α} {b : Buffer}, Ends value widths b (.error failure b') →
      failure = .overrun ∨ ∃ pos size width, failure = .refused (.position pos size width)
  | [], _, _, h => nomatch h
  | width :: widths, value, b, h => by
    rw [Ends] at h
    split at h
    · obtain ⟨_, heq⟩ := h
      cases heq
      exact .inr ⟨_, _, _, rfl⟩
    · split at h
      · obtain ⟨_, heq⟩ := h
        cases heq
        exact .inl rfl
      · exact h.error_eq

/-- A client's packet that does not decode, from whatever place in it, is refused
for a position or aborts. -/
theorem ClientMessage.decode_error {op : ClientOpcode} {b : Buffer} {warn : Bool} {failure : Failure}
    (h : (decode ⟨.client op, b⟩ warn).1 = .error failure) :
    failure = .overrun ∨ ∃ pos size width, failure = .refused (.position pos size width) := by
  rw [decode_client] at h
  split at h
  next => cases h
  next failure' b' hread =>
    cases h
    have hmessage : (Message.read (.client op)).run b = .error failure b' := run_map_error.mpr hread
    -- Only the server's map has a bit to read, so the next bit does not matter here.
    have hclient : Opcode.client op ≠ .server .showTaxiNodes := nofun
    have hends := Message.read_reads false hclient b
    rw [hmessage] at hends
    exact hends.error_eq

namespace Course

variable {τ : Type}

/-- If a request is refused on this course, it is counted as a failure. -/
def CountsRefusal (course : Course τ) : Prop :=
  ∀ cause, course.result = .error (.refused cause) → ∃ c : Counter, course.error? = some c ∧ c.isError

theorem error?_of_ok {course : Course τ} {reply : Option Packet} (h : course.result = .ok reply) :
    course.error? = none := by
  cases course <;> first | rfl | cases h

end Course

theorem Handler.countsRefusal {τ : Type} (handler : Handler τ) (message : ClientMessage) (limit : Nat) :
    (handler.course message limit).CountsRefusal := by
  unfold course
  split
  · exact fun _ _ => ⟨.handlerErrors, rfl, rfl⟩
  · exact fun _ h => nomatch h
  · split
    · exact fun _ h => nomatch h
    · exact fun _ _ => ⟨.capacityErrors, rfl, rfl⟩

/-- The request is a packet under one of the server's own opcodes. -/
def Request.Misdirected : Request → Prop
  | .packet p => p.opcode.direction = .serverToClient
  | .payload .. => False

namespace Dispatcher

variable {τ : Type}

theorem messageCourse_countsRefusal (d : Dispatcher τ) (message : ClientMessage) :
    (d.messageCourse message).CountsRefusal := by
  unfold messageCourse
  split
  · exact fun _ _ => ⟨.unhandledOpcodes, rfl, rfl⟩
  · exact Handler.countsRefusal _ _ _

theorem course_countsRefusal (d : Dispatcher τ) (op : ClientOpcode) (b : Buffer) :
    (d.course ⟨.client op, b⟩).CountsRefusal := by
  unfold course
  split
  · exact d.messageCourse_countsRefusal _
  next cause hdecode =>
    obtain hoverrun | ⟨pos, size, width, hcause⟩ := ClientMessage.decode_error hdecode
    · cases hoverrun
    · cases hcause
      exact fun _ _ => ⟨.positionErrors, rfl, rfl⟩
  · exact fun _ h => nomatch h

theorem fate_countsRefusal (d : Dispatcher τ) {r : Request} (h : ¬ r.Misdirected) :
    (d.fate r).CountsRefusal := by
  cases r with
  | packet packet =>
    obtain ⟨opcode, b⟩ := packet
    cases opcode with
    | client op => exact d.course_countsRefusal op b
    | server op =>
      have hserver : (Request.packet ⟨.server op, b⟩).Misdirected := rfl
      exact absurd hserver h
  | payload raw bytes =>
    cases d.arrival raw bytes with
    | unknown unknown barred =>
      rw [fate_barred barred]
      exact fun _ _ => ⟨.unknownOpcodes, rfl, rfl⟩
    | oversized op known exceeds barred =>
      rw [fate_barred barred]
      exact fun _ _ => ⟨.capacityErrors, rfl, rfl⟩
    | admitted op known fits received =>
      rw [fate_received received]
      exact d.course_countsRefusal op _

theorem fate_of_misdirected (d : Dispatcher τ) {r : Request} (h : r.Misdirected) :
    d.fate r = .undecoded .unexpectedMessage := by
  cases r with
  | packet packet =>
    obtain ⟨opcode, b⟩ := packet
    cases opcode with
    | client op => cases h
    | server op => rfl
  | payload raw bytes => exact h.elim

/-- A counter of failures gains from the failure alone. -/
theorem gain_of_isError (d : Dispatcher τ) (r : Request) {c : Counter} (h : c.isError) :
    d.gain r c = c.ofError (d.fate r).error? := by
  have hreceived : (d.packet? r).elim 0 c.ofReceived = 0 := by
    cases d.packet? r <;> cases c <;> first | rfl | cases h
  have hsent : (d.fate r).sent?.elim 0 c.ofSent = 0 := by
    cases (d.fate r).sent? <;> cases c <;> first | rfl | cases h
  rw [gain, Course.gain, hreceived, hsent, Nat.zero_add, Nat.add_zero]

/-- Any other counter gains from the packets alone, coming in and going out. -/
theorem gain_of_not_isError (d : Dispatcher τ) (r : Request) {c : Counter} (h : ¬ c.isError) :
    d.gain r c = (d.packet? r).elim 0 c.ofReceived + (d.fate r).sent?.elim 0 c.ofSent := by
  have herror : c.ofError (d.fate r).error? = 0 := if_neg fun hsome => h (Course.isError_of_error? hsome)
  rw [gain, Course.gain, herror, Nat.zero_add]

end Dispatcher

namespace Metrics

/-- No counter of failures was raised. -/
def SameErrors (before after : Metrics) : Prop :=
  ∀ c : Counter, c.isError → c.value after = c.value before

/-- One counter of failures was raised, by one, and no other. -/
def OneError (before after : Metrics) : Prop :=
  ∃ c : Counter, c.isError ∧ c.value after = c.value before + 1 ∧
    ∀ other : Counter, other.isError → other ≠ c → other.value after = other.value before

theorem SameErrors.not_oneError {before after : Metrics} (h : SameErrors before after) :
    ¬ OneError before after := by
  rintro ⟨c, hc, hraised, -⟩
  rw [h c hc] at hraised
  have hone : (1 : UInt64) = 0 := by simpa using hraised.symm
  exact absurd hone (by decide)

end Metrics

open Telemetry in
theorem Dispatcher.sameErrors_of_none {τ : Type} {d : Dispatcher τ} {r : Request}
    (h : (d.fate r).error? = none) (t : Telemetry τ) :
    t.metrics.SameErrors (left (d.handle r t)).metrics := by
  intro c hc
  rw [d.value_handle, d.gain_of_isError r hc, h]
  exact UInt64.add_zero _

open Telemetry in
theorem Dispatcher.oneError_of_some {τ : Type} {d : Dispatcher τ} {r : Request} {c : Counter}
    (hc : c.isError) (h : (d.fate r).error? = some c) (t : Telemetry τ) :
    t.metrics.OneError (left (d.handle r t)).metrics := by
  refine ⟨c, hc, ?_, ?_⟩
  · rw [d.value_handle, d.gain_of_isError r hc, h, Counter.ofError, if_pos rfl]
    rfl
  · intro other hother hne
    rw [d.value_handle, d.gain_of_isError r hother, h, Counter.ofError, if_neg]
    · exact UInt64.add_zero _
    · intro heq
      exact hne (Option.some.inj heq).symm

open Telemetry in
/-- Whatever the configuration, the handlers, the request and the counters so far:
a request with a result raises no counter of failures. One that is refused raises
exactly one of them, by one, exactly if it is not a packet under one of the
server's own opcodes, and for such a packet none is raised. -/
theorem counted_once_iff {τ : Type} (d : Dispatcher τ) (r : Request) (t : Telemetry τ) :
    let ending := d.handle r t
    (∀ reply, outcome ending = .ok reply → t.metrics.SameErrors (left ending).metrics) ∧
    ∀ cause, outcome ending = .error (.refused cause) →
      (t.metrics.OneError (left ending).metrics ↔ ¬ r.Misdirected) ∧
      (r.Misdirected → t.metrics.SameErrors (left ending).metrics) := by
  intro ending
  have houtcome : outcome ending = (d.fate r).result := by
    rw [show ending = _ from d.handle_run r t, outcome_conclude]
  rw [houtcome]
  have hmisdirected : r.Misdirected → t.metrics.SameErrors (left ending).metrics := by
    intro h
    exact Dispatcher.sameErrors_of_none (by rw [d.fate_of_misdirected h]; rfl) t
  refine ⟨?ok, ?refused⟩
  case ok =>
    intro reply hok
    exact Dispatcher.sameErrors_of_none (Course.error?_of_ok hok) t
  case refused =>
    intro cause hrefused
    refine ⟨⟨fun hone h => (hmisdirected h).not_oneError hone, fun h => ?_⟩, hmisdirected⟩
    obtain ⟨c, herror, hc⟩ := d.fate_countsRefusal h cause hrefused
    exact Dispatcher.oneError_of_some hc herror t

/-- An empty packet under one of the server's own opcodes. -/
def strayPacket : Request := .packet ⟨.server .taxiNodeStatus, received []⟩

open Telemetry in
/-- At the desk a flight is answered, a number is unknown, and a packet of the
server's own is refused. -/
theorem counted_once_iff_flightDesk :
    let d := Dispatcher.registered ⟨30, false, true⟩ flightDesk
    let t := Telemetry.opened none
    t.metrics.SameErrors (left (d.handle (.payload 0x34A3 (.replicate 28 7)) t)).metrics ∧
      t.metrics.OneError (left (d.handle (.payload 0x2670 []) t)).metrics ∧
      t.metrics.SameErrors (left (d.handle strayPacket t)).metrics := by
  intro d t
  have hcounted := fun r => counted_once_iff d r t
  refine ⟨?_, ?_, ?_⟩
  · exact (hcounted (.payload 0x34A3 (.replicate 28 7))).1 _ rfl
  · exact ((hcounted (.payload 0x2670 [])).2 (.unknownOpcode 0x2670) rfl).1.mpr id
  · exact ((hcounted strayPacket).2 .unexpectedMessage rfl).2 rfl

open Telemetry in
/-- A stray packet is refused, and no counter of failures says so. -/
theorem not_oneError_strayPacket :
    let ending := (Dispatcher.withConfig .default : Dispatcher Unit).handle strayPacket (.opened none)
    outcome ending = .error (.refused .unexpectedMessage) ∧
      (left ending).metrics = ⟨1, 0, 0, 0, 0, 0, 0, 0, 0, 0⟩ ∧
      ¬ Metrics.zero.OneError (left ending).metrics := by
  refine ⟨rfl, rfl, ?_⟩
  exact (Dispatcher.sameErrors_of_none (d := .withConfig .default) (r := strayPacket) rfl _).not_oneError

end PacketWire
