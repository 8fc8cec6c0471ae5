/-
Which failures are reported in the log.

A request that is refused has a warning in the journal that names its cause, but for
two kinds of requests that are passed over: a payload above the ceiling, and a
message without a handler. A journal that keeps warnings gains one with the cause
exactly if the request is neither (`reported_iff`). Of those passed over it says at
most that bytes were left.
-/
import PacketWire.Proofs.Dispatch.Rejection

namespace PacketWire

open Telemetry

/-- The cause of failure that an event names. -/
def Event.cause? : Event → Option CodecError
  | unknownOpcode raw => some (.unknownOpcode raw)
  | packetDropped cause | handlerFailed cause | replyNotEncoded cause _ => some cause
  | _ => none

/-- A warning without a cause is of bytes that were left. -/
theorem Event.eq_trailingData {e : Event} (warning : e.level = .warn) (h : e.cause? = none) :
    ∃ opcode read size trailing, e = .trailingData opcode read size trailing := by
  cases e with
  | trailingData opcode read size trailing => exact ⟨opcode, read, size, trailing, rfl⟩
  | unknownOpcode | packetDropped | handlerFailed | replyNotEncoded => cases h
  | _ => cases warning

/-- The events that a journal has gained. -/
def Journal.since (j earlier : Journal) : List Event := j.events.drop earlier.events.length

theorem Journal.since_recordAll (j : Journal) (es : List Event) :
    (j.recordAll es).since j = es.filter (j.enabled ·.level) := by
  rw [since, events_recordAll, List.drop_left]

/-- Decoding logs what it has read and what is left, never why it failed. -/
theorem Packet.cause?_decodeAs {α : Type} {packet : Packet} {op : Opcode} {schema : BufferM α} {warn : Bool} :
    ∀ e ∈ (packet.decodeAs op schema warn).2, e.cause? = none := by
  intro e he
  unfold decodeAs decodedEvents at he
  split at he
  · split at he
    · split at he <;> simp only [List.mem_append, List.mem_singleton, List.not_mem_nil, false_or] at he
      · rcases he with rfl | rfl <;> rfl
      · rw [he]
        rfl
    · cases he
  · cases he

/-! ## Courses -/

namespace Course

variable {τ : Type}

/-- The request fails on this course, and no event says why. -/
def isUnreported : Course τ → Bool
  | barred (.unknownOpcode _) => false
  | barred _ | unhandled => true
  | _ => false

theorem events_of_isUnreported {course : Course τ} (h : course.isUnreported = true) : course.events = [] := by
  cases course with
  | barred cause => cases cause <;> first | rfl | cases h
  | unhandled => rfl
  | _ => cases h

/-- Any other refusal is reported with its cause. -/
theorem reports_of_not_isUnreported {course : Course τ} {cause : CodecError}
    (refused : course.result = .error (.refused cause)) (h : course.isUnreported = false) :
    ∃ e ∈ course.events, e.level = .warn ∧ e.cause? = some cause := by
  cases course with
  | barred =>
    cases refused
    cases cause with
    | unknownOpcode raw => exact ⟨_, List.mem_singleton_self _, rfl, rfl⟩
    | _ => cases h
  | undecoded | failed | unsent =>
    cases refused
    exact ⟨_, List.mem_singleton_self _, rfl, rfl⟩
  | unhandled => cases h
  | aborted | silent | answered => cases refused

end Course

/-- Once a handler is called, what fails is reported. -/
theorem Handler.isUnreported_course {τ : Type} (handler : Handler τ) (message : ClientMessage) (limit : Nat) :
    (handler.course message limit).isUnreported = false := by
  unfold course
  split
  · rfl
  · rfl
  · split <;> rfl

namespace Dispatcher

variable {τ : Type}

/-- A payload above the ceiling under a known number, or a message without a handler. -/
def PassesOver (d : Dispatcher τ) (r : Request) : Prop :=
  (r.isUnknown = false ∧ r.isOversized d.config.maxPayloadSize = true) ∨
    ∃ message, d.inbound r = .ok message ∧ d.handler? message.opcode = none

theorem isUnreported_messageCourse_iff {d : Dispatcher τ} {message : ClientMessage} :
    (d.messageCourse message).isUnreported = true ↔ d.handler? message.opcode = none := by
  cases hhandler : d.handler? message.opcode with
  | none => exact iff_of_true (by rw [messageCourse_unhandled hhandler]; rfl) rfl
  | some handler =>
    rw [messageCourse_handled hhandler, handler.isUnreported_course]
    exact iff_of_false Bool.false_ne_true (Option.some_ne_none _)

theorem isUnreported_course_iff {d : Dispatcher τ} {packet : Packet} :
    (d.course packet).isUnreported = true ↔
      ∃ message, (ClientMessage.decode packet d.config.warnOnTrailingBytes).1 = .ok message ∧
        d.handler? message.opcode = none := by
  rw [course]
  rcases (ClientMessage.decode packet d.config.warnOnTrailingBytes).1 with (cause | _) | message
  · refine iff_of_false Bool.false_ne_true ?_
    rintro ⟨_, hmessage, -⟩
    cases hmessage
  · refine iff_of_false Bool.false_ne_true ?_
    rintro ⟨_, hmessage, -⟩
    cases hmessage
  · rw [isUnreported_messageCourse_iff]
    constructor
    · exact fun hnone => ⟨message, rfl, hnone⟩
    · rintro ⟨_, hmessage, hnone⟩
      cases hmessage
      exact hnone

/-- The requests that fail unreported are those that are passed over. -/
theorem isUnreported_fate_iff {d : Dispatcher τ} {r : Request} :
    (d.fate r).isUnreported = true ↔ d.PassesOver r := by
  cases r with
  | packet packet =>
    refine isUnreported_course_iff.trans (Iff.symm (or_iff_right ?_))
    exact fun h => Bool.false_ne_true h.2
  | payload raw bytes =>
    cases d.arrival raw bytes with
    | unknown unknown barred =>
      rw [fate_barred barred, PassesOver, inbound, barred, Request.isUnknown_payload_iff.mpr unknown]
      refine iff_of_false Bool.false_ne_true ?_
      rintro (⟨hknown, -⟩ | ⟨_, hmessage, -⟩)
      · cases hknown
      · cases hmessage
    | oversized op known exceeds barred =>
      rw [fate_barred barred]
      exact iff_of_true rfl (.inl ⟨Request.not_isUnknown_payload known, decide_eq_true exceeds⟩)
    | admitted op known fits received =>
      rw [fate_received received, isUnreported_course_iff, PassesOver, inbound, received]
      refine Iff.symm (or_iff_right fun h => ?_)
      exact absurd (of_decide_eq_true h.2) (Nat.not_lt.mpr fits)

instance (d : Dispatcher τ) (r : Request) : Decidable (d.PassesOver r) :=
  decidable_of_iff _ isUnreported_fate_iff

/-! ## What is logged of a request -/

theorem cause?_arrivalEvents {d : Dispatcher τ} {packet : Packet} :
    ∀ e ∈ d.arrivalEvents packet, e.cause? = none := by
  intro e he
  rcases List.mem_append.mp he with hdump | hdecode
  · split at hdump
    · rw [List.mem_singleton.mp hdump]
      rfl
    · cases hdump
  · unfold ClientMessage.decode at hdecode
    split at hdecode
    · exact Packet.cause?_decodeAs e hdecode
    · cases hdecode

/-- What names a cause is logged on the way out. -/
theorem mem_record {d : Dispatcher τ} {r : Request} {e : Event} (h : e ∈ d.record r) :
    e ∈ (d.fate r).events ∨ e.cause? = none := by
  unfold record at h
  split at h
  next packet hpacket =>
    rcases List.mem_append.mp h with hbefore | hclosing
    · rcases List.mem_append.mp hbefore with harrival | hfate
      · exact .inr (cause?_arrivalEvents e harrival)
      · exact .inl hfate
    · rw [List.mem_singleton.mp hclosing]
      exact .inr rfl
  next => exact .inl h

theorem mem_record_of_fate {d : Dispatcher τ} {r : Request} {e : Event} (h : e ∈ (d.fate r).events) :
    e ∈ d.record r := by
  unfold record
  split
  · exact List.mem_append_left _ (List.mem_append_right _ h)
  · exact h

/-- What the journal gains of a request is what it keeps of the request's record. -/
theorem since_handle (d : Dispatcher τ) (r : Request) (t : Telemetry τ) :
    (left (d.handle r t)).journal.since t.journal = (d.record r).filter (t.journal.enabled ·.level) := by
  rw [left_handle]
  exact Journal.since_recordAll _ _

end Dispatcher

/-- Whatever the configuration, the handlers, the request and the telemetry so far: of
a request that is refused, a journal that keeps warnings gains one with the cause
exactly if the request is not passed over. Of one that is passed over it gains no
warning but of bytes that were left. -/
theorem reported_iff {τ : Type} (d : Dispatcher τ) (r : Request) {t : Telemetry τ}
    (warned : t.journal.enabled .warn = true) {cause : CodecError}
    (refused : outcome (d.handle r t) = .error (.refused cause)) :
    let gained := (left (d.handle r t)).journal.since t.journal
    ((∃ e ∈ gained, e.level = .warn ∧ e.cause? = some cause) ↔ ¬ d.PassesOver r) ∧
    (d.PassesOver r → ∀ e ∈ gained, e.level = .warn →
      ∃ opcode read size trailing, e = .trailingData opcode read size trailing) := by
  intro gained
  rw [d.outcome_handle] at refused
  have hgained : ∀ e : Event, e.level = .warn → (e ∈ gained ↔ e ∈ d.record r) := by
    intro e hlevel
    rw [show gained = _ from d.since_handle r t, List.mem_filter, hlevel]
    exact and_iff_left warned
  -- On such a course the record has nothing but what was logged before it was taken.
  have hunreported : d.PassesOver r → ∀ e ∈ gained, e.level = .warn → e.cause? = none := by
    intro hover e he hlevel
    obtain hfate | hnone := Dispatcher.mem_record ((hgained e hlevel).mp he)
    · rw [Course.events_of_isUnreported (Dispatcher.isUnreported_fate_iff.mpr hover)] at hfate
      cases hfate
    · exact hnone
  refine ⟨⟨?reported, ?passed⟩, fun hover e he hlevel => e.eq_trailingData hlevel (hunreported hover e he hlevel)⟩
  case reported =>
    rintro ⟨e, he, hlevel, hcause⟩ hover
    rw [hunreported hover e he hlevel] at hcause
    cases hcause
  case passed =>
    intro hover
    have hloud : (d.fate r).isUnreported = false :=
      Bool.eq_false_iff.mpr fun h => hover (Dispatcher.isUnreported_fate_iff.mp h)
    obtain ⟨e, he, hlevel, hcause⟩ := Course.reports_of_not_isUnreported refused hloud
    exact ⟨e, (hgained e hlevel).mpr (Dispatcher.mem_record_of_fate he), hlevel, hcause⟩

/-- At the desk a number is unknown, a payload is too short, and a map cannot be sent:
each is reported. A payload above the ceiling and a message that nobody takes are not. -/
theorem reported_iff_flightDesk :
    let d := Dispatcher.registered ⟨30, false, true⟩ flightDesk
    let t := Telemetry.opened (some .warn)
    let gained := fun r => (left (d.handle r t)).journal.since t.journal
    (∃ e ∈ gained (.payload 0x2670 []), e.level = .warn ∧ e.cause? = some (.unknownOpcode 0x2670)) ∧
      (∃ e ∈ gained (.payload 0x34A3 (.replicate 22 7)), e.level = .warn ∧
        e.cause? = some (.position 20 22 4)) ∧
      (∃ e ∈ gained (.payload 0x34A2 (.replicate 16 7)), e.level = .warn ∧
        e.cause? = some (.capacityExceeded 37 30)) ∧
      (¬ ∃ e ∈ gained (.payload 0x34A3 (.replicate 31 7)), e.level = .warn ∧
        e.cause? = some (.capacityExceeded 31 30)) ∧
      ¬ ∃ e ∈ gained (.payload 0x34A1 (.replicate 16 7)), e.level = .warn ∧
        e.cause? = some .unexpectedMessage := by
  intro d t gained
  have hwarned : t.journal.enabled .warn = true := rfl
  have hreported : ∀ r cause, outcome (d.handle r t) = .error (.refused cause) →
      ((∃ e ∈ gained r, e.level = .warn ∧ e.cause? = some cause) ↔ ¬ d.PassesOver r) :=
    fun r _ refused => (reported_iff d r hwarned refused).1
  refine ⟨?_, ?_, ?_, ?_, ?_⟩
  · exact (hreported (.payload 0x2670 []) _ (by decide)).mpr (by decide)
  · exact (hreported (.payload 0x34A3 (.replicate 22 7)) _ (by decide)).mpr (by decide)
  · exact (hreported (.payload 0x34A2 (.replicate 16 7)) _ (by decide)).mpr (by decide)
  · exact fun h => (hreported (.payload 0x34A3 (.replicate 31 7)) _ (by decide)).mp h (by decide)
  · exact fun h => (hreported (.payload 0x34A1 (.replicate 16 7)) _ (by decide)).mp h (by decide)

/-- Where nobody is at the desk, a payload above the ceiling is refused and so is one
within it, and a journal that keeps warnings has no event of either. -/
theorem unreported_refusals_emptyDesk :
    let d : Dispatcher Unit := .withConfig ⟨64, false, true⟩
    let large := d.handle (.payload 0x34A2 (.replicate 65 7)) (.opened (some .warn))
    let unhandled := d.handle (.payload 0x34A2 (.replicate 16 7)) (.opened (some .warn))
    outcome large = .error (.refused (.capacityExceeded 65 64)) ∧ (left large).journal.events = [] ∧
      outcome unhandled = .error (.refused .unexpectedMessage) ∧
      (left unhandled).journal.events = [] := by
  decide

end PacketWire
