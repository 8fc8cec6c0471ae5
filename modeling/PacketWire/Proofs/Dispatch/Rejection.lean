/-
What the total of malformed packets counts.

Each request adds one to the total at most: if what it brings is refused before a
handler is looked up, or if the reply to it is kept from being encoded
(`Exchange.malformed_gain`). The ceiling's counter does not tell the two apart, so
that the total is that of the rejected requests exactly if every reply was sent
(`malformedTotal_eq_rejected_iff`), as it is under a configuration without problems.
-/
import PacketWire.Proofs.Dispatch.Delivery
import PacketWire.Proofs.Dispatch.Session

namespace PacketWire

open Telemetry

/-! ## Requests that are rejected -/

namespace Dispatcher

variable {τ : Type}

/-- The message that a request brings, for which no handler has been looked up yet. -/
def inbound (d : Dispatcher τ) : Request → Except Failure ClientMessage
  | .packet p => (ClientMessage.decode p d.config.warnOnTrailingBytes).1
  | .payload raw bytes =>
    match d.receive raw bytes with
    | .ok p => (ClientMessage.decode p d.config.warnOnTrailingBytes).1
    | .error cause => .error (.refused cause)

end Dispatcher

/-- The failure is a refusal of malformed input. -/
def Failure.isMalformed : Failure → Bool
  | refused cause => cause.isMalformedInput
  | overrun => false

/-- What the request brings is refused as malformed, before a handler is looked up. -/
def Exchange.isRejected {τ : Type} (e : Exchange τ) : Bool :=
  match e.dispatcher.inbound e.request with
  | .ok _ => false
  | .error failure => failure.isMalformed

namespace Course

variable {τ : Type}

/-- The request is refused as malformed. -/
def isRejected : Course τ → Bool
  | barred cause | undecoded cause => cause.isMalformedInput
  | _ => false

end Course

namespace Dispatcher

variable {τ : Type}

/-- A request fares as the message does that it brings, and else as refused. -/
inductive Entry (d : Dispatcher τ) (r : Request) : Prop
  | message (message : ClientMessage) (inbound : d.inbound r = .ok message)
    (fate : d.fate r = d.messageCourse message)
  | refused (cause : CodecError) (inbound : d.inbound r = .error (.refused cause))
    (fate : d.fate r = .barred cause ∨ d.fate r = .undecoded cause)
  | aborted (inbound : d.inbound r = .error .overrun) (fate : d.fate r = .aborted)

theorem entry (d : Dispatcher τ) (r : Request) : d.Entry r := by
  have hpacket : ∀ p : Packet, d.inbound r = (ClientMessage.decode p d.config.warnOnTrailingBytes).1 →
      d.fate r = d.course p → d.Entry r := by
    intro p hinbound hfate
    rw [course] at hfate
    cases hdecode : (ClientMessage.decode p d.config.warnOnTrailingBytes).1 with
    | ok message => exact .message message (hinbound.trans hdecode) (by rw [hfate, hdecode])
    | error failure =>
      cases failure with
      | refused cause => exact .refused cause (hinbound.trans hdecode) (.inr (by rw [hfate, hdecode]))
      | overrun => exact .aborted (hinbound.trans hdecode) (by rw [hfate, hdecode])
  cases r with
  | packet p => exact hpacket p rfl rfl
  | payload raw bytes =>
    cases hreceive : d.receive raw bytes with
    | ok p => exact hpacket p (by simp only [inbound, hreceive]) (by simp only [fate, hreceive])
    | error cause =>
      exact .refused cause (by simp only [inbound, hreceive]) (.inl (by simp only [fate, hreceive]))

theorem isRejected_messageCourse (d : Dispatcher τ) (message : ClientMessage) :
    (d.messageCourse message).isRejected = false := by
  unfold messageCourse
  split
  · rfl
  · unfold Handler.course
    split
    · rfl
    · rfl
    · split <;> rfl

end Dispatcher

/-! ## What a request adds to the total -/

/-- What is counted as malformed was rejected, or is a reply that is not sent, never both. -/
theorem Course.isMalformed_error? {τ : Type} (course : Course τ) :
    (course.error?.any Counter.isMalformed).toNat = course.isRejected.toNat + course.isUnsent.toNat := by
  cases course with
  | barred cause | undecoded cause => exact congrArg Bool.toNat cause.isMalformed_counter?
  | _ => rfl

namespace Exchange

variable {τ : Type}

theorem isRejected_eq (e : Exchange τ) : e.isRejected = (e.dispatcher.fate e.request).isRejected := by
  unfold isRejected
  cases e.dispatcher.entry e.request with
  | message message inbound fate => rw [inbound, fate, e.dispatcher.isRejected_messageCourse]
  | refused cause inbound fate =>
    rw [inbound]
    obtain hfate | hfate := fate <;> rw [hfate] <;> rfl
  | aborted inbound fate =>
    rw [inbound, fate]
    rfl

theorem malformed_gain (e : Exchange τ) :
    e.gain .positionErrors + e.gain .invalidValueErrors + e.gain .capacityErrors +
      e.gain .unknownOpcodes = e.isRejected.toNat + e.isUnsent.toNat := by
  rw [gain_error e rfl, gain_error e rfl, gain_error e rfl, gain_error e rfl, Counter.sum_ofError,
    Course.isMalformed_error?, isRejected_eq, isUnsent_eq]

/-- No more than one is added to the total. -/
theorem malformed_gain_le_one (e : Exchange τ) : e.isRejected.toNat + e.isUnsent.toNat ≤ 1 := by
  rw [isRejected_eq, isUnsent_eq, ← Course.isMalformed_error?]
  exact Bool.toNat_le _

end Exchange

/-! ## The total after a run -/

namespace Dispatcher

variable {τ : Type}

theorem config_serve {d : Dispatcher τ} {t : Telemetry τ} {turns : List (Turn τ)} :
    ∀ e ∈ (d.serve t turns).1, e.dispatcher.config = d.config := by
  induction turns generalizing d t with
  | nil => exact fun _ h => nomatch h
  | cons turn turns ih =>
    intro e he
    cases turn with
    | register opcode handler => exact ih (d := d.register opcode handler) e he
    | request r =>
      rcases List.mem_cons.mp he with rfl | hlater
      · rfl
      · exact ih e hlater

/-- The total is the sum of what each request adds to it. -/
theorem malformedTotal_serve (d : Dispatcher τ) (t : Telemetry τ) (turns : List (Turn τ)) :
    (d.serve t turns).2.metrics.malformedTotal = t.metrics.malformedTotal +
      .ofNat ((d.serve t turns).1.countP (·.isRejected) + (d.serve t turns).1.countP (·.isUnsent)) := by
  have hsum : ((d.serve t turns).1.map (·.gain .positionErrors)).sum +
      ((d.serve t turns).1.map (·.gain .invalidValueErrors)).sum +
      ((d.serve t turns).1.map (·.gain .capacityErrors)).sum +
      ((d.serve t turns).1.map (·.gain .unknownOpcodes)).sum =
        (d.serve t turns).1.countP (·.isRejected) + (d.serve t turns).1.countP (·.isUnsent) := by
    simp only [← sum_map_toNat, ← List.sum_map_add, Exchange.malformed_gain]
  rw [Metrics.malformedTotal_of_gain fun c => value_serve c d t turns, hsum]

/-- Under a configuration without problems every reply is sent. -/
theorem isUnsent_serve {d : Dispatcher τ} (sound : d.config.problems = []) {t : Telemetry τ}
    {turns : List (Turn τ)} : ∀ e ∈ (d.serve t turns).1, e.isUnsent = false := by
  intro e he
  have hsound : e.dispatcher.config.problems = [] := by rwa [config_serve e he]
  rw [Exchange.isUnsent, failsToEncode, Option.any_eq_false]
  intro reply _
  obtain ⟨packet, hencode, -⟩ := ServerMessage.encodeWithLimit_of_le (CodecConfig.admits hsound reply)
  rw [hencode]
  rfl

end Dispatcher

/-- Whatever the configuration, the handlers registered between the requests, and the
requests: on a dispatcher with cleared counters the total is the number of requests
that were rejected and of replies that were not encoded. It is that of the rejected
ones alone exactly if every reply was encoded, for fewer than 2 ^ 64 requests, and so
it always is under a configuration without problems. -/
theorem malformedTotal_eq_rejected_iff {τ : Type} (config : CodecConfig) {t : Telemetry τ}
    (cleared : t.metrics = .zero) (turns : List (Turn τ)) :
    let exchanges := ((Dispatcher.withConfig config).serve t turns).1
    let total := ((Dispatcher.withConfig config).serve t turns).2.metrics.malformedTotal
    total = .ofNat (exchanges.countP (·.isRejected) + exchanges.countP (·.isUnsent)) ∧
    (exchanges.length < 2 ^ 64 →
      (total.toNat = exchanges.countP (·.isRejected) ↔ ∀ e ∈ exchanges, ¬ e.isUnsent)) ∧
    (config.problems = [] → total = .ofNat (exchanges.countP (·.isRejected))) := by
  intro exchanges total
  have htotal : total = .ofNat (exchanges.countP (·.isRejected) + exchanges.countP (·.isUnsent)) := by
    have hserve := (Dispatcher.withConfig config).malformedTotal_serve t turns
    rw [cleared] at hserve
    exact hserve.trans (UInt64.zero_add _)
  refine ⟨htotal, fun hlength => ?_, fun hsound => ?_⟩
  · -- Each request adds one at most, so that the sum does not wrap.
    have hle : exchanges.countP (·.isRejected) + exchanges.countP (·.isUnsent) ≤ exchanges.length := by
      have hcard := List.sum_le_card_nsmul (exchanges.map fun e => e.isRejected.toNat + e.isUnsent.toNat) 1
        (by simpa using fun e _ => e.malformed_gain_le_one)
      simpa [List.sum_map_add, sum_map_toNat] using hcard
    rw [htotal, UInt64.toNat_ofNat_of_lt' (lt_of_le_of_lt hle hlength), Nat.add_eq_left,
      List.countP_eq_zero]
  · have hnone : exchanges.countP (·.isUnsent) = 0 := by
      rw [List.countP_eq_zero]
      intro e he
      rw [Dispatcher.isUnsent_serve hsound e he]
      decide
    rw [htotal, hnone, Nat.add_zero]

/-- In the hours of the desk three requests are rejected, and its map is not sent.
Under a ceiling of 64 bytes it is, and two requests are rejected still. -/
theorem malformedTotal_eq_rejected_iff_deskHours :
    let turns := deskHours.filterMap Action.turn?
    let narrow := (Dispatcher.withConfig ⟨30, false, true⟩).serve (.opened none) turns
    let wide := (Dispatcher.withConfig ⟨64, false, true⟩).serve (.opened none) turns
    narrow.2.metrics.malformedTotal = .ofNat (3 + 1) ∧
      narrow.2.metrics.malformedTotal.toNat ≠ narrow.1.countP (·.isRejected) ∧
      wide.2.metrics.malformedTotal = .ofNat 2 := by
  intro turns narrow wide
  obtain ⟨htotal, hiff, -⟩ :=
    malformedTotal_eq_rejected_iff ⟨30, false, true⟩ (t := .opened none) rfl turns
  obtain ⟨-, -, hsound⟩ :=
    malformedTotal_eq_rejected_iff ⟨64, false, true⟩ (t := .opened none) rfl turns
  refine ⟨htotal, fun heq => ?_, hsound (by decide)⟩
  exact absurd ((hiff (by decide)).mp heq) (by decide)

/-- Where a map is asked for under a ceiling of 16 bytes, nothing that comes in is
rejected, and the total is one. -/
theorem malformedTotal_ne_rejected_narrowDesk :
    let turns := (flightDesk.map fun entry => Turn.register entry.1 entry.2) ++
      [.request (.payload 0x34A2 (.replicate 16 7))]
    let run := (Dispatcher.withConfig ⟨16, false, true⟩).serve (.opened none) turns
    run.1.countP (·.isRejected) = 0 ∧ run.2.metrics.malformedTotal.toNat = 1 := by
  decide

end PacketWire
