/-
Diagnostics do not interfere with the work.

Whether payloads are dumped, whether bytes that are left are warned of, and which
levels are kept: none of it is seen in the results, in the calls to handlers or in
the counters. One request keeps two runs together that differ in these alone
(`Dispatcher.SameService.handle`), and so does a list of turns
(`Dispatcher.SameService.serve`). What is logged does not depend on what is kept of
it, so that a less verbose journal is a more verbose one without the events that
are not enabled (`Dispatcher.events_serve`).
-/
import PacketWire.Proofs.Dispatch.Session

namespace PacketWire

open Telemetry

/-! ## Two runs -/

/-- Two dispatchers with one ceiling and the same handlers, whose diagnostics may differ. -/
structure Dispatcher.SameService {τ : Type} (d d' : Dispatcher τ) : Prop where
  ceiling : d'.config.maxPayloadSize = d.config.maxPayloadSize
  handlers : d'.handlers = d.handlers

/-- The same was counted and the same handlers were called, whatever the journals say. -/
structure Telemetry.SameWork {τ : Type} (t t' : Telemetry τ) : Prop where
  metrics : t'.metrics = t.metrics
  calls : t'.calls = t.calls

/-- The warning does not affect what is decoded. -/
theorem ClientMessage.decode_indifferent (p : Packet) (warn warn' : Bool) :
    (decode p warn').1 = (decode p warn).1 := by
  obtain ⟨opcode, b⟩ := p
  cases opcode with
  | client op => rw [decode_client, decode_client]
  | server op => rfl

namespace Dispatcher.SameService

variable {τ : Type} {d d' : Dispatcher τ}

theorem register (h : d.SameService d') (opcode : ClientOpcode) (handler : Handler τ) :
    (d.register opcode handler).SameService (d'.register opcode handler) where
  ceiling := h.ceiling
  handlers := congrArg ((opcode, handler) :: ·) h.handlers

theorem messageCourse_eq (h : d.SameService d') (message : ClientMessage) :
    d'.messageCourse message = d.messageCourse message := by
  rw [messageCourse, messageCourse, handler?, handler?, h.handlers, h.ceiling]

theorem course_eq (h : d.SameService d') (packet : Packet) : d'.course packet = d.course packet := by
  rw [course, course, ClientMessage.decode_indifferent packet d.config.warnOnTrailingBytes]
  rcases (ClientMessage.decode packet d.config.warnOnTrailingBytes).1 with (cause | _) | message
  · rfl
  · rfl
  · exact h.messageCourse_eq message

theorem receive_eq (h : d.SameService d') (raw : UInt32) (bytes : List UInt8) :
    d'.receive raw bytes = d.receive raw bytes := by
  rw [receive, receive, h.ceiling]

theorem fate_eq (h : d.SameService d') (r : Request) : d'.fate r = d.fate r := by
  cases r with
  | packet packet => exact h.course_eq packet
  | payload raw bytes =>
    rw [fate, fate, h.receive_eq]
    cases d.receive raw bytes with
    | ok packet => exact h.course_eq packet
    | error cause => rfl

theorem arrive_eq (h : d.SameService d') (r : Request) : d'.arrive r = d.arrive r := by
  funext m
  cases r with
  | packet packet => rfl
  | payload raw bytes => rw [arrive, arrive, packet?, packet?, h.receive_eq]

/-- A request has one result at both dispatchers, and leaves them with the same work done. -/
theorem handle (h : d.SameService d') {t t' : Telemetry τ} (same : t.SameWork t') (r : Request) :
    outcome (d'.handle r t') = outcome (d.handle r t) ∧
      (left (d.handle r t)).SameWork (left (d'.handle r t')) := by
  refine ⟨by rw [outcome_handle, outcome_handle, h.fate_eq], ?_⟩
  rw [left_handle, left_handle, h.fate_eq, h.arrive_eq]
  exact ⟨congrArg (fun m => (d.fate r).count (d.arrive r m)) same.metrics,
    congrArg (· ++ (d.fate r).calls) same.calls⟩

/-- So has each request of a list of turns, registrations between them included. -/
theorem serve (h : d.SameService d') {t t' : Telemetry τ} (same : t.SameWork t') (turns : List (Turn τ)) :
    (d'.serve t' turns).1.map (fun e => (e.request, e.result)) =
        (d.serve t turns).1.map (fun e => (e.request, e.result)) ∧
      (d.serve t turns).2.SameWork (d'.serve t' turns).2 := by
  induction turns generalizing d d' t t' with
  | nil => exact ⟨rfl, same⟩
  | cons turn turns ih =>
    cases turn with
    | register opcode handler => exact ih (h.register opcode handler) same
    | request r =>
      obtain ⟨houtcome, hleft⟩ := h.handle same r
      obtain ⟨hlater, hsame⟩ := ih h hleft
      refine ⟨?_, hsame⟩
      simp only [Dispatcher.serve, List.map_cons, houtcome, hlater]

end Dispatcher.SameService

/-! ## What is kept of a run -/

namespace Dispatcher

variable {τ : Type}

/-- What is logged over a list of turns, be it kept or not. -/
def recorded (d : Dispatcher τ) : List (Turn τ) → List Event
  | [] => []
  | .register opcode handler :: turns => recorded (d.register opcode handler) turns
  | .request r :: turns => d.record r ++ recorded d turns

theorem journal_serve (d : Dispatcher τ) (t : Telemetry τ) (turns : List (Turn τ)) :
    (d.serve t turns).2.journal = t.journal.recordAll (d.recorded turns) := by
  induction turns generalizing d t with
  | nil => rfl
  | cons turn turns ih =>
    cases turn with
    | register opcode handler => exact ih _ t
    | request r =>
      rw [serve, ih, left_handle, recorded, ← Journal.recordAll_recordAll]
      rfl

/-- Of what is logged a journal keeps the events whose level is enabled. -/
theorem events_serve (d : Dispatcher τ) (t : Telemetry τ) (turns : List (Turn τ)) :
    (d.serve t turns).2.journal.events =
      t.journal.events ++ (d.recorded turns).filter (t.journal.enabled ·.level) := by
  rw [journal_serve, Journal.events_recordAll]

end Dispatcher

/-- Every level is enabled at the most verbose one. -/
theorem Journal.enabled_trace (l : Level) : (Journal.opened (some .trace)).enabled l = true := by
  cases l <;> rfl

/-- Whatever the diagnostics of two dispatchers with one ceiling and the same handlers,
and the levels that are kept: after every turn of a list the requests made have the
same results, the same handlers were called with the same messages, and the counters
are the same. What the journal keeps are, in their order, the events that it would
keep at the most verbose level and whose level is enabled. -/
theorem diagnostics_do_not_interfere {τ : Type} {d watched : Dispatcher τ} (same : d.SameService watched)
    (t : Telemetry τ) (kept keptWatched : Option Level) (turns : List (Turn τ)) (n : Nat) :
    let started := fun verbosity => { t with journal := .opened verbosity }
    let run := d.serve (started kept) (turns.take n)
    let watchedRun := watched.serve (started keptWatched) (turns.take n)
    watchedRun.1.map (fun e => (e.request, e.result)) = run.1.map (fun e => (e.request, e.result)) ∧
    watchedRun.2.calls = run.2.calls ∧
    watchedRun.2.metrics = run.2.metrics ∧
    run.2.journal.events =
      (d.serve (started (some .trace)) (turns.take n)).2.journal.events.filter
        (fun e => kept.any (·.enables e.level)) := by
  intro started run watchedRun
  have hstarted : (started kept).SameWork (started keptWatched) := ⟨rfl, rfl⟩
  obtain ⟨hresults, hwork⟩ := same.serve hstarted (turns.take n)
  refine ⟨hresults, hwork.calls, hwork.metrics, ?_⟩
  have hall : (d.serve (started (some .trace)) (turns.take n)).2.journal.events =
      d.recorded (turns.take n) := by
    rw [d.events_serve]
    exact List.filter_eq_self.mpr fun e _ => Journal.enabled_trace e.level
  rw [d.events_serve, hall]
  rfl

/-- The hours of the desk, with nothing kept, and with dumps, warnings and all levels:
eighteen events tell the two runs apart. -/
theorem diagnostics_do_not_interfere_deskHours :
    let turns := deskHours.filterMap Action.turn?
    let unwatched := (Dispatcher.withConfig ⟨30, false, false⟩).serve (.opened none) turns
    let watched := (Dispatcher.withConfig ⟨30, true, true⟩).serve (.opened (some .trace)) turns
    watched.1.map (fun e => (e.request, e.result)) = unwatched.1.map (fun e => (e.request, e.result)) ∧
      watched.2.calls = unwatched.2.calls ∧ watched.2.metrics = unwatched.2.metrics ∧
      unwatched.2.journal.events = [] ∧ watched.2.journal.events.length = 18 := by
  intro turns unwatched watched
  have hsame : (Dispatcher.withConfig ⟨30, false, false⟩ : Dispatcher Nat).SameService
      (.withConfig ⟨30, true, true⟩) := ⟨rfl, rfl⟩
  obtain ⟨hresults, hcalls, hmetrics, hevents⟩ :=
    diagnostics_do_not_interfere hsame (.opened none) none (some .trace) turns turns.length
  rw [List.take_length] at hresults hcalls hmetrics hevents
  refine ⟨hresults, hcalls, hmetrics, ?_, by decide⟩
  exact hevents.trans (List.filter_eq_nil_iff.mpr fun e _ => Bool.false_ne_true)

end PacketWire
