/-
A sound configuration loses no reply.

What a handler replies is kept from its client by the ceiling alone. The longest
message has thirty-seven bytes, and no ceiling under sixty-four is accepted
(`CodecConfig.problems_eq_nil_iff`), so that under an accepted one every reply is
sent, whole (`reply_delivered`).
-/
import PacketWire.Proofs.Dispatch.Routing

namespace PacketWire

open Telemetry

/-- A configuration has no problems exactly if its ceiling is one of those accepted. -/
theorem CodecConfig.problems_eq_nil_iff {c : CodecConfig} :
    c.problems = [] ↔ minPayloadSize ≤ c.maxPayloadSize ∧ c.maxPayloadSize ≤ PacketWire.maxPayloadSize := by
  unfold problems minPayloadSize
  split
  next hzero => simp [hzero]
  split
  next hsmall => simp only [reduceCtorEq, false_iff]; omega
  split
  next hlarge => simp only [reduceCtorEq, false_iff]; omega
  next hfits => exact iff_of_true rfl ⟨by omega, by omega⟩

/-- Every message of the server fits under an accepted ceiling. -/
theorem CodecConfig.admits {c : CodecConfig} (sound : c.problems = []) (m : ServerMessage) :
    m.bytes.length ≤ c.maxPayloadSize := by
  have hmessage := m.length_bytes_le
  have hceiling := (problems_eq_nil_iff.mp sound).1
  unfold minPayloadSize at hceiling
  omega

namespace Dispatcher

variable {τ : Type}

theorem messageCourse_of_call {d : Dispatcher τ} {m : ClientMessage} {call : Call τ}
    (h : call ∈ (d.messageCourse m).calls) : call.message = m ∧ ∃ handler : Handler τ,
      d.handler? m.opcode = some handler ∧ d.messageCourse m = handler.course m d.config.maxPayloadSize := by
  cases hhandler : d.handler? m.opcode with
  | none =>
    rw [messageCourse_unhandled hhandler] at h
    cases h
  | some handler =>
    rw [messageCourse_handled hhandler] at h ⊢
    rw [handler.calls_course, List.mem_singleton] at h
    subst h
    exact ⟨rfl, handler, rfl, rfl⟩

theorem course_of_call {d : Dispatcher τ} {packet : Packet} {call : Call τ}
    (h : call ∈ (d.course packet).calls) : d.course packet = d.messageCourse call.message := by
  unfold course at h ⊢
  split at h
  next message hdecode => rw [(messageCourse_of_call h).1]
  next => cases h
  next => cases h

/-- A request that calls a handler fares as the message does that the handler is called with. -/
theorem fate_of_call {d : Dispatcher τ} {r : Request} {call : Call τ} (h : call ∈ (d.fate r).calls) :
    d.fate r = d.messageCourse call.message := by
  cases r with
  | packet packet => exact course_of_call h
  | payload raw bytes =>
    cases hreceive : d.receive raw bytes with
    | ok packet =>
      simp only [fate, hreceive] at h ⊢
      exact course_of_call h
    | error cause =>
      simp only [fate, hreceive] at h
      cases h

theorem calls_handle (d : Dispatcher τ) (r : Request) (t : Telemetry τ) :
    (left (d.handle r t)).calls = t.calls ++ (d.fate r).calls := by
  rw [left_handle]
  rfl

end Dispatcher

/-- Whatever the handlers, the request and the telemetry so far, under a
configuration without problems: if the request calls a handler that does not fail,
it has a result. There is no packet if the handler does not reply; if it does, the
packet is under the reply's own opcode, and its bytes, thirty-seven at most, are
those that the reply is encoded in without regard to the configuration. -/
theorem reply_delivered {τ : Type} {d : Dispatcher τ} (sound : d.config.problems = []) (r : Request)
    (t : Telemetry τ) {handler : Handler τ} {message : ClientMessage} {reply : Option ServerMessage}
    (registered : d.handler? message.opcode = some handler)
    (called : (left (d.handle r t)).calls = t.calls ++ [⟨handler.tag, message⟩])
    (replied : handler.respond message = .ok reply) :
    (reply = none → outcome (d.handle r t) = .ok none) ∧
    ∀ m, reply = some m → ∃ packet full, outcome (d.handle r t) = .ok (some packet) ∧
      packet.opcode = .server m.opcode ∧ packet.buffer.contents = m.bytes ∧ m.bytes.length ≤ 37 ∧
      m.encode.1 = .ok full ∧ full.buffer.contents = m.bytes := by
  have hcalls : (d.fate r).calls = [⟨handler.tag, message⟩] := by
    rw [d.calls_handle] at called
    exact List.append_cancel_left called
  have hfate : d.fate r = handler.course message d.config.maxPayloadSize := by
    rw [Dispatcher.fate_of_call (hcalls ▸ List.mem_singleton_self _),
      Dispatcher.messageCourse_handled registered]
  have hserves := handler.serves_course message d.config.maxPayloadSize
  rw [d.handle_run, outcome_conclude, hfate]
  constructor
  · rintro rfl
    exact hserves.silence replied
  · rintro m rfl
    obtain ⟨packet, hresult, hopcode, hcontents⟩ := hserves.reply m replied (CodecConfig.admits sound m)
    obtain ⟨full, hencode, -, hfull⟩ := m.encode_eq
    exact ⟨packet, full, hresult, hopcode, hcontents, m.length_bytes_le, hencode, hfull⟩

/-- Under the lowest accepted ceiling the desk opens a map, the longest message there is. -/
theorem reply_delivered_flightDesk :
    let d := Dispatcher.registered ⟨64, false, true⟩ flightDesk
    let ending := d.handle (.payload 0x34A2 (.replicate 16 7)) (.opened none)
    d.config.problems = [] ∧ ∃ packet, outcome ending = .ok (some packet) ∧
      packet.opcode = .server .showTaxiNodes ∧ packet.buffer.contents.length = 37 := by
  intro d ending
  have hsound : d.config.problems = [] := by decide
  have hregistered : d.handler? (ClientMessage.spelled (.replicate 16 7) .taxiQueryAvailableNodes).opcode =
      some ⟨2, fun _ => .ok (some (.showTaxiNodes (some ⟨⟨1, 2⟩, 3⟩) ⟨4⟩ ⟨5⟩))⟩ := by rfl
  have hcalled : (left ending).calls =
      [⟨2, .spelled (.replicate 16 7) .taxiQueryAvailableNodes⟩] := by
    show (left (d.handle (.payload ClientOpcode.taxiQueryAvailableNodes.raw (.replicate 16 7))
      (.opened none))).calls = _
    rw [d.calls_handle, Dispatcher.fate_fits (by decide), Dispatcher.course_fresh (by decide),
      Dispatcher.messageCourse_handled hregistered, Handler.calls_course]
    rfl
  obtain ⟨packet, full, hresult, hopcode, hcontents, -⟩ :=
    (reply_delivered hsound (.payload 0x34A2 (.replicate 16 7)) (.opened none) hregistered hcalled
      rfl).2 _ rfl
  exact ⟨hsound, packet, hresult, hopcode, by rw [hcontents]; rfl⟩

end PacketWire
