/-
Which packets reach a handler.

Of the payloads that come under a number, those above the dispatcher's ceiling never
do (`length_le_of_invokes_payload`). A packet that was received elsewhere is asked
for no more than its schema's length and a handler, whatever the ceiling
(`invokes_inbound_iff`). So all that reaches a handler is within the ceiling exactly
if that is no lower than the one for packets, or if there are no handlers
(`invokes_within_ceiling_iff`).
-/
import PacketWire.Proofs.Dispatch.Delivery
import PacketWire.Proofs.Dispatch.Session

namespace PacketWire

open Telemetry

namespace Dispatcher

variable {τ : Type}

/-- A handler is called for a request. -/
def Invokes (d : Dispatcher τ) (r : Request) (t : Telemetry τ) : Prop :=
  (left (d.handle r t)).calls ≠ t.calls

theorem invokes_iff {d : Dispatcher τ} {r : Request} {t : Telemetry τ} :
    d.Invokes r t ↔ (d.fate r).calls ≠ [] := by
  rw [Invokes, d.calls_handle, ne_eq, List.append_right_eq_self]

theorem messageCourse_calls_iff {d : Dispatcher τ} {message : ClientMessage} :
    (d.messageCourse message).calls ≠ [] ↔ d.handler? message.opcode ≠ none := by
  cases hhandler : d.handler? message.opcode with
  | none =>
    rw [messageCourse_unhandled hhandler]
    exact iff_of_false (fun h => h rfl) (fun h => h rfl)
  | some handler =>
    rw [messageCourse_handled hhandler, handler.calls_course]
    exact iff_of_true (List.cons_ne_nil _ _) (Option.some_ne_none _)

/-- A payload in its packet is asked for its schema's length and for a handler. Its
packet's ceiling does not matter here, nor does the dispatcher's. -/
theorem course_fresh_calls_iff {d : Dispatcher τ} {op : ClientOpcode} {bytes : List UInt8} {limit : Nat} :
    (d.course (.fresh (.client op) bytes limit)).calls ≠ [] ↔
      Message.length bytes (.client op) ≤ bytes.length ∧ d.handler? op ≠ none := by
  rcases Nat.lt_or_ge bytes.length (Message.length bytes (.client op)) with hshort | hlen
  · obtain ⟨before, width, after, -, -, -, hcourse⟩ := course_fresh_short hshort d limit
    rw [hcourse]
    exact iff_of_false (fun h => h rfl) (fun h => absurd h.1 (Nat.not_le.mpr hshort))
  · rw [course_fresh hlen, messageCourse_calls_iff, ClientMessage.opcode_spelled]
    exact (and_iff_right hlen).symm

theorem invokes_inbound_iff {d : Dispatcher τ} {op : ClientOpcode} {bytes : List UInt8} {packet : Packet}
    (received : Packet.inbound (.client op) bytes = .ok packet) (t : Telemetry τ) :
    d.Invokes (.packet packet) t ↔
      Message.length bytes (.client op) ≤ bytes.length ∧ d.handler? op ≠ none := by
  rw [invokes_iff, Packet.inbound_fresh received]
  exact course_fresh_calls_iff

/-- What reaches a handler under a number is within the dispatcher's ceiling. -/
theorem length_le_of_invokes_payload {d : Dispatcher τ} {raw : UInt32} {bytes : List UInt8} {t : Telemetry τ}
    (h : d.Invokes (.payload raw bytes) t) : bytes.length ≤ d.config.maxPayloadSize := by
  rw [invokes_iff] at h
  cases d.arrival raw bytes with
  | unknown unknown barred | oversized op known exceeds barred =>
    rw [fate_barred barred] at h
    exact absurd rfl h
  | admitted op known fits received => exact fits

/-- Where there is a handler, a packet above a ceiling that is lower than that for
packets reaches it: one that is a byte longer, or as long as its schema. -/
theorem exists_invokes_above {d : Dispatcher τ} (low : d.config.maxPayloadSize < maxPayloadSize)
    (handlers : d.handlers ≠ []) (t : Telemetry τ) :
    ∃ op bytes packet, Packet.inbound (.client op) bytes = .ok packet ∧
      d.Invokes (.packet packet) t ∧ d.config.maxPayloadSize < bytes.length := by
  obtain ⟨⟨op, handler⟩, others, hhandlers⟩ := List.exists_cons_of_ne_nil handlers
  have hhandler : d.handler? op = some handler := by
    rw [handler?, hhandlers, List.lookup_cons_self]
  obtain ⟨bytes, hlength⟩ : ∃ bytes : List UInt8, bytes.length = max (d.config.maxPayloadSize + 1) 28 :=
    ⟨.replicate _ 0, List.length_replicate⟩
  have hschema : Message.length bytes (.client op) ≤ 28 := by
    cases op <;> simp [Message.length]
  have hfits : bytes.length ≤ maxPayloadSize := by
    have hceiling : 28 ≤ maxPayloadSize := by decide
    omega
  have hreceived := inbound_eq hfits (.client op)
  refine ⟨op, bytes, _, hreceived, (invokes_inbound_iff hreceived t).mpr ⟨by omega, ?_⟩, by omega⟩
  rw [hhandler]
  exact Option.some_ne_none _

end Dispatcher

/-- Whatever the configuration and the handlers. No handler is called for a payload
above the configured ceiling that comes under a number. None is called for a
received packet above it either, exactly if the configured ceiling is at least the
one for packets, or if there are no handlers. -/
theorem invokes_within_ceiling_iff {τ : Type} (d : Dispatcher τ) :
    (∀ raw bytes t, d.Invokes (.payload raw bytes) t → bytes.length ≤ d.config.maxPayloadSize) ∧
    ((∀ op bytes packet t, Packet.inbound (.client op) bytes = .ok packet →
        d.Invokes (.packet packet) t → bytes.length ≤ d.config.maxPayloadSize) ↔
      maxPayloadSize ≤ d.config.maxPayloadSize ∨ d.handlers = []) := by
  refine ⟨fun raw bytes t => Dispatcher.length_le_of_invokes_payload, ?only, ?within⟩
  case only =>
    intro hwithin
    by_contra hneither
    obtain ⟨hlow, hhandlers⟩ := not_or.mp hneither
    obtain ⟨op, bytes, packet, hreceived, hinvokes, habove⟩ :=
      Dispatcher.exists_invokes_above (Nat.not_le.mp hlow) hhandlers (.opened none)
    exact absurd (hwithin op bytes packet _ hreceived hinvokes) (Nat.not_le.mpr habove)
  case within =>
    rintro (hhigh | hnone) op bytes packet t hreceived hinvokes
    · have hfits : bytes.length ≤ maxPayloadSize := by
        by_contra hover
        rw [Packet.inbound, Packet.inboundWithLimit_eq, if_pos (Nat.not_le.mp hover)] at hreceived
        cases hreceived
      exact hfits.trans hhigh
    · have hhandler := ((Dispatcher.invokes_inbound_iff hreceived t).mp hinvokes).2
      rw [Dispatcher.handler?, hnone] at hhandler
      exact absurd rfl hhandler

/-- The desk under its default ceiling and under one of 64 bytes. -/
theorem invokes_within_ceiling_iff_flightDesk :
    let wide := Dispatcher.registered .default flightDesk
    let narrow := Dispatcher.registered ⟨64, false, true⟩ flightDesk
    (∀ op bytes packet t, Packet.inbound (.client op) bytes = .ok packet →
      wide.Invokes (.packet packet) t → bytes.length ≤ wide.config.maxPayloadSize) ∧
    ¬ ∀ op bytes packet t, Packet.inbound (.client op) bytes = .ok packet →
      narrow.Invokes (.packet packet) t → bytes.length ≤ narrow.config.maxPayloadSize := by
  intro wide narrow
  refine ⟨(invokes_within_ceiling_iff wide).2.mpr (.inl (Nat.le_refl _)), fun hwithin => ?_⟩
  obtain hhigh | hnone := (invokes_within_ceiling_iff narrow).2.mp hwithin
  · exact absurd hhigh (by decide)
  · exact List.cons_ne_nil _ _ hnone

/-- Under a ceiling of 64 bytes the desk's second handler of flights is called for a
packet of 65. -/
theorem invokes_above_ceiling_flightDesk :
    let d := Dispatcher.registered ⟨64, false, true⟩ flightDesk
    ∃ packet, Packet.inbound (.client .activateTaxi) (.replicate 65 7) = .ok packet ∧
      d.Invokes (.packet packet) (.opened none) ∧
      ¬ (List.replicate 65 7 : List UInt8).length ≤ d.config.maxPayloadSize := by
  refine ⟨_, rfl, ?_, by decide⟩
  unfold Dispatcher.Invokes
  decide

end PacketWire
