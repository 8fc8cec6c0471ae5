/-
What the server says, written and read back.

Messages that are written one after another store their bytes one after another
(`writes_stored`), and are read from them one after another (`reads_run`). The
other way, a payload that decodes is what encoding the message gives, as far as
it was read and but for the padding behind a map's first bit. Both ways are
`messages_round_trip`.
-/
import PacketWire.Proofs.Encode
import PacketWire.Proofs.Field

namespace PacketWire

open Buffer

/-! ## Writing messages -/

theorem writes_stored : ∀ (ms : List ServerMessage) {b : Buffer}, b.AtEnd →
    b.size + (ms.flatMap ServerMessage.bytes).length ≤ b.limit →
    ∃ full, (performAll (ms.map .writeMessage)).run b = .ok (List.replicate ms.length .done) full ∧
      Stored b full (ms.flatMap ServerMessage.bytes)
  | [], b, hend, _ => ⟨b, rfl, (List.append_nil _).symm, hend, rfl, rfl, rfl⟩
  | m :: ms, b, hend, hroom => by
    rw [List.flatMap_cons, List.length_append] at hroom
    obtain ⟨b₁, hrun₁, stored₁⟩ := m.write_stored hend (by omega)
    obtain ⟨full, hrun, stored⟩ := writes_stored ms stored₁.atEnd (by
      rw [stored₁.size, stored₁.limit]
      omega)
    have hfirst : (Operation.writeMessage m).run.run b = .ok .done b₁ := run_map_ok.mpr ⟨(), hrun₁, rfl⟩
    exact ⟨full, (performAll_cons_run hfirst).mpr hrun, stored₁.trans stored⟩

/-! ## Reading messages -/

/-- Wherever a message's bytes come next, they are read as the message. -/
theorem ServerMessage.read_bytes (m : ServerMessage) {rest : List UInt8} {b : Buffer} (hu : b.unread = [])
    (hw : b.wpos = b.size) (hr : b.rpos ≤ b.size) (h : b.contents.drop b.rpos = m.bytes ++ rest) :
    (Message.read (.server m.opcode)).run b = .ok (.server m) { b with rpos := b.rpos + m.bytes.length } := by
  have hlen := congrArg List.length h
  rw [List.length_drop, List.length_append] at hlen
  have hread := Message.read_run hu hw (.server m.opcode) (by
    rw [h, m.length_bytes]
    unfold size at hr ⊢
    omega)
  rwa [h, m.length_bytes, m.spelled_bytes] at hread

theorem reads_run : ∀ (ms : List ServerMessage) {b : Buffer}, b.unread = [] → b.wpos = b.size →
    b.rpos ≤ b.size → b.contents.drop b.rpos = ms.flatMap ServerMessage.bytes →
    ∃ done, (performAll (ms.map fun m => .readMessage (.server m.opcode))).run b =
        .ok (ms.map fun m => .message (.server m)) done ∧ done.remaining = 0
  | [], b, _, hw, _, h => by
    have hle : b.size ≤ b.rpos := List.drop_eq_nil_iff.mp h
    exact ⟨b, rfl, by unfold remaining; omega⟩
  | m :: ms, b, hu, hw, hr, h => by
    rw [List.flatMap_cons] at h
    have hlen := congrArg List.length h
    rw [List.length_drop, List.length_append] at hlen
    have hfirst : (Operation.readMessage (.server m.opcode)).run.run b =
        .ok (.message (.server m)) { b with rpos := b.rpos + m.bytes.length } :=
      run_map_ok.mpr ⟨_, m.read_bytes hu hw hr h, rfl⟩
    have hnext : b.contents.drop (b.rpos + m.bytes.length) = ms.flatMap ServerMessage.bytes := by
      rw [← List.drop_drop, h, List.drop_left' rfl]
    obtain ⟨done, hrun, hdone⟩ := reads_run ms (b := { b with rpos := b.rpos + m.bytes.length }) hu hw
      (by unfold size at hr ⊢; simp only; omega) hnext
    exact ⟨done, (performAll_cons_run hfirst).mpr hrun, hdone⟩

/-! ## Messages in turn -/

/-- Whatever the server's messages, writing them in turn to a buffer just made,
under a ceiling that they fit, and reading them back in turn gives every message
and leaves nothing. Whatever the payload, if it decodes as one of the server's
messages, the message is encoded in the bytes that were read of it, with the
padding behind a map's first bit clear. -/
theorem messages_round_trip :
    (∀ {b : Buffer}, Made b → b.isEmpty → ∀ ms : List ServerMessage,
      (ms.flatMap ServerMessage.bytes).length ≤ b.limit →
      ∃ full done, (performAll (ms.map .writeMessage)).run b = .ok (List.replicate ms.length .done) full ∧
        (performAll (ms.map fun m => .readMessage (.server m.opcode))).run full =
          .ok (ms.map fun m => .message (.server m)) done ∧
        done.remaining = 0) ∧
    ∀ (op : ServerOpcode) (p : List UInt8) (packet : Packet) (warn : Bool) (m : Message),
      Packet.inbound (.server op) p = .ok packet → (Message.decode (.server op) packet warn).1 = .ok m →
      ∃ sent left out, m = .server sent ∧ (Message.read (.server op)).run packet.buffer = .ok m left ∧
        sent.encode.1 = .ok out ∧ out.opcode = .server op ∧
        out.buffer.contents = clearPadding op (p.take left.rpos) := by
  constructor
  · intro b made empty ms room
    obtain ⟨capacity, limit, rfl⟩ := made.eq_of_isEmpty empty
    obtain ⟨full, hwrite, stored⟩ := writes_stored ms (b := ⟨[], 0, 0, [], [], capacity, limit⟩) ⟨rfl, rfl⟩
      (by simpa [size] using room)
    have hrpos : full.rpos = 0 := stored.rpos
    obtain ⟨done, hread, hdone⟩ := reads_run ms stored.unread stored.atEnd.2 (by omega)
      (by rw [hrpos, List.drop_zero, stored.contents, List.nil_append])
    exact ⟨full, done, hwrite, hread, hdone⟩
  · intro op p packet warn m hinbound hdecode
    obtain rfl := eq_of_inbound hinbound
    have hlen := (decode_ok_iff p (.server op) warn).mp ⟨m, hdecode⟩
    obtain ⟨sent, hsent, hop, hbytes⟩ := bytes_spelled hlen
    have hm : m = .server sent := by
      rw [decode_received hlen, hsent] at hdecode
      exact (Except.ok.inj hdecode).symm
    obtain ⟨out, hencode, hopcode, hcontents⟩ := sent.encode_eq
    refine ⟨sent, _, out, hm, by rw [read_received hlen, hm, hsent], hencode, hop ▸ hopcode, ?_⟩
    rw [hcontents, hbytes]

/-- A message of every kind, and a map of either kind. -/
def smallTalk : List ServerMessage :=
  [.taxiNodeStatus 2 ⟨1, 2⟩, .showTaxiNodes (some ⟨⟨3, 4⟩, -5⟩) ⟨6⟩ ⟨7⟩, .newTaxiPath (-8),
    .showTaxiNodes none ⟨9⟩ ⟨10⟩, .activateTaxiReply 12]

/-- They fill seventy-six bytes, and an overlong map is encoded in the first
thirty-seven of its bytes, without the padding bits. -/
theorem messages_round_trip_smallTalk :
    (∃ full done, (performAll (smallTalk.map .writeMessage)).run (.withLimit 0 76) =
          .ok (List.replicate 5 .done) full ∧
        (performAll (smallTalk.map fun m => .readMessage (.server m.opcode))).run full =
          .ok (smallTalk.map fun m => .message (.server m)) done ∧
        done.remaining = 0) ∧
      ∃ packet sent out, Packet.inbound (.server .showTaxiNodes) overlongMap = .ok packet ∧
        (Message.decode (.server .showTaxiNodes) packet true).1 = .ok (.server sent) ∧
        sent.encode.1 = .ok out ∧ out.buffer.contents = 0x80 :: List.replicate 36 1 := by
  refine ⟨messages_round_trip.1 (.fresh (.withLimit 0 76)) rfl smallTalk (by decide), ?_⟩
  have hinbound : Packet.inbound (.server .showTaxiNodes) overlongMap =
      .ok ⟨.server .showTaxiNodes, received overlongMap⟩ := inbound_eq (by decide) _
  have hlen : Message.length overlongMap (.server .showTaxiNodes) ≤ overlongMap.length := by decide
  obtain ⟨m, hdecode⟩ := (decode_ok_iff overlongMap (.server .showTaxiNodes) true).mpr hlen
  obtain ⟨sent, left, out, rfl, hread, hencode, -, hcontents⟩ :=
    messages_round_trip.2 _ overlongMap _ true m hinbound hdecode
  refine ⟨_, sent, out, hinbound, hdecode, hencode, ?_⟩
  rw [read_received hlen] at hread
  cases hread
  rw [hcontents]
  decide

end PacketWire
