/-
What a received packet decodes to.

A payload of any length, under any opcode, is decoded by a schema just as its
layout says (`decode_inbound`): a packet with another opcode is refused as such,
a payload that is long enough gives the message that its first bytes spell and a
warning if there are more, and a shorter one is refused at the first field that
does not fit.
-/
import PacketWire.Packet
import PacketWire.Proofs.Buffer.Reachable
import PacketWire.Proofs.Layout

namespace PacketWire

open Buffer

/-! ## How long a payload has to be -/

/-- The payload's first bit is set, which says of a map that it has a window. -/
def opensWindow (p : List UInt8) : Bool := p.head?.any (·.toNat.testBit 7)

/-- The number of bytes that a schema takes of a payload. -/
def Message.length (p : List UInt8) : Opcode → Nat
  | .client .taxiNodeStatusQuery | .client .enableTaxiNode | .client .taxiQueryAvailableNodes => 16
  | .client .activateTaxi => 28
  | .client .taxiRequestEarlyLanding => 0
  | .server .taxiNodeStatus => 17
  | .server .showTaxiNodes => if opensWindow p then 37 else 17
  | .server .newTaxiPath => 4
  | .server .activateTaxiReply => 1

theorem Message.sum_layout (p : List UInt8) (op : Opcode) :
    (layout (opensWindow p) op).sum = length p op := by
  cases op with
  | client op => cases op <;> rfl
  | server op =>
    cases op <;> try rfl
    cases h : opensWindow p <;> simp [layout, mapLayout, length, h]

/-- Behind its fields, what a payload holds does not matter to the message. -/
theorem Message.spelled_take (hasWindow : Bool) (p : List UInt8) (op : Opcode) :
    spelled hasWindow (p.take (layout hasWindow op).sum) op = spelled hasWindow p op := by
  cases op with
  | client op => cases op <;> simp [spelled, layout, guidAt, wordAt]
  | server op =>
    cases op <;> cases hasWindow <;>
      simp [spelled, layout, mapAt, mapLayout, guidAt, wordAt, byteAt, maskAt]

theorem opensWindow_eq_of_take_eq {p q : List UInt8} {n : Nat} (hn : n ≠ 0) (h : q.take n = p.take n) :
    opensWindow q = opensWindow p := by
  have hhead := congrArg List.head? h
  rw [List.head?_take, List.head?_take, if_neg hn, if_neg hn] at hhead
  rw [opensWindow, hhead, opensWindow]

/-- Payloads that agree in what a schema takes of the one are the same to it. -/
theorem Message.eq_of_take_eq {p q : List UInt8} {op : Opcode}
    (h : q.take (length p op) = p.take (length p op)) :
    length q op = length p op ∧ spelled (opensWindow q) q op = spelled (opensWindow p) p op := by
  have hfirst : op = .server .showTaxiNodes → opensWindow q = opensWindow p := by
    rintro rfl
    refine opensWindow_eq_of_take_eq ?_ h
    simp only [length]
    split <;> simp
  have hlength : length q op = length p op := by
    cases op with
    | client op => cases op <;> rfl
    | server op =>
      cases op <;> try rfl
      simp only [length, hfirst rfl]
  have hspelled : spelled (opensWindow q) q op = spelled (opensWindow p) q op := by
    cases op with
    | client op => cases op <;> rfl
    | server op =>
      cases op <;> try rfl
      rw [hfirst rfl]
  refine ⟨hlength, ?_⟩
  rw [hspelled, ← spelled_take, sum_layout, h, ← sum_layout, spelled_take]

/-! ## Reading a payload -/

/-- A received payload in its buffer. -/
def received (p : List UInt8) : Buffer where
  contents := p
  rpos := 0
  wpos := p.length
  pending := []
  unread := []
  capacity := p.length
  limit := maxPayloadSize

theorem inbound_eq {p : List UInt8} (fits : p.length ≤ maxPayloadSize) (op : Opcode) :
    Packet.inbound op p = .ok ⟨op, received p⟩ := by
  simp [Packet.inbound, Packet.inboundWithLimit, ofBytesWithLimit, Nat.not_lt.mpr fits, received, Except.map]

theorem eq_of_inbound {p : List UInt8} {op : Opcode} {packet : Packet}
    (h : Packet.inbound op p = .ok packet) : packet = ⟨op, received p⟩ := by
  by_cases fits : p.length ≤ maxPayloadSize
  · rw [inbound_eq fits] at h
    exact (Except.ok.inj h).symm
  · simp [Packet.inbound, Packet.inboundWithLimit, ofBytesWithLimit, Nat.not_le.mp fits, Except.map] at h

/-- What runs taken in turn leave where no byte is begun. -/
theorem foldl_passed : ∀ (widths : List Nat) {b : Buffer}, b.unread = [] →
    widths.foldl passed b = { b with rpos := b.rpos + widths.sum }
  | [], _, _ => rfl
  | width :: widths, b, hu => by
    rw [List.foldl_cons, foldl_passed widths rfl]
    simp [passed, hu, Nat.add_assoc]

theorem nextBit_eq {b : Buffer} (hu : b.unread = []) : b.nextBit = opensWindow (b.contents.drop b.rpos) := by
  rw [nextBit, hu, opensWindow, List.head?_drop]

/-- What is left to read of whole bytes is read as the message that it spells, if
it is long enough for one. -/
theorem Message.read_run {b : Buffer} (hu : b.unread = []) (hw : b.wpos = b.size) (op : Opcode)
    (h : b.rpos + length (b.contents.drop b.rpos) op ≤ b.size) :
    (Message.read op).run b =
      .ok (spelled (opensWindow (b.contents.drop b.rpos)) (b.contents.drop b.rpos) op)
        { b with rpos := b.rpos + length (b.contents.drop b.rpos) op } := by
  have hread := Message.read_ends hu op
  rw [nextBit_eq hu] at hread
  have hok := hread.eq_ok (by rw [sum_layout]; omega) (by rw [sum_layout]; omega)
  rw [hok, foldl_passed _ hu, bytesAt, spelled_take, sum_layout]

theorem read_received {p : List UInt8} {op : Opcode} (h : Message.length p op ≤ p.length) :
    (Message.read op).run (received p) =
      .ok (Message.spelled (opensWindow p) p op) { received p with rpos := Message.length p op } := by
  simpa [received] using Message.read_run (b := received p) rfl rfl op (by simpa [received, size] using h)

/-- A payload that is too short is refused at the first field that does not fit. -/
theorem read_received_short {p : List UInt8} {op : Opcode} (h : p.length < Message.length p op) :
    ∃ before width after, Message.layout (opensWindow p) op = before ++ width :: after ∧
      before.sum ≤ p.length ∧ p.length < before.sum + width ∧
      ∃ b', (Message.read op).run (received p) =
        .error (.refused (.position before.sum p.length width)) b' := by
  have hordered : (received p).Ordered := ⟨Nat.zero_le _, Nat.le_refl _⟩
  have hshort : (received p).wpos < (received p).rpos + (Message.layout (opensWindow p) op).sum := by
    rw [Message.sum_layout]
    simpa [received] using h
  have hread := Message.read_ends (b := received p) rfl op
  rw [nextBit_eq rfl] at hread
  simpa [received] using hread.eq_refused hordered hshort

/-! ## Decoding -/

theorem decode_of_ne {p : Packet} {op : Opcode} (h : p.opcode ≠ op) (warn : Bool) :
    Message.decode op p warn = (.error (.refused (.unexpectedOpcode op.display p.opcode.display)), []) := by
  rw [Message.decode, Packet.decodeAs, if_neg h]

theorem decode_received {p : List UInt8} {op : Opcode} (h : Message.length p op ≤ p.length) (warn : Bool) :
    Message.decode op ⟨op, received p⟩ warn = (.ok (Message.spelled (opensWindow p) p op),
      (if warn && Message.length p op < p.length then
        [.trailingData op (Message.length p op) p.length (p.length - Message.length p op)]
      else []) ++ [.packetDecoded op p.length]) := by
  rw [Message.decode, Packet.decodeAs, if_pos rfl]
  simp only [read_received h]
  simp only [Packet.decodedEvents, remaining, received, size, Nat.sub_pos_iff_lt]

theorem decode_received_short {p : List UInt8} {op : Opcode} (h : p.length < Message.length p op)
    (warn : Bool) :
    ∃ before width after, Message.layout (opensWindow p) op = before ++ width :: after ∧
      before.sum ≤ p.length ∧ p.length < before.sum + width ∧
      Message.decode op ⟨op, received p⟩ warn =
        (.error (.refused (.position before.sum p.length width)), []) := by
  obtain ⟨before, width, after, hlayout, hle, hlt, b', hrun⟩ := read_received_short h
  refine ⟨before, width, after, hlayout, hle, hlt, ?_⟩
  rw [Message.decode, Packet.decodeAs, if_pos rfl]
  simp only [hrun]

theorem decode_ok_iff (p : List UInt8) (op : Opcode) (warn : Bool) :
    (∃ m, (Message.decode op ⟨op, received p⟩ warn).1 = .ok m) ↔ Message.length p op ≤ p.length := by
  constructor
  · rintro ⟨m, hm⟩
    by_contra hlt
    obtain ⟨before, width, after, -, -, -, hdecode⟩ := decode_received_short (Nat.not_le.mp hlt) warn
    rw [hdecode] at hm
    cases hm
  · exact fun hle => ⟨_, by rw [decode_received hle]⟩

/-- Behind its fields, what a payload holds does not matter to the outcome. -/
theorem decode_eq_of_take_eq {p q : List UInt8} {op : Opcode} (hle : Message.length p op ≤ p.length)
    (h : q.take (Message.length p op) = p.take (Message.length p op)) (warn : Bool) :
    (Message.decode op ⟨op, received q⟩ warn).1 = (Message.decode op ⟨op, received p⟩ warn).1 := by
  obtain ⟨hlength, hspelled⟩ := Message.eq_of_take_eq h
  have hq : Message.length q op ≤ q.length := by
    have hlen := congrArg List.length h
    rw [List.length_take, List.length_take] at hlen
    omega
  rw [decode_received hq, decode_received hle, hspelled]

/-! ## Warnings -/

/-- A journal keeps the events whose level is enabled, in turn. -/
theorem Journal.events_recordAll : ∀ (es : List Event) (j : Journal),
    (j.recordAll es).events = j.events ++ es.filter (j.enabled ·.level)
  | [], j => by simp [recordAll]
  | e :: es, j => by
    have hrest := Journal.events_recordAll es (j.record e)
    have henabled : (j.record e).enabled = j.enabled := by
      unfold record enabled
      split <;> rfl
    rw [recordAll, List.foldl_cons, ← recordAll, hrest, henabled, List.filter_cons, record]
    split <;> simp

/-- The warnings that a journal is left with. -/
def warnings (verbosity : Option Level) (es : List Event) : List Event :=
  ((Journal.opened verbosity).recordAll es).events.filter (·.level = .warn)

theorem warnings_eq (verbosity : Option Level) (es : List Event) :
    warnings verbosity es =
      if (Journal.opened verbosity).enabled .warn then es.filter (·.level = .warn) else [] := by
  rw [warnings, Journal.events_recordAll, Journal.opened, List.nil_append, List.filter_filter]
  split
  next henabled =>
    refine List.filter_congr fun e _ => ?_
    by_cases he : e.level = .warn <;> simp [he, henabled]
  next hdisabled =>
    refine List.filter_eq_nil_iff.mpr fun e _ => ?_
    by_cases he : e.level = .warn <;> simp [he, hdisabled]

/-- A packet that is decoded is worth a warning if bytes of it are left. -/
theorem warnings_decoded (verbosity : Option Level) (op : Opcode) (read size trailing : Nat) (left : Prop)
    [Decidable left] :
    warnings verbosity ((if left then [.trailingData op read size trailing] else []) ++
        [.packetDecoded op size]) =
      if (Journal.opened verbosity).enabled .warn ∧ left then [.trailingData op read size trailing]
      else [] := by
  rw [warnings_eq]
  by_cases hleft : left <;> simp [hleft, Event.level]

/-- The one warning is of bytes that a schema leaves of its own packet. -/
theorem warnings_decode (verbosity : Option Level) (p : List UInt8) (schema opcode : Opcode) (warn : Bool) :
    warnings verbosity (Message.decode schema ⟨opcode, received p⟩ warn).2 =
      if warn ∧ (Journal.opened verbosity).enabled .warn ∧ opcode = schema ∧
          Message.length p schema < p.length then
        [.trailingData schema (Message.length p schema) p.length (p.length - Message.length p schema)]
      else [] := by
  by_cases hop : opcode = schema
  · subst hop
    rcases Nat.lt_or_ge p.length (Message.length p opcode) with hlt | hle
    · obtain ⟨before, width, after, -, -, -, hdecode⟩ := decode_received_short hlt warn
      rw [hdecode, warnings_eq, List.filter_nil, ite_self, if_neg]
      rintro ⟨-, -, -, h⟩
      omega
    · rw [decode_received hle, warnings_decoded]
      simp [and_left_comm]
  · rw [decode_of_ne hop, warnings_eq, List.filter_nil, ite_self, if_neg (fun h => hop h.2.2.1)]

/-! ## Every schema, opcode and payload -/

/-- Whatever the schema, the opcode and the payload under the ceiling: another
opcode is refused as such. Else decoding succeeds exactly if the payload has the
schema's length. It then gives the message that the payload spells, each field at
its offset, and so does every payload with the same first bytes; the one warning
is of bytes that are left. A shorter payload is refused at the first field that
does not fit. -/
theorem decode_inbound {p : List UInt8} (fits : p.length ≤ maxPayloadSize) (schema opcode : Opcode)
    (warn : Bool) :
    ∃ packet, Packet.inbound opcode p = .ok packet ∧
      (opcode ≠ schema → (Message.decode schema packet warn).1 =
        .error (.refused (.unexpectedOpcode schema.display opcode.display))) ∧
      (opcode = schema →
        ((∃ m, (Message.decode schema packet warn).1 = .ok m) ↔ Message.length p schema ≤ p.length) ∧
        (Message.length p schema ≤ p.length →
          (Message.decode schema packet warn).1 = .ok (Message.spelled (opensWindow p) p schema) ∧
          ∀ q other, Packet.inbound opcode q = .ok other →
            q.take (Message.length p schema) = p.take (Message.length p schema) →
            (Message.decode schema other warn).1 = (Message.decode schema packet warn).1) ∧
        (p.length < Message.length p schema →
          ∃ before width after, Message.layout (opensWindow p) schema = before ++ width :: after ∧
            before.sum ≤ p.length ∧ p.length < before.sum + width ∧
            (Message.decode schema packet warn).1 =
              .error (.refused (.position before.sum p.length width)))) ∧
      ∀ verbosity, warnings verbosity (Message.decode schema packet warn).2 =
        if warn ∧ (Journal.opened verbosity).enabled .warn ∧ opcode = schema ∧
            Message.length p schema < p.length then
          [.trailingData schema (Message.length p schema) p.length (p.length - Message.length p schema)]
        else [] := by
  refine ⟨⟨opcode, received p⟩, inbound_eq fits opcode, ?_, ?_, ?_⟩
  · intro hne
    rw [decode_of_ne hne]
  · rintro rfl
    refine ⟨decode_ok_iff p opcode warn, ?_, ?_⟩
    · intro hle
      refine ⟨by rw [decode_received hle], ?_⟩
      intro q other hother hsame
      rw [eq_of_inbound hother]
      exact decode_eq_of_take_eq hle hsame warn
    · intro hlt
      obtain ⟨before, width, after, hlayout, hle, hfield, hdecode⟩ := decode_received_short hlt warn
      exact ⟨before, width, after, hlayout, hle, hfield, by rw [hdecode]⟩
  · exact fun verbosity => warnings_decode verbosity p schema opcode warn

/-- A map with a window, padding bits that are set, and two bytes too many. -/
def overlongMap : List UInt8 := 0xFF :: List.replicate 36 1 ++ [2, 3]

/-- All of it decodes, with a warning of the two bytes; of twenty bytes the node
behind the identifier is the first field that does not fit. -/
theorem decode_inbound_overlongMap :
    overlongMap.length = 39 ∧
      (∃ packet, Packet.inbound (.server .showTaxiNodes) overlongMap = .ok packet ∧
        (Message.decode (.server .showTaxiNodes) packet true).1 =
          .ok (Message.spelled true overlongMap (.server .showTaxiNodes)) ∧
        warnings (some .warn) (Message.decode (.server .showTaxiNodes) packet true).2 =
          [.trailingData (.server .showTaxiNodes) 37 39 2]) ∧
      ∃ packet, Packet.inbound (.server .showTaxiNodes) (overlongMap.take 20) = .ok packet ∧
        (Message.decode (.server .showTaxiNodes) packet true).1 =
          .error (.refused (.position 17 20 4)) := by
  refine ⟨rfl, ?_, ?_⟩
  · have hfits : overlongMap.length ≤ maxPayloadSize := by decide
    obtain ⟨packet, hinbound, -, hown, hwarnings⟩ :=
      decode_inbound hfits (.server .showTaxiNodes) (.server .showTaxiNodes) true
    refine ⟨packet, hinbound, ((hown rfl).2.1 (by decide)).1, ?_⟩
    rw [hwarnings]
    decide
  · have hfits : (overlongMap.take 20).length ≤ maxPayloadSize := by decide
    obtain ⟨packet, hinbound, -, hown, -⟩ :=
      decode_inbound hfits (.server .showTaxiNodes) (.server .showTaxiNodes) true
    obtain ⟨before, width, after, hlayout, hle, hlt, hdecode⟩ := (hown rfl).2.2 (by decide)
    refine ⟨packet, hinbound, ?_⟩
    have hwidths : [1, 16, 4, 8, 8] = before ++ width :: after := hlayout
    have htaken : (overlongMap.take 20).length = 20 := rfl
    rw [htaken] at hle hlt hdecode
    rcases before with _ | ⟨_, _ | ⟨_, _ | ⟨_, before⟩⟩⟩ <;>
      simp only [List.nil_append, List.cons_append, List.cons.injEq, List.sum_cons, List.sum_nil] at *
    · omega
    · omega
    · obtain ⟨rfl, rfl, rfl, -⟩ := hwidths
      exact hdecode
    · omega

end PacketWire
