/-
Where a payload ends up that arrives under a number.

`dispatchRaw_routes` says it for every configuration, every history of
registrations, every number and every payload: the checks in their order, and
behind them the handler registered last for the opcode, which alone is called,
once, with the message that the payload spells.
-/
import PacketWire.Proofs.Decode
import PacketWire.Proofs.Dispatch.Course

namespace PacketWire

open Buffer

/-! ## Client messages -/

/-- The client message that a payload spells, each field at its offset. -/
def ClientMessage.spelled (p : List UInt8) : ClientOpcode → ClientMessage
  | .taxiNodeStatusQuery => .taxiNodeStatusQuery (guidAt p 0)
  | .enableTaxiNode => .enableTaxiNode (guidAt p 0)
  | .taxiQueryAvailableNodes => .taxiQueryAvailableNodes (guidAt p 0)
  | .activateTaxi => .activateTaxi (guidAt p 0) (wordAt p 16) (wordAt p 20) (wordAt p 24)
  | .taxiRequestEarlyLanding => .taxiRequestEarlyLanding

theorem Message.spelled_client (hasWindow : Bool) (p : List UInt8) (op : ClientOpcode) :
    Message.spelled hasWindow p (.client op) = .client (ClientMessage.spelled p op) := by
  cases op <;> rfl

/-- What a message decodes from is under its own opcode. -/
theorem ClientMessage.opcode_spelled (p : List UInt8) (op : ClientOpcode) :
    (spelled p op).opcode = op := by
  cases op <;> rfl

theorem ClientMessage.decode_client (op : ClientOpcode) (b : Buffer) (warn : Bool) :
    (decode ⟨.client op, b⟩ warn).1 = match (read op).run b with
      | .ok message _ => .ok message
      | .error failure _ => .error failure := by
  simp only [decode, Packet.decodeAs, if_true]
  cases (read op).run b <;> rfl

/-- A payload that is long enough decodes as the message that it spells. -/
theorem ClientMessage.decode_fresh {op : ClientOpcode} {p : List UInt8}
    (h : Message.length p (.client op) ≤ p.length) (limit : Nat) (warn : Bool) :
    (decode (.fresh (.client op) p limit) warn).1 = .ok (spelled p op) := by
  have hread := Message.read_run (b := (Packet.fresh (.client op) p limit).buffer) rfl rfl (.client op)
    (by simpa [Packet.fresh, size] using h)
  rw [Message.spelled_client] at hread
  obtain ⟨message, hmessage, heq⟩ := run_map_ok.mp hread
  obtain rfl := Message.client.inj heq
  rw [Packet.fresh, decode_client]
  simp only [Packet.fresh, List.drop_zero] at hmessage ⊢
  rw [hmessage]

/-- A shorter one is refused at the first field that does not fit. -/
theorem ClientMessage.decode_fresh_short {op : ClientOpcode} {p : List UInt8}
    (h : p.length < Message.length p (.client op)) (limit : Nat) (warn : Bool) :
    ∃ before width after, Message.layout (opensWindow p) (.client op) = before ++ width :: after ∧
      before.sum ≤ p.length ∧ p.length < before.sum + width ∧
      (decode (.fresh (.client op) p limit) warn).1 =
        .error (.refused (.position before.sum p.length width)) := by
  have hordered : (Packet.fresh (.client op) p limit).buffer.Ordered := ⟨Nat.zero_le _, Nat.le_refl _⟩
  have hread := Message.read_ends (b := (Packet.fresh (.client op) p limit).buffer) rfl (.client op)
  rw [nextBit_eq rfl] at hread
  obtain ⟨before, width, after, hlayout, hle, hlt, b', hrun⟩ :=
    hread.eq_refused hordered (by rw [Message.sum_layout]; simpa [Packet.fresh] using h)
  simp only [Packet.fresh, List.drop_zero, Nat.zero_add] at hlayout hle hlt hrun
  refine ⟨before, width, after, hlayout, hle, hlt, ?_⟩
  rw [Packet.fresh, decode_client]
  rw [run_map_error.mp hrun]

/-! ## Registrations -/

namespace Dispatcher

open Telemetry

variable {τ : Type}

/-- A dispatcher after registrations in turn. -/
def registered (config : CodecConfig) (history : List (ClientOpcode × Handler τ)) : Dispatcher τ :=
  history.foldl (fun d entry => d.register entry.1 entry.2) (.withConfig config)

theorem foldl_register (history : List (ClientOpcode × Handler τ)) (d : Dispatcher τ) :
    history.foldl (fun d entry => d.register entry.1 entry.2) d =
      ⟨d.config, history.reverse ++ d.handlers⟩ := by
  induction history generalizing d with
  | nil => rfl
  | cons entry history ih =>
    rw [List.foldl_cons, ih, register, List.reverse_cons, List.append_assoc]
    rfl

theorem registered_eq (config : CodecConfig) (history : List (ClientOpcode × Handler τ)) :
    registered config history = ⟨config, history.reverse⟩ := by
  rw [registered, foldl_register, withConfig, List.append_nil]

theorem handler?_registered_none {config : CodecConfig} {history : List (ClientOpcode × Handler τ)}
    {op : ClientOpcode} (h : ∀ entry ∈ history, entry.1 ≠ op) :
    (registered config history).handler? op = none := by
  rw [registered_eq, handler?, List.lookup_eq_none_iff]
  intro entry hentry
  simpa using (h entry (List.mem_reverse.mp hentry)).symm

/-- The handler of an opcode is the one registered last for it. -/
theorem handler?_registered {config : CodecConfig} {earlier later : List (ClientOpcode × Handler τ)}
    {op : ClientOpcode} {handler : Handler τ} (h : ∀ entry ∈ later, entry.1 ≠ op) :
    (registered config (earlier ++ (op, handler) :: later)).handler? op = some handler := by
  rw [registered_eq, handler?, List.lookup_eq_some_iff]
  refine ⟨later.reverse, earlier.reverse, by simp, ?_⟩
  intro entry hentry
  simpa using (h entry (List.mem_reverse.mp hentry)).symm

/-! ## The way of a payload -/

theorem receive_unknown (d : Dispatcher τ) {raw : UInt32} (h : ∀ op : ClientOpcode, op.raw ≠ raw)
    (bytes : List UInt8) : d.receive raw bytes = .error (.unknownOpcode raw) := by
  rw [receive]
  cases hop : ClientOpcode.ofRaw raw with
  | error cause =>
    rw [ClientOpcode.eq_of_ofRaw_error hop]
    rfl
  | ok op => exact absurd (ClientOpcode.raw_of_ofRaw hop) (h op)

theorem receive_raw (d : Dispatcher τ) (op : ClientOpcode) (bytes : List UInt8) :
    d.receive op.raw bytes =
      if d.config.maxPayloadSize < bytes.length then
        .error (.capacityExceeded bytes.length d.config.maxPayloadSize)
      else .ok (.fresh (.client op) bytes d.config.maxPayloadSize) := by
  rw [← Packet.inboundWithLimit_eq, receive, ClientOpcode.ofRaw_raw]
  rfl

theorem fate_unknown (d : Dispatcher τ) {raw : UInt32} (h : ∀ op : ClientOpcode, op.raw ≠ raw)
    (bytes : List UInt8) : d.fate (.payload raw bytes) = .barred (.unknownOpcode raw) := by
  rw [fate, receive_unknown d h]

theorem fate_oversized {d : Dispatcher τ} {bytes : List UInt8}
    (h : d.config.maxPayloadSize < bytes.length) (op : ClientOpcode) :
    d.fate (.payload op.raw bytes) =
      .barred (.capacityExceeded bytes.length d.config.maxPayloadSize) := by
  rw [fate, receive_raw, if_pos h]

/-- A payload in its packet, under whatever ceiling, is refused at the first field
that does not fit. -/
theorem course_fresh_short {op : ClientOpcode} {bytes : List UInt8}
    (h : bytes.length < Message.length bytes (.client op)) (d : Dispatcher τ) (limit : Nat) :
    ∃ before width after, Message.layout (opensWindow bytes) (.client op) = before ++ width :: after ∧
      before.sum ≤ bytes.length ∧ bytes.length < before.sum + width ∧
      d.course (.fresh (.client op) bytes limit) =
        .undecoded (.position before.sum bytes.length width) := by
  obtain ⟨before, width, after, hlayout, hle, hlt, hdecode⟩ :=
    ClientMessage.decode_fresh_short h limit d.config.warnOnTrailingBytes
  refine ⟨before, width, after, hlayout, hle, hlt, ?_⟩
  simp only [course, hdecode]

theorem course_fresh {op : ClientOpcode} {bytes : List UInt8}
    (h : Message.length bytes (.client op) ≤ bytes.length) (d : Dispatcher τ) (limit : Nat) :
    d.course (.fresh (.client op) bytes limit) = d.messageCourse (.spelled bytes op) := by
  simp only [course, ClientMessage.decode_fresh h]

theorem fate_fits {d : Dispatcher τ} {bytes : List UInt8}
    (fits : bytes.length ≤ d.config.maxPayloadSize) (op : ClientOpcode) :
    d.fate (.payload op.raw bytes) = d.course (.fresh (.client op) bytes d.config.maxPayloadSize) := by
  rw [fate, receive_raw, if_neg (Nat.not_lt.mpr fits)]

/-- What a payload comes to in front of its schema: its number is unknown, or it is
above the ceiling, or it makes a packet. -/
inductive Arrival (d : Dispatcher τ) (raw : UInt32) (bytes : List UInt8) : Prop
  | unknown (unknown : ∀ op : ClientOpcode, op.raw ≠ raw)
    (barred : d.receive raw bytes = .error (.unknownOpcode raw))
  | oversized (op : ClientOpcode) (known : op.raw = raw) (exceeds : d.config.maxPayloadSize < bytes.length)
    (barred : d.receive raw bytes = .error (.capacityExceeded bytes.length d.config.maxPayloadSize))
  | admitted (op : ClientOpcode) (known : op.raw = raw) (fits : bytes.length ≤ d.config.maxPayloadSize)
    (received : d.receive raw bytes = .ok (.fresh (.client op) bytes d.config.maxPayloadSize))

theorem arrival (d : Dispatcher τ) (raw : UInt32) (bytes : List UInt8) : d.Arrival raw bytes := by
  by_cases hraw : ∃ op : ClientOpcode, op.raw = raw
  · obtain ⟨op, rfl⟩ := hraw
    rcases Nat.lt_or_ge d.config.maxPayloadSize bytes.length with hover | hfits
    · exact .oversized op rfl hover (by rw [receive_raw, if_pos hover])
    · exact .admitted op rfl hfits (by rw [receive_raw, if_neg (Nat.not_lt.mpr hfits)])
  · have hunknown : ∀ op : ClientOpcode, op.raw ≠ raw := fun op hop => hraw ⟨op, hop⟩
    exact .unknown hunknown (receive_unknown d hunknown bytes)

theorem fate_barred {d : Dispatcher τ} {raw : UInt32} {bytes : List UInt8} {cause : CodecError}
    (barred : d.receive raw bytes = .error cause) : d.fate (.payload raw bytes) = .barred cause := by
  rw [fate, barred]

theorem fate_received {d : Dispatcher τ} {raw : UInt32} {bytes : List UInt8} {packet : Packet}
    (received : d.receive raw bytes = .ok packet) : d.fate (.payload raw bytes) = d.course packet := by
  rw [fate, received]

theorem messageCourse_unhandled {d : Dispatcher τ} {message : ClientMessage}
    (h : d.handler? message.opcode = none) : d.messageCourse message = .unhandled := by
  rw [messageCourse, h]

theorem messageCourse_handled {d : Dispatcher τ} {message : ClientMessage} {handler : Handler τ}
    (h : d.handler? message.opcode = some handler) :
    d.messageCourse message = handler.course message d.config.maxPayloadSize := by
  rw [messageCourse, h]

end Dispatcher

namespace Handler

variable {τ : Type}

theorem calls_course (handler : Handler τ) (message : ClientMessage) (limit : Nat) :
    (handler.course message limit).calls = [⟨handler.tag, message⟩] := by
  unfold course
  split
  · rfl
  · rfl
  · split <;> rfl

/-- The result of a call is the handler's: its failure, the packet of its reply,
the ceiling's refusal of the reply, or nothing if it does not reply. -/
structure Serves (handler : Handler τ) (message : ClientMessage) (limit : Nat)
    (result : Except Failure (Option Packet)) : Prop where
  failure : ∀ cause, handler.respond message = .error cause → result = .error (.refused cause)
  silence : handler.respond message = .ok none → result = .ok none
  reply : ∀ reply, handler.respond message = .ok (some reply) → reply.bytes.length ≤ limit →
    ∃ packet, result = .ok (some packet) ∧ packet.opcode = .server reply.opcode ∧
      packet.buffer.contents = reply.bytes
  excess : ∀ reply, handler.respond message = .ok (some reply) → limit < reply.bytes.length →
    ∃ size, limit < size ∧ size ≤ reply.bytes.length ∧
      result = .error (.refused (.capacityExceeded size limit))

theorem result_course (handler : Handler τ) (message : ClientMessage) (limit : Nat) :
    (handler.course message limit).result = match handler.respond message with
      | .error cause => .error (.refused cause)
      | .ok none => .ok none
      | .ok (some reply) => (reply.encodeWithLimit limit).1.map some := by
  unfold course
  rcases handler.respond message with cause | _ | reply
  · rfl
  · rfl
  · simp only [reply.encodeWithLimit_eq]
    cases reply.excess? limit <;> rfl

theorem serves_course (handler : Handler τ) (message : ClientMessage) (limit : Nat) :
    handler.Serves message limit (handler.course message limit).result where
  failure cause h := by rw [result_course, h]
  silence h := by rw [result_course, h]
  reply reply h hfits := by
    obtain ⟨packet, hencode, hopcode, hcontents⟩ := ServerMessage.encodeWithLimit_of_le hfits
    refine ⟨packet, ?_, hopcode, hcontents⟩
    rw [result_course, h]
    simp only [hencode, Except.map]
  excess reply h hexceeds := by
    obtain ⟨size, hlt, hle, hencode⟩ := ServerMessage.encodeWithLimit_of_lt hexceeds
    refine ⟨size, hlt, hle, ?_⟩
    rw [result_course, h]
    simp only [hencode, Except.map]

end Handler

/-! ## Every payload under every number -/

open Telemetry in
/-- Whatever the configuration, the history of registrations, the number, the
payload and the telemetry so far. Under a number of no client opcode the payload
is refused as such, and else, in this order, for its size above the ceiling, at
the first field of its opcode's schema that does not fit, or if no handler was
registered for the opcode; all of these call nobody. Otherwise the handler
registered last for the opcode is called, once, with the message that the payload
spells, nobody else is, and the result is what comes of this call. -/
theorem dispatchRaw_routes {τ : Type} (config : CodecConfig) (history : List (ClientOpcode × Handler τ))
    (raw : UInt32) (payload : List UInt8) (t : Telemetry τ) :
    let ending := (Dispatcher.registered config history).dispatchRaw raw payload t
    ((∀ op : ClientOpcode, op.raw ≠ raw) →
      outcome ending = .error (.refused (.unknownOpcode raw)) ∧ (left ending).calls = t.calls) ∧
    ∀ op : ClientOpcode, op.raw = raw →
      (config.maxPayloadSize < payload.length →
        outcome ending = .error (.refused (.capacityExceeded payload.length config.maxPayloadSize)) ∧
        (left ending).calls = t.calls) ∧
      (payload.length ≤ config.maxPayloadSize →
        (payload.length < Message.length payload (.client op) →
          ∃ before width after,
            Message.layout (opensWindow payload) (.client op) = before ++ width :: after ∧
            before.sum ≤ payload.length ∧ payload.length < before.sum + width ∧
            outcome ending = .error (.refused (.position before.sum payload.length width)) ∧
            (left ending).calls = t.calls) ∧
        (Message.length payload (.client op) ≤ payload.length →
          ((∀ entry ∈ history, entry.1 ≠ op) →
            outcome ending = .error (.refused .unexpectedMessage) ∧ (left ending).calls = t.calls) ∧
          ∀ earlier handler later, history = earlier ++ (op, handler) :: later →
            (∀ entry ∈ later, entry.1 ≠ op) →
            (left ending).calls = t.calls ++ [⟨handler.tag, .spelled payload op⟩] ∧
            handler.Serves (.spelled payload op) config.maxPayloadSize (outcome ending))) := by
  intro ending
  have hconfig : (Dispatcher.registered config history).config = config := by
    rw [Dispatcher.registered_eq]
  have hending : ending = _ := (Dispatcher.registered config history).handle_run (.payload raw payload) t
  have houtcome : outcome ending =
      ((Dispatcher.registered config history).fate (.payload raw payload)).result := by
    rw [hending, outcome_conclude]
  have hcalls : (left ending).calls =
      t.calls ++ ((Dispatcher.registered config history).fate (.payload raw payload)).calls := by
    rw [hending, left_conclude]
    rfl
  rw [houtcome, hcalls]
  refine ⟨?unknown, ?known⟩
  case unknown =>
    intro hunknown
    rw [Dispatcher.fate_unknown _ hunknown]
    exact ⟨rfl, List.append_nil _⟩
  case known =>
    rintro op rfl
    refine ⟨?oversized, fun hfits => ⟨?short, fun hlen => ⟨?unhandled, ?handled⟩⟩⟩
    case oversized =>
      intro hexceeds
      rw [Dispatcher.fate_oversized (by rwa [hconfig]), hconfig]
      exact ⟨rfl, List.append_nil _⟩
    case short =>
      intro hshort
      obtain ⟨before, width, after, hlayout, hle, hlt, hcourse⟩ :=
        Dispatcher.course_fresh_short hshort (.registered config history) config.maxPayloadSize
      rw [Dispatcher.fate_fits (by rwa [hconfig]), hconfig, hcourse]
      exact ⟨before, width, after, hlayout, hle, hlt, rfl, List.append_nil _⟩
    -- Behind the schema the message is the spelled one, and only its handler is in question.
    all_goals
      rw [Dispatcher.fate_fits (by rwa [hconfig]), Dispatcher.course_fresh hlen]
    case unhandled =>
      intro hnone
      rw [Dispatcher.messageCourse_unhandled
        (by rw [ClientMessage.opcode_spelled]; exact Dispatcher.handler?_registered_none hnone)]
      exact ⟨rfl, List.append_nil _⟩
    case handled =>
      rintro earlier handler later rfl hlast
      rw [Dispatcher.messageCourse_handled
        (by rw [ClientMessage.opcode_spelled]; exact Dispatcher.handler?_registered hlast), hconfig]
      exact ⟨by rw [handler.calls_course], handler.serves_course _ _⟩

/-- A desk that answers flights with its second handler of them, and opens maps. -/
def flightDesk : List (ClientOpcode × Handler Nat) :=
  [(.activateTaxi, ⟨1, fun _ => .error (.custom "closed")⟩),
    (.taxiQueryAvailableNodes, ⟨2, fun _ => .ok (some (.showTaxiNodes (some ⟨⟨1, 2⟩, 3⟩) ⟨4⟩ ⟨5⟩))⟩),
    (.activateTaxi, ⟨3, fun _ => .ok (some (.activateTaxiReply 0))⟩)]

open Telemetry in
/-- A server's number, a payload above a ceiling of thirty bytes, one that ends in
front of the first mount, one that nobody takes, one that is answered, and one whose
answer passes the ceiling. -/
theorem dispatchRaw_routes_flightDesk :
    let d := Dispatcher.registered ⟨30, false, true⟩ flightDesk
    let t := Telemetry.opened none
    outcome (d.dispatchRaw 0x2670 [] t) = .error (.refused (.unknownOpcode 0x2670)) ∧
      outcome (d.dispatchRaw 0x34A3 (.replicate 31 7) t) = .error (.refused (.capacityExceeded 31 30)) ∧
      (∃ pos width, outcome (d.dispatchRaw 0x34A3 (.replicate 22 7) t) =
        .error (.refused (.position pos 22 width)) ∧ pos ≤ 22 ∧ 22 < pos + width) ∧
      outcome (d.dispatchRaw 0x34A1 (.replicate 16 7) t) = .error (.refused .unexpectedMessage) ∧
      (∃ packet, outcome (d.dispatchRaw 0x34A3 (.replicate 28 7) t) = .ok (some packet) ∧
        packet.buffer.contents = [0] ∧
        (left (d.dispatchRaw 0x34A3 (.replicate 28 7) t)).calls =
          [⟨3, .activateTaxi ⟨0x0707070707070707, 0x0707070707070707⟩ 0x07070707 0x07070707 0x07070707⟩]) ∧
      ∃ size, 30 < size ∧ outcome (d.dispatchRaw 0x34A2 (.replicate 16 7) t) =
        .error (.refused (.capacityExceeded size 30)) := by
  intro d t
  have hroutes := fun raw payload => dispatchRaw_routes ⟨30, false, true⟩ flightDesk raw payload t
  refine ⟨?_, ?_, ?_, ?_, ?_, ?_⟩
  · exact ((hroutes 0x2670 []).1 (fun op => by cases op <;> decide)).1
  · exact (((hroutes 0x34A3 (.replicate 31 7)).2 .activateTaxi rfl).1 (by decide)).1
  · obtain ⟨before, width, after, -, hle, hlt, houtcome, -⟩ :=
      (((hroutes 0x34A3 (.replicate 22 7)).2 .activateTaxi rfl).2 (by decide)).1 (by decide)
    exact ⟨before.sum, width, houtcome, hle, hlt⟩
  · exact (((((hroutes 0x34A1 (.replicate 16 7)).2 .enableTaxiNode rfl).2 (by decide)).2 (by decide)).1
      (by decide)).1
  · obtain ⟨hcalls, hserves⟩ :=
      (((hroutes 0x34A3 (.replicate 28 7)).2 .activateTaxi rfl).2 (by decide)).2 (by decide) |>.2
        (flightDesk.take 2) _ [] rfl (by decide)
    obtain ⟨packet, houtcome, -, hcontents⟩ := hserves.reply (.activateTaxiReply 0) rfl (by decide)
    exact ⟨packet, houtcome, hcontents, hcalls⟩
  · obtain ⟨-, hserves⟩ :=
      (((hroutes 0x34A2 (.replicate 16 7)).2 .taxiQueryAvailableNodes rfl).2 (by decide)).2 (by decide) |>.2
        (flightDesk.take 1) _ (flightDesk.drop 2) rfl (by decide)
    obtain ⟨size, hlt, -, houtcome⟩ := hserves.excess _ rfl (by decide)
    exact ⟨size, hlt, houtcome⟩

end PacketWire
