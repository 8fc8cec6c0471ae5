/-
Client packets, decoded and routed to the handler of their opcode.

A dispatch counts the packet, decodes it, hands the message to the handler
registered last for its opcode and encodes the reply. What happens on the way
goes to the `Telemetry`: counters, log records, and the calls made to
handlers. A handler is a pure function of the message; its tag tells
registrations apart.
-/
import PacketWire.Buffer.Dump
import PacketWire.Config.Basic
import PacketWire.Packet

namespace PacketWire

/-- What a handler makes of a message: no reply, a reply, or a failure. -/
abbrev Reply := Except CodecError (Option ServerMessage)

/-- A registered handler. -/
structure Handler (τ : Type) where
  tag : τ
  respond : ClientMessage → Reply

/-- A call that was made to a handler. -/
structure Call (τ : Type) where
  tag : τ
  message : ClientMessage
deriving DecidableEq

/-- What is known of a dispatcher's work so far. -/
structure Telemetry (τ : Type) where
  metrics : Metrics
  journal : Journal
  calls : List (Call τ)
deriving DecidableEq

structure Dispatcher (τ : Type) where
  config : CodecConfig
  /-- The handlers, the one registered last first. -/
  handlers : List (ClientOpcode × Handler τ)

/-- A step of a dispatcher's work. -/
abbrev DispatchM (τ : Type) := EStateM Failure (Telemetry τ)

namespace Telemetry

variable {τ : Type}

/-- No work done yet. -/
def opened (verbosity : Option Level) : Telemetry τ := ⟨.zero, .opened verbosity, []⟩

def count (f : Metrics → Metrics) : DispatchM τ Unit :=
  modify fun t => { t with metrics := f t.metrics }

def log (e : Event) : DispatchM τ Unit :=
  modify fun t => { t with journal := t.journal.record e }

/-- The result of a part of the work that logs on its own. -/
def logged {α : Type} (outcome : Except Failure α × List Event) : DispatchM τ (Except Failure α) := do
  modify fun t => { t with journal := t.journal.recordAll outcome.2 }
  return outcome.1

/-- The result, if there is one; else the cause is reported and the work ends. -/
def orReport {α : Type} (result : Except Failure α) (report : CodecError → DispatchM τ Unit) :
    DispatchM τ α :=
  match result with
  | .ok value => pure value
  | .error (.refused cause) => do
    report cause
    throw (.refused cause)
  | .error .overrun => throw .overrun

/-- Logs the counters. -/
def logMetrics : DispatchM τ Unit := do
  log (.metricsSnapshot (← get).metrics)

end Telemetry

namespace Dispatcher

open Telemetry

variable {τ : Type}

/-- A dispatcher without handlers. -/
def withConfig (config : CodecConfig) : Dispatcher τ := ⟨config, []⟩

/-- From now on the handler takes the messages of the opcode. -/
def register (d : Dispatcher τ) (opcode : ClientOpcode) (handler : Handler τ) : Dispatcher τ :=
  { d with handlers := (opcode, handler) :: d.handlers }

/-- The handler of an opcode. -/
def handler? (d : Dispatcher τ) (opcode : ClientOpcode) : Option (Handler τ) :=
  d.handlers.lookup opcode

def isRegistered (d : Dispatcher τ) (opcode : ClientOpcode) : Bool := (d.handler? opcode).isSome

/-- Encodes a reply and counts the packet made. -/
def send (d : Dispatcher τ) (reply : ServerMessage) : DispatchM τ Packet := do
  let encoded ← logged (reply.encodeWithLimit d.config.maxPayloadSize)
  let packet ← orReport encoded fun cause => do
    count (·.codecError cause)
    log (.replyNotEncoded cause (.server reply.opcode))
  count (·.sent packet.buffer.size.toUInt64)
  return packet

/-- Calls a handler. -/
def call (handler : Handler τ) (message : ClientMessage) : DispatchM τ (Option ServerMessage) := do
  modify fun t => { t with calls := t.calls ++ [⟨handler.tag, message⟩] }
  orReport ((handler.respond message).mapError .refused) fun cause => do
    count (·.handlerError)
    log (.handlerFailed cause)

/-- A dispatch up to its closing record. -/
def route (d : Dispatcher τ) (packet : Packet) : DispatchM τ (Option Packet) := do
  count (·.received packet.buffer.size.toUInt64)
  if d.config.dumpInbound then
    (packet.buffer.dumpTo ((← get).journal.enabled .trace) .hexadecimal).forM fun text =>
      log (.payloadDump text)
  let decoded ← logged (ClientMessage.decode packet d.config.warnOnTrailingBytes)
  let message ← orReport decoded fun cause => do
    count (·.codecError cause)
    log (.packetDropped cause)
  match d.handler? message.opcode with
  | none =>
    count (·.unhandled)
    throw (.refused .unexpectedMessage)
  | some handler =>
    match ← call handler message with
    | none => return none
    | some reply => return some (← d.send reply)

/-- Decodes a packet, runs its handler and encodes the reply, if there is one. -/
def dispatch (d : Dispatcher τ) (packet : Packet) : DispatchM τ (Option Packet) := fun t =>
  match d.route packet t with
  | .ok reply t => (log (.operationCompleted "dispatch") *> pure reply : DispatchM τ _) t
  | .error failure t => (log (.operationCompleted "dispatch") *> throw failure : DispatchM τ _) t

/-- Dispatches a payload that arrived under the number of a client opcode. -/
def dispatchRaw (d : Dispatcher τ) (raw : UInt32) (payload : List UInt8) :
    DispatchM τ (Option Packet) := do
  let opcode ← orReport ((ClientOpcode.ofRaw raw).mapError .refused) fun cause => do
    count (·.codecError cause)
    log (.unknownOpcode raw)
  let packet ← orReport
    ((Packet.inboundWithLimit (.client opcode) payload d.config.maxPayloadSize).mapError .refused)
    fun cause => count (·.codecError cause)
  d.dispatch packet

end Dispatcher

end PacketWire
