/-
Counters one by one, and what is recorded with them.

A failure of the codec is counted exactly if malformed input is its cause, and then
under one of the counters that the total sums up (`isMalformed_counter?`). Each
recording adds its `gain` to a counter (`value_record`), and a run of them the
sum of these (`value_recordAll`). So the total is the number of failures that are
malformed input, as long as no counter wraps (`counted_as_classified`).
-/
import Mathlib.Algebra.Order.BigOperators.Group.List
import Mathlib.Algebra.Order.Ring.Nat
import PacketWire.Metrics

namespace PacketWire

/-! ## Counters -/

/-- The counters, by name. -/
inductive Counter
  | packetsReceived
  | packetsSent
  | bytesReceived
  | bytesSent
  | positionErrors
  | invalidValueErrors
  | capacityErrors
  | unknownOpcodes
  | unhandledOpcodes
  | handlerErrors
deriving DecidableEq

namespace Counter

def value (m : Metrics) : Counter → UInt64
  | packetsReceived => m.packetsReceived
  | packetsSent => m.packetsSent
  | bytesReceived => m.bytesReceived
  | bytesSent => m.bytesSent
  | positionErrors => m.positionErrors
  | invalidValueErrors => m.invalidValueErrors
  | capacityErrors => m.capacityErrors
  | unknownOpcodes => m.unknownOpcodes
  | unhandledOpcodes => m.unhandledOpcodes
  | handlerErrors => m.handlerErrors

/-- The counter counts failures. -/
def isError : Counter → Bool
  | packetsReceived | packetsSent | bytesReceived | bytesSent => false
  | _ => true

/-- The counter is one of those that the total sums up. -/
def isMalformed : Counter → Bool
  | positionErrors | invalidValueErrors | capacityErrors | unknownOpcodes => true
  | _ => false

end Counter

/-- Counters that agree one by one are the same. -/
theorem Metrics.eq_of_value {m m' : Metrics} (h : ∀ c : Counter, c.value m = c.value m') : m = m' := by
  obtain ⟨_, _, _, _, _, _, _, _, _, _⟩ := m
  obtain ⟨_, _, _, _, _, _, _, _, _, _⟩ := m'
  simp only [Metrics.mk.injEq]
  exact ⟨h .packetsReceived, h .packetsSent, h .bytesReceived, h .bytesSent, h .positionErrors,
    h .invalidValueErrors, h .capacityErrors, h .unknownOpcodes, h .unhandledOpcodes, h .handlerErrors⟩

/-! ## Failures -/

/-- The counter of a failure of the codec. -/
def CodecError.counter? : CodecError → Option Counter
  | position .. => some .positionErrors
  | invalidValue .. => some .invalidValueErrors
  | capacityExceeded .. => some .capacityErrors
  | unknownOpcode _ => some .unknownOpcodes
  | _ => none

/-- The causes that are counted in the total are those that are malformed input. -/
theorem CodecError.isMalformed_counter? (cause : CodecError) :
    cause.counter?.any Counter.isMalformed = cause.isMalformedInput := by
  cases cause <;> rfl

/-- Malformed input is counted, and no other cause. -/
theorem CodecError.isSome_counter? (cause : CodecError) : cause.counter?.isSome = cause.isMalformedInput := by
  cases cause <;> rfl

theorem CodecError.isMalformed_of_counter? {cause : CodecError} {c : Counter} (h : cause.counter? = some c) :
    c.isMalformed := by
  cases cause <;> cases h <;> rfl

namespace Counter

/-- What the counter gains from a failure that is counted under `raised`. -/
def ofError (c : Counter) (raised : Option Counter) : Nat := if raised = some c then 1 else 0

theorem ofError_le_one (c : Counter) (raised : Option Counter) : c.ofError raised ≤ 1 := by
  rw [ofError]
  split <;> decide

theorem sum_ofError (raised : Option Counter) :
    positionErrors.ofError raised + invalidValueErrors.ofError raised + capacityErrors.ofError raised +
      unknownOpcodes.ofError raised = (raised.any isMalformed).toNat := by
  cases raised with
  | none => rfl
  | some c => cases c <;> rfl

theorem value_codecError (c : Counter) (m : Metrics) (cause : CodecError) :
    c.value (m.codecError cause) = c.value m + .ofNat (c.ofError cause.counter?) := by
  cases cause <;> cases c <;> simp [value, Metrics.codecError, CodecError.counter?, ofError]

theorem value_unhandled (c : Counter) (m : Metrics) :
    c.value m.unhandled = c.value m + .ofNat (c.ofError (some unhandledOpcodes)) := by
  cases c <;> simp [value, Metrics.unhandled, ofError]

theorem value_handlerError (c : Counter) (m : Metrics) :
    c.value m.handlerError = c.value m + .ofNat (c.ofError (some handlerErrors)) := by
  cases c <;> simp [value, Metrics.handlerError, ofError]

end Counter

namespace Metrics

/-- The total grows by what its four counters gain. -/
theorem malformedTotal_of_gain {m m' : Metrics} {gain : Counter → Nat}
    (h : ∀ c : Counter, c.value m' = c.value m + .ofNat (gain c)) :
    m'.malformedTotal = m.malformedTotal + .ofNat (gain .positionErrors + gain .invalidValueErrors +
      gain .capacityErrors + gain .unknownOpcodes) := by
  have hposition := h .positionErrors
  have hinvalid := h .invalidValueErrors
  have hcapacity := h .capacityErrors
  have hunknown := h .unknownOpcodes
  simp only [Counter.value] at hposition hinvalid hcapacity hunknown
  rw [malformedTotal, malformedTotal, hposition, hinvalid, hcapacity, hunknown]
  simp only [UInt64.ofNat_add]
  ac_rfl

/-- One counter was raised, by one and without wrapping, and all others are as they were. -/
def RaisesOne (before after : Metrics) : Prop :=
  ∃ c : Counter, (c.value after).toNat = (c.value before).toNat + 1 ∧
    ∀ other : Counter, other ≠ c → other.value after = other.value before

theorem raisesOne_codecError {m : Metrics} {cause : CodecError} {c : Counter}
    (h : cause.counter? = some c) (room : (c.value m).toNat + 1 < 2 ^ 64) :
    m.RaisesOne (m.codecError cause) := by
  refine ⟨c, ?_, fun other hother => ?_⟩
  · rw [c.value_codecError, h, Counter.ofError, if_pos rfl, UInt64.toNat_add]
    exact Nat.mod_eq_of_lt room
  · have hgain : other.ofError cause.counter? = 0 :=
      if_neg fun hsome => hother (Option.some.inj (hsome.symm.trans h))
    rw [other.value_codecError, hgain]
    exact UInt64.add_zero _

/-- A failure that is no malformed input is counted nowhere. -/
theorem codecError_of_not_isMalformedInput {m : Metrics} {cause : CodecError}
    (h : cause.isMalformedInput = false) : m.codecError cause = m := by
  have hnone : cause.counter? = none := by
    rw [← Option.not_isSome_iff_eq_none, cause.isSome_counter?, h]
    decide
  refine eq_of_value fun c => ?_
  rw [c.value_codecError, hnone]
  exact UInt64.add_zero _

end Metrics

/-! ## Recordings -/

/-- A sum of zeros and ones is a count. -/
theorem sum_map_toNat {α : Type} (p : α → Bool) (l : List α) : (l.map fun a => (p a).toNat).sum = l.countP p := by
  induction l with
  | nil => rfl
  | cons a l ih =>
    rw [List.map_cons, List.sum_cons, ih, List.countP_cons, Nat.add_comm]
    cases p a <;> rfl

/-- What is recorded with the counters. -/
inductive Recording
  | received (bytes : UInt64)
  | sent (bytes : UInt64)
  | codecError (cause : CodecError)
  | unhandled
  | handlerError
deriving DecidableEq

namespace Metrics

/-- Counts what is recorded. -/
def record (m : Metrics) : Recording → Metrics
  | .received bytes => m.received bytes
  | .sent bytes => m.sent bytes
  | .codecError cause => m.codecError cause
  | .unhandled => m.unhandled
  | .handlerError => m.handlerError

/-- Counts recordings in turn. -/
def recordAll (m : Metrics) (recordings : List Recording) : Metrics := recordings.foldl record m

end Metrics

namespace Recording

/-- A failure of the codec with malformed input as its cause. -/
def isMalformed : Recording → Bool
  | codecError cause => cause.isMalformedInput
  | _ => false

/-- The bytes that come in. -/
def bytesIn : Recording → Nat
  | received bytes => bytes.toNat
  | _ => 0

/-- The bytes that go out. -/
def bytesOut : Recording → Nat
  | sent bytes => bytes.toNat
  | _ => 0

/-- What a counter gains. -/
def gain : Recording → Counter → Nat
  | received _, .packetsReceived => 1
  | received bytes, .bytesReceived => bytes.toNat
  | sent _, .packetsSent => 1
  | sent bytes, .bytesSent => bytes.toNat
  | codecError cause, c => c.ofError cause.counter?
  | unhandled, c => c.ofError (some .unhandledOpcodes)
  | handlerError, c => c.ofError (some .handlerErrors)
  | _, _ => 0

theorem gain_le_one (r : Recording) {c : Counter} (hin : c ≠ .bytesReceived) (hout : c ≠ .bytesSent) :
    r.gain c ≤ 1 := by
  cases r with
  | received | sent => cases c <;> simp_all [gain]
  | codecError | unhandled | handlerError => exact c.ofError_le_one _

theorem gain_bytesReceived (r : Recording) : r.gain .bytesReceived = r.bytesIn := by
  cases r with
  | codecError cause => cases cause <;> rfl
  | _ => rfl

theorem gain_bytesSent (r : Recording) : r.gain .bytesSent = r.bytesOut := by
  cases r with
  | codecError cause => cases cause <;> rfl
  | _ => rfl

/-- A counter of events gains one at most from each recording. -/
theorem sum_gain_le {recordings : List Recording} {c : Counter} (hin : c ≠ .bytesReceived)
    (hout : c ≠ .bytesSent) : (recordings.map (·.gain c)).sum ≤ recordings.length := by
  induction recordings with
  | nil => exact Nat.le_refl 0
  | cons r recordings ih =>
    rw [List.map_cons, List.sum_cons, List.length_cons]
    have hone := r.gain_le_one hin hout
    omega

/-- The total gains one from malformed input, and nothing from all else. -/
theorem malformed_gain (r : Recording) :
    r.gain .positionErrors + r.gain .invalidValueErrors + r.gain .capacityErrors +
      r.gain .unknownOpcodes = r.isMalformed.toNat := by
  cases r with
  | codecError cause =>
    have hsum := Counter.sum_ofError cause.counter?
    rwa [cause.isMalformed_counter?] at hsum
  | _ => rfl

theorem sum_malformed_gain (recordings : List Recording) :
    (recordings.map (·.gain .positionErrors)).sum + (recordings.map (·.gain .invalidValueErrors)).sum +
      (recordings.map (·.gain .capacityErrors)).sum + (recordings.map (·.gain .unknownOpcodes)).sum =
      recordings.countP (·.isMalformed) := by
  simp only [← sum_map_toNat, ← List.sum_map_add, malformed_gain]

end Recording

namespace Counter

theorem value_record (c : Counter) (m : Metrics) (r : Recording) :
    c.value (m.record r) = c.value m + .ofNat (r.gain c) := by
  cases r with
  | received | sent => cases c <;> simp [value, Metrics.record, Metrics.received, Metrics.sent, Recording.gain]
  | codecError cause => exact c.value_codecError m cause
  | unhandled => exact c.value_unhandled m
  | handlerError => exact c.value_handlerError m

theorem value_recordAll (c : Counter) (m : Metrics) (recordings : List Recording) :
    c.value (m.recordAll recordings) = c.value m + .ofNat (recordings.map (·.gain c)).sum := by
  induction recordings generalizing m with
  | nil => exact (UInt64.add_zero _).symm
  | cons r recordings ih =>
    have hlater : c.value ((m.record r).recordAll recordings) = _ := ih (m.record r)
    rw [value_record, UInt64.add_assoc, ← UInt64.ofNat_add, ← List.sum_cons] at hlater
    exact hlater

end Counter

/-! ## What a run comes to -/

namespace Metrics

theorem malformedTotal_recordAll (m : Metrics) (recordings : List Recording) :
    (m.recordAll recordings).malformedTotal =
      m.malformedTotal + .ofNat (recordings.countP (·.isMalformed)) := by
  rw [malformedTotal_of_gain fun c => c.value_recordAll m recordings, Recording.sum_malformed_gain]

/-- A cleared counter comes to the sum of its gains, in a word. -/
theorem toNat_value_recordAll (c : Counter) (recordings : List Recording) :
    (c.value (zero.recordAll recordings)).toNat = (recordings.map (·.gain c)).sum % 2 ^ 64 := by
  have hzero : c.value zero = 0 := by cases c <;> rfl
  rw [c.value_recordAll, hzero, UInt64.zero_add]
  exact UInt64.toNat_ofNat

/-- A counter of events does not wrap behind fewer recordings than a word counts. -/
theorem toNat_value_events {recordings : List Recording} (h : recordings.length < 2 ^ 64) {c : Counter}
    (hin : c ≠ .bytesReceived) (hout : c ≠ .bytesSent) :
    (c.value (zero.recordAll recordings)).toNat = (recordings.map (·.gain c)).sum := by
  rw [toNat_value_recordAll]
  exact Nat.mod_eq_of_lt (lt_of_le_of_lt (Recording.sum_gain_le hin hout) h)

/-- Behind fewer recordings than a word counts, a failure that is malformed input
raises one counter. -/
theorem raisesOne_of_isMalformedInput {recordings : List Recording} (h : recordings.length + 1 < 2 ^ 64)
    {cause : CodecError} (malformed : cause.isMalformedInput = true) :
    (zero.recordAll recordings).RaisesOne ((zero.recordAll recordings).codecError cause) := by
  obtain ⟨c, hc⟩ := Option.isSome_iff_exists.mp (cause.isSome_counter?.trans malformed)
  have hcounted : c.isMalformed := CodecError.isMalformed_of_counter? hc
  have hin : c ≠ .bytesReceived := by
    rintro rfl
    cases hcounted
  have hout : c ≠ .bytesSent := by
    rintro rfl
    cases hcounted
  have hle : (recordings.map (·.gain c)).sum ≤ recordings.length := Recording.sum_gain_le hin hout
  have hvalue := toNat_value_events (Nat.lt_of_succ_lt h) hin hout
  exact raisesOne_codecError hc (by omega)

end Metrics

/-- Fewer than 2 ^ 64 recordings with cleared counters, whatever they are and in
whatever order: the total is the number of failures that are malformed input, and
its sum does not wrap. Each such failure raises one counter of all, and a failure
with another cause raises none. The bytes are those recorded, in a word. -/
theorem counted_as_classified (recordings : List Recording) (h : recordings.length < 2 ^ 64) :
    let m := Metrics.zero.recordAll recordings
    m.malformedTotal.toNat = recordings.countP (·.isMalformed) ∧
    m.positionErrors.toNat + m.invalidValueErrors.toNat + m.capacityErrors.toNat +
      m.unknownOpcodes.toNat = recordings.countP (·.isMalformed) ∧
    (∀ before cause after, recordings = before ++ .codecError cause :: after →
      let sofar := Metrics.zero.recordAll before
      (cause.isMalformedInput = true → sofar.RaisesOne (sofar.codecError cause)) ∧
      (cause.isMalformedInput = false → sofar.codecError cause = sofar)) ∧
    m.bytesReceived.toNat = (recordings.map (·.bytesIn)).sum % 2 ^ 64 ∧
    m.bytesSent.toNat = (recordings.map (·.bytesOut)).sum % 2 ^ 64 := by
  intro m
  refine ⟨?total, ?sum, ?each, ?received, ?sent⟩
  case total =>
    have htotal : m.malformedTotal = .ofNat (recordings.countP (·.isMalformed)) :=
      (Metrics.malformedTotal_recordAll .zero recordings).trans (UInt64.zero_add _)
    rw [htotal, UInt64.toNat_ofNat_of_lt' (lt_of_le_of_lt List.countP_le_length h)]
  case sum =>
    -- Four counters of events, of which none wraps.
    have hposition := Metrics.toNat_value_events h (c := .positionErrors) nofun nofun
    have hinvalid := Metrics.toNat_value_events h (c := .invalidValueErrors) nofun nofun
    have hcapacity := Metrics.toNat_value_events h (c := .capacityErrors) nofun nofun
    have hunknown := Metrics.toNat_value_events h (c := .unknownOpcodes) nofun nofun
    simp only [Counter.value] at hposition hinvalid hcapacity hunknown
    rw [hposition, hinvalid, hcapacity, hunknown, Recording.sum_malformed_gain]
  case each =>
    intro before cause after hsplit sofar
    have hlength : before.length + 1 < 2 ^ 64 := by
      rw [hsplit, List.length_append, List.length_cons] at h
      omega
    exact ⟨Metrics.raisesOne_of_isMalformedInput hlength, Metrics.codecError_of_not_isMalformedInput⟩
  case received =>
    have hbytes := Metrics.toNat_value_recordAll .bytesReceived recordings
    simp only [Recording.gain_bytesReceived] at hbytes
    exact hbytes
  case sent =>
    have hbytes := Metrics.toNat_value_recordAll .bytesSent recordings
    simp only [Recording.gain_bytesSent] at hbytes
    exact hbytes

/-- An hour with two failures that are malformed input before one that is not, and two
more behind it; the bytes that come in pass a word by sixteen. -/
def busyHour : List Recording :=
  [.received 17, .received 0xFFFFFFFFFFFFFFFF, .codecError (.position 0 0 4),
    .codecError (.invalidValue "string" "x"), .codecError .unexpectedMessage, .sent 4,
    .codecError (.unknownOpcode 1), .unhandled, .codecError (.capacityExceeded 65 64), .handlerError]

theorem counted_as_classified_busyHour :
    let m := Metrics.zero.recordAll busyHour
    let sofar := Metrics.zero.recordAll (busyHour.take 2)
    let later := Metrics.zero.recordAll (busyHour.take 4)
    m.malformedTotal.toNat = 4 ∧ m.bytesReceived.toNat = 16 ∧ m.bytesSent.toNat = 4 ∧
      sofar.RaisesOne (sofar.codecError (.position 0 0 4)) ∧
      later.codecError .unexpectedMessage = later := by
  intro m sofar later
  obtain ⟨htotal, -, heach, hin, hout⟩ := counted_as_classified busyHour (by decide)
  exact ⟨htotal, hin, hout, (heach (busyHour.take 2) _ _ rfl).1 rfl, (heach (busyHour.take 4) _ _ rfl).2 rfl⟩

end PacketWire
