/-
From which ceiling on a message is encoded.

`ServerMessage.milestones` are the sizes that a message passes through, the last of
which is its length. Under a ceiling of its length or more it makes a packet, always of
the same bytes, in the room that was there before the first of them was stored
(`Fits`). Under a lower one it is refused with the least of the sizes that pass the
ceiling (`encodeWithLimit_threshold`).
-/
import PacketWire.Proofs.Buffer.Storing
import PacketWire.Proofs.Encode

namespace PacketWire

open Buffer

namespace Buffer

theorem Stable.foldl_place {P : Buffer → Prop} (hP : Stable P) : ∀ (runs : List (List UInt8)) {b : Buffer}, P b →
    P (runs.foldl Buffer.place b)
  | [], _, h => h
  | run :: runs, _, h => hP.foldl_place runs (hP.place run h)

/-- Runs that a small packet has room for are stored in the room that there is. -/
theorem capacity_foldl_place {b : Buffer} (hend : b.AtEnd) (hempty : b.size = 0) {runs : List (List UInt8)}
    (hroom : runs.flatten.length ≤ b.capacity) (hsmall : runs.flatten.length < 100) :
    (runs.foldl place b).capacity = b.capacity := by
  have hstart : b.capacity = roomFor b.capacity b.size := by
    rw [roomFor, hempty, if_pos (by omega)]
  have hgrown : (runs.foldl place b).capacity = roomFor b.capacity (runs.foldl place b).size :=
    (stable_grown b.capacity).foldl_place runs hstart
  have hsize : (runs.foldl place b).size = runs.flatten.length := by
    rw [(stored_foldl runs hend).size, hempty, Nat.zero_add]
  rw [hgrown, hsize, roomFor, if_pos ⟨hsmall, hroom⟩]

/-- The last of the sizes is that of all the runs. -/
theorem getLast?_sizesFrom : ∀ {runs : List (List UInt8)} {start : Nat}, runs ≠ [] →
    (sizesFrom start runs).getLast? = some (start + runs.flatten.length)
  | [run], start, _ => by simp [sizesFrom]
  | run :: next :: runs, start, _ => by
    have hrest : (sizesFrom (start + run.length) (next :: runs)).getLast? =
        some (start + run.length + (next :: runs).flatten.length) := getLast?_sizesFrom (by simp)
    have hflatten : (run :: next :: runs).flatten.length = run.length + (next :: runs).flatten.length := by
      rw [List.flatten_cons, List.length_append]
    rw [hflatten, ← Nat.add_assoc, ← hrest, sizesFrom, sizesFrom, List.getLast?_cons_cons]

end Buffer

/-- What passes in an ascending list is no less than the first that does. -/
theorem le_of_find?_eq_some {sizes : List Nat} (hasc : sizes.Pairwise (· < ·)) {p : Nat → Bool} {size other : Nat}
    (h : sizes.find? p = some size) (hother : other ∈ sizes) (hpass : p other = true) : size ≤ other := by
  obtain ⟨-, before, after, rfl, hbefore⟩ := List.find?_eq_some_iff_append.mp h
  obtain ⟨-, hlater, -⟩ := List.pairwise_append.mp hasc
  rcases List.mem_append.mp hother with hin | hin
  · have hnot := hbefore other hin
    rw [hpass] at hnot
    cases hnot
  · rcases List.mem_cons.mp hin with rfl | hin
    · exact Nat.le_refl _
    · exact Nat.le_of_lt (List.rel_of_pairwise_cons hlater hin)

/-- The first that passes in an ascending list is the least that does. -/
theorem find?_eq_some_iff_least {sizes : List Nat} (hasc : sizes.Pairwise (· < ·)) {p : Nat → Bool} {size : Nat} :
    sizes.find? p = some size ↔
      size ∈ sizes ∧ p size = true ∧ ∀ other ∈ sizes, p other = true → size ≤ other := by
  constructor
  · intro h
    exact ⟨List.mem_of_find?_eq_some h, List.find?_some h, fun _ => le_of_find?_eq_some hasc h⟩
  · rintro ⟨hmem, hpass, hleast⟩
    cases h : sizes.find? p with
    | none => exact absurd hpass (List.find?_eq_none.mp h size hmem)
    | some first =>
      have hle : first ≤ size := le_of_find?_eq_some hasc h hmem hpass
      have hge : size ≤ first := hleast first (List.mem_of_find?_eq_some h) (List.find?_some h)
      rw [Nat.le_antisymm hle hge]

namespace ServerMessage

/-- The sizes that a message's fields reach in turn: a status and its guid; a map's
flag, with a window its guid and node, and either mask; a path; a reply. -/
def milestones : ServerMessage → List Nat
  | taxiNodeStatus .. => [1, 17]
  | showTaxiNodes none _ _ => [1, 9, 17]
  | showTaxiNodes (some _) _ _ => [1, 17, 21, 29, 37]
  | newTaxiPath _ => [4]
  | activateTaxiReply _ => [1]

theorem sizes_eq_milestones (m : ServerMessage) : m.sizes = m.milestones := by
  cases m with
  | showTaxiNodes window canLand canUse =>
    cases window <;>
      simp [sizes, fields, sizesFrom, milestones, NodeMask.length_encode, Guid.size, ScalarType.size]
  | _ => simp [sizes, fields, sizesFrom, milestones, Guid.size, ScalarType.size]

theorem milestones_ascending (m : ServerMessage) : m.milestones.Pairwise (· < ·) := by
  cases m with
  | showTaxiNodes window canLand canUse => cases window <;> simp [milestones]
  | _ => simp [milestones]

theorem getLast?_milestones (m : ServerMessage) : m.milestones.getLast? = some m.bytes.length := by
  have hne : m.fields ≠ [] := by cases m <;> simp [fields]
  rw [← sizes_eq_milestones, sizes, getLast?_sizesFrom hne, flatten_fields, Nat.zero_add]

/-- Room is made for the longest message of the kind. -/
theorem le_sizeHint (m : ServerMessage) : ∀ size ∈ m.milestones, size ≤ sizeHint m.opcode := by
  cases m with
  | showTaxiNodes window canLand canUse =>
    cases window <;> simp [milestones, sizeHint, opcode, Guid.size, NodeMask.size]
  | _ => simp [milestones, sizeHint, opcode, Guid.size]

theorem capacity_blank (m : ServerMessage) (limit : Nat) :
    (m.blank limit).capacity = min (sizeHint m.opcode) limit := by
  have hceiling : ∀ op, sizeHint op ≤ maxPayloadSize := by
    intro op
    cases op <;> decide
  have hhint : min (sizeHint m.opcode) limit ≤ maxPayloadSize :=
    Nat.le_trans (Nat.min_le_left ..) (hceiling m.opcode)
  exact Nat.min_eq_left hhint

/-- A packet that a message makes under a ceiling that it fits. -/
structure Fits (m : ServerMessage) (limit : Nat) (packet : Packet) : Prop where
  opcode : packet.opcode = .server m.opcode
  contents : packet.buffer.contents = m.bytes
  wpos : packet.buffer.wpos = m.bytes.length
  pending : packet.buffer.pending = []
  capacity : packet.buffer.capacity = min (sizeHint m.opcode) limit
  /-- It was written field by field to an empty buffer. -/
  written : packet.buffer = m.fields.foldl place (m.blank limit)
  /-- The room was there before the first field, and no field made it grow. -/
  room : ∀ taken, taken <+: m.fields →
    (taken.foldl place (m.blank limit)).capacity = (m.blank limit).capacity

theorem fits_packet {m : ServerMessage} {limit : Nat} (h : m.bytes.length ≤ limit) :
    Fits m limit (m.packet limit) := by
  have hhint := m.le_sizeHint _ (List.mem_of_getLast? m.getLast?_milestones)
  have hmost := m.length_bytes_le
  have hroom : ∀ taken, taken <+: m.fields →
      (taken.foldl place (m.blank limit)).capacity = (m.blank limit).capacity := by
    rintro taken ⟨rest, hrest⟩
    have hle : taken.flatten.length ≤ m.bytes.length := by
      rw [← flatten_fields, ← hrest, List.flatten_append, List.length_append]
      exact Nat.le_add_right ..
    exact capacity_foldl_place (m.atEnd_blank limit) rfl (by rw [capacity_blank]; omega) (by omega)
  exact {
    opcode := rfl
    contents := m.contents_packet limit
    wpos := by rw [(m.stored_packet limit).atEnd.2, size_packet]
    pending := (m.stored_packet limit).atEnd.1
    capacity := (hroom m.fields (List.prefix_refl _)).trans (m.capacity_blank limit)
    written := rfl
    room := hroom }

/-- A message's sizes ascend to its length, and from that on it is encoded: in the same
bytes under each ceiling, with no bits left pending, in the room that it began with.
Under a lower ceiling it is refused with the least of the sizes that pass it. -/
theorem encodeWithLimit_threshold (m : ServerMessage) (limit : Nat) :
    (m.sizes = m.milestones ∧ m.milestones.Pairwise (· < ·) ∧ m.milestones.getLast? = some m.bytes.length) ∧
      ((∃ packet, (m.encodeWithLimit limit).1 = .ok packet) ↔ m.bytes.length ≤ limit) ∧
      (∀ packet, (m.encodeWithLimit limit).1 = .ok packet → Fits m limit packet) ∧
      ∀ failure, (m.encodeWithLimit limit).1 = .error failure ↔
        ∃ size ∈ m.milestones, limit < size ∧ (∀ other ∈ m.milestones, limit < other → size ≤ other) ∧
          failure = .refused (.capacityExceeded size limit) := by
  refine ⟨⟨m.sizes_eq_milestones, m.milestones_ascending, m.getLast?_milestones⟩, ?_⟩
  have hleast : ∀ size, m.excess? limit = some size ↔
      size ∈ m.milestones ∧ limit < size ∧ ∀ other ∈ m.milestones, limit < other → size ≤ other := by
    intro size
    rw [excess?, sizes_eq_milestones, find?_eq_some_iff_least m.milestones_ascending]
    simp only [decide_eq_true_eq]
  rw [encodeWithLimit_eq]
  cases hexcess : m.excess? limit with
  | none =>
    have hle := excess?_eq_none_iff.mp hexcess
    refine ⟨iff_of_true ⟨_, rfl⟩ hle, ?_, fun failure => iff_of_false (by simp) ?_⟩
    · rintro _ ⟨⟩
      exact fits_packet hle
    · rintro ⟨size, hmem, hlt, hother, -⟩
      rw [(hleast size).mpr ⟨hmem, hlt, hother⟩] at hexcess
      cases hexcess
  | some size =>
    obtain ⟨hmem, hlt, hother⟩ := (hleast size).mp hexcess
    refine ⟨iff_of_false (by simp) ?_, by simp, fun failure => ?_⟩
    · rw [← excess?_eq_none_iff, hexcess]
      simp
    · constructor
      · rintro ⟨⟩
        exact ⟨size, hmem, hlt, hother, rfl⟩
      · rintro ⟨least, hmem', hlt', hother', rfl⟩
        rw [Nat.le_antisymm (hother least hmem' hlt') (hother' size hmem hlt)]

end ServerMessage

end PacketWire
