/-
A node mask as a set of the nodes from one to sixty-four.

Edits of a mask are insertions and removals in turn. One says of each node what
becomes of it (`contains_apply`), and so the last one of a node decides whether it is
contained (`contains_edited`). The set and the bytes that travel determine each other:
a node is one bit of them (`contains_iff_testBit`), and masks of the same nodes are
the same (`nodes_injective`).
-/
import PacketWire.Proofs.Buffer.Splicing
import PacketWire.Proofs.Canonical

namespace PacketWire

namespace LittleEndian

/-- The bits of a number are those of its bytes, each byte's lowest bit first. -/
theorem testBit_decode : ∀ (bytes : List UInt8) (i : Nat),
    (decode bytes).testBit i = (bytes.getD (i / 8) 0).toNat.testBit (i % 8)
  | [], i => by simp [decode]
  | byte :: bytes, i => by
    have hbyte : byte.toNat < 2 ^ 8 := byte.toNat_lt
    rw [decode, Nat.add_comm, Nat.testBit_two_pow_mul_add _ hbyte]
    by_cases hi : i < 8
    · rw [if_pos hi, Nat.div_eq_of_lt hi, Nat.mod_eq_of_lt hi, List.getD_cons_zero]
    · obtain ⟨j, rfl⟩ := Nat.exists_eq_add_of_le (Nat.not_lt.mp hi)
      rw [if_neg hi, Nat.add_sub_cancel_left, testBit_decode bytes j, Nat.add_div_left j (by decide),
        Nat.add_mod_left, List.getD_cons_succ]

end LittleEndian

namespace NodeMask

/-! ## The set of a mask -/

theorem inRange_iff {node : Nat} : inRange node = true ↔ 1 ≤ node ∧ node ≤ 64 := by
  rw [inRange, Bool.and_eq_true, decide_eq_true_iff, decide_eq_true_iff, taxiNodeCount]

theorem contains_iff {mask : NodeMask} {node : Nat} :
    mask.contains node = true ↔ (1 ≤ node ∧ node ≤ 64) ∧ mask.word.getLsbD (node - 1) = true := by
  rw [contains, Bool.and_eq_true, inRange_iff]

/-- Masks that contain the same nodes are the same. -/
theorem ext_contains {mask other : NodeMask} (h : ∀ node, mask.contains node = other.contains node) :
    mask = other := by
  have hword : mask.word = other.word := BitVec.eq_of_getLsbD_eq fun i hi => by
    have hnode := h (i + 1)
    have hin : inRange (i + 1) = true := inRange_iff.mpr ⟨by omega, by omega⟩
    simpa [contains, hin] using hnode
  cases mask
  exact congrArg NodeMask.mk hword

theorem mem_nodes {mask : NodeMask} {node : Nat} : node ∈ mask.nodes ↔ mask.contains node = true := by
  rw [nodes, List.mem_filter, and_iff_right_iff_imp]
  intro h
  have hin := (contains_iff.mp h).1
  refine List.mem_map.mpr ⟨node - 1, List.mem_range.mpr ?_, by omega⟩
  rw [taxiNodeCount]
  omega

theorem nodes_ascending (mask : NodeMask) : mask.nodes.Pairwise (· < ·) := by
  refine List.Pairwise.filter _ (List.pairwise_map.mpr ?_)
  exact List.pairwise_lt_range.imp fun h => by omega

theorem nodes_injective {mask other : NodeMask} (h : mask.nodes = other.nodes) : mask = other :=
  ext_contains fun node => by rw [Bool.eq_iff_iff, ← mem_nodes, ← mem_nodes, h]

theorem isEmpty_iff {mask : NodeMask} : mask.isEmpty = true ↔ mask.nodes = [] := by
  have hempty : empty.nodes = [] := by decide
  rw [isEmpty, decide_eq_true_iff]
  constructor
  · intro h
    have hmask : mask = empty := by rw [empty, ← h]
    rw [hmask, hempty]
  · intro h
    rw [nodes_injective (h.trans hempty.symm)]
    rfl

/-! ## Edits -/

/-- A change of a set that is asked for. -/
inductive Edit
  | insert (node : Nat)
  | erase (node : Nat)

namespace Edit

def node : Edit → Nat
  | insert node | erase node => node

def apply : Edit → NodeMask → NodeMask
  | insert node, mask => (mask.insert node).2
  | erase node, mask => mask.erase node

end Edit

/-- The mask after these edits in turn. -/
def edited (mask : NodeMask) (edits : List Edit) : NodeMask := edits.foldl (fun mask edit => edit.apply mask) mask

/-- The last edit of this node, and there is one, inserts it. -/
def LastInserts (node : Nat) (edits : List Edit) : Prop :=
  ∃ before after, edits = before ++ .insert node :: after ∧ ∀ edit ∈ after, edit.node ≠ node

theorem insert_fst {mask : NodeMask} {node : Nat} : (mask.insert node).1 = true ↔ 1 ≤ node ∧ node ≤ 64 := by
  rw [← inRange_iff, insert]
  split
  next h => exact iff_of_true rfl h
  next h => exact iff_of_false (by simp) h

/-- Among nodes in the range each has a bit of its own. -/
theorem getLsbD_twoPow_iff {edited node : Nat} (hedited : 1 ≤ edited ∧ edited ≤ 64) (hnode : 1 ≤ node ∧ node ≤ 64) :
    (BitVec.twoPow 64 (edited - 1)).getLsbD (node - 1) = true ↔ edited = node := by
  rw [BitVec.getLsbD_twoPow, Bool.and_eq_true, decide_eq_true_iff, decide_eq_true_iff]
  omega

theorem contains_insert {mask : NodeMask} {edited node : Nat} :
    (mask.insert edited).2.contains node = true ↔
      (1 ≤ node ∧ node ≤ 64) ∧ (edited = node ∨ mask.contains node = true) := by
  rw [contains_iff, contains_iff]
  refine and_congr_right fun hnode => ?_
  rw [and_iff_right hnode, insert]
  split
  next hin =>
    rw [BitVec.getLsbD_or, Bool.or_eq_true, getLsbD_twoPow_iff (inRange_iff.mp hin) hnode, or_comm]
  next hout =>
    rw [or_iff_right]
    rintro rfl
    exact hout (inRange_iff.mpr hnode)

theorem contains_erase {mask : NodeMask} {edited node : Nat} :
    (mask.erase edited).contains node = true ↔ edited ≠ node ∧ mask.contains node = true := by
  rw [contains_iff, contains_iff, and_left_comm]
  refine and_congr_right fun hnode => ?_
  rw [erase]
  split
  next hin =>
    have hbit := getLsbD_twoPow_iff (inRange_iff.mp hin) hnode
    have hlt : node - 1 < 64 := by omega
    rw [BitVec.getLsbD_and, BitVec.getLsbD_not, Bool.and_eq_true, Bool.and_eq_true, Bool.not_eq_true', and_comm,
      ← Bool.not_eq_true, hbit, decide_eq_true_iff, and_iff_right hlt]
  next hout =>
    rw [and_iff_right]
    rintro rfl
    exact hout (inRange_iff.mpr hnode)

/-- An edit is of its own node only. -/
theorem contains_apply {mask : NodeMask} {edit : Edit} {node : Nat} :
    (edit.apply mask).contains node = true ↔
      (1 ≤ node ∧ node ≤ 64) ∧ (edit = .insert node ∨ edit.node ≠ node ∧ mask.contains node = true) := by
  cases edit with
  | insert edited =>
    rw [Edit.apply, contains_insert, Edit.insert.injEq, Edit.node]
    refine and_congr_right fun _ => ?_
    by_cases h : edited = node <;> simp [h]
  | erase edited =>
    rw [Edit.apply, contains_erase, Edit.node]
    have hin : mask.contains node = true → 1 ≤ node ∧ node ≤ 64 := fun h => (contains_iff.mp h).1
    constructor
    · rintro ⟨hother, hheld⟩
      exact ⟨hin hheld, .inr ⟨hother, hheld⟩⟩
    · rintro ⟨-, h | h⟩
      · cases h
      · exact h

theorem lastInserts_cons {node : Nat} {edit : Edit} {edits : List Edit} :
    LastInserts node (edit :: edits) ↔
      LastInserts node edits ∨ edit = .insert node ∧ ∀ later ∈ edits, later.node ≠ node := by
  constructor
  · rintro ⟨before, after, hedits, hafter⟩
    cases before with
    | nil =>
      obtain ⟨rfl, rfl⟩ := List.cons.inj hedits
      exact .inr ⟨rfl, hafter⟩
    | cons first before =>
      obtain ⟨rfl, rfl⟩ := List.cons.inj hedits
      exact .inl ⟨before, after, rfl, hafter⟩
  · rintro (⟨before, after, rfl, hafter⟩ | ⟨rfl, hafter⟩)
    · exact ⟨edit :: before, after, rfl, hafter⟩
    · exact ⟨[], edits, rfl, hafter⟩

/-- The last edit of a node decides, and if there is none, what there was. -/
theorem contains_edited {node : Nat} : ∀ {edits : List Edit} {mask : NodeMask},
    (mask.edited edits).contains node = true ↔ (1 ≤ node ∧ node ≤ 64) ∧
      (LastInserts node edits ∨ (∀ edit ∈ edits, edit.node ≠ node) ∧ mask.contains node = true)
  | [], mask => by
    have hnone : ¬ LastInserts node [] := by rintro ⟨before, after, h, -⟩; simp at h
    simp only [edited, List.foldl_nil, hnone, false_or, List.not_mem_nil, false_implies, implies_true, true_and]
    exact ⟨fun h => ⟨(contains_iff.mp h).1, h⟩, And.right⟩
  | edit :: edits, mask => by
    have hrest : ((edit.apply mask).edited edits).contains node = true ↔ (1 ≤ node ∧ node ≤ 64) ∧
        (LastInserts node edits ∨
          (∀ later ∈ edits, later.node ≠ node) ∧ (edit.apply mask).contains node = true) := contains_edited
    rw [edited, List.foldl_cons, ← edited, hrest, contains_apply, lastInserts_cons, List.forall_mem_cons]
    refine and_congr_right fun hnode => ?_
    rw [or_assoc]
    refine or_congr_right ⟨?_, ?_⟩
    · rintro ⟨hfree, -, hinsert | ⟨hother, hheld⟩⟩
      · exact .inl ⟨hinsert, hfree⟩
      · exact .inr ⟨⟨hother, hfree⟩, hheld⟩
    · rintro (⟨hinsert, hfree⟩ | ⟨⟨hother, hfree⟩, hheld⟩)
      · exact ⟨hfree, hnode, .inl hinsert⟩
      · exact ⟨hfree, hnode, .inr ⟨hother, hheld⟩⟩

example : (empty.edited [.insert 1, .insert 8, .insert 64, .insert 65, .erase 8]).nodes = [1, 64] := by decide

/-! ## The bytes of a mask -/

/-- The bytes spell the word. -/
theorem toNat_word (mask : NodeMask) : LittleEndian.decode mask.encode = mask.word.toNat := by
  have hlt : mask.word.toNat < 256 ^ 8 := mask.word.isLt
  rw [encode, size, LittleEndian.decode_encode, Nat.mod_eq_of_lt hlt]

theorem decode_encode (mask : NodeMask) : decode mask.encode = mask := by
  rw [decode, toNat_word, BitVec.ofNat_toNat, BitVec.setWidth_eq]

theorem encode_decode {bytes : List UInt8} (h : bytes.length = size) : (decode bytes).encode = bytes := by
  have hlen : bytes.length = 8 := h
  have hfield : maskAt bytes 0 = decode bytes := by rw [maskAt, numberAt_zero hlen, decode]
  rw [← hfield, encode_maskAt 0 hlen.ge, List.drop_zero, List.take_of_length_le hlen.le]

/-- A node is a bit of the bytes. -/
theorem contains_iff_testBit {mask : NodeMask} {node : Nat} :
    mask.contains node = true ↔ (1 ≤ node ∧ node ≤ 64) ∧
      (mask.encode.getD ((node - 1) / 8) 0).toNat.testBit ((node - 1) % 8) = true := by
  rw [contains_iff, ← LittleEndian.testBit_decode, toNat_word, BitVec.testBit_toNat]

/-- A mask is read back from where it was written. -/
theorem write_read_back (mask : NodeMask) {b : Buffer} (h : b.wpos ≤ b.size) (hp : b.pending.length < 8)
    (room : b.wpos + b.flushSize + size ≤ b.limit) :
    ∃ b', (do mask.write; Buffer.setReadPos (b.wpos + b.flushSize); NodeMask.read).run b = .ok mask b' := by
  have hne : mask.encode ≠ [] := List.ne_nil_of_length_pos (by rw [length_encode]; decide)
  obtain ⟨b', hrun⟩ := Buffer.append_read_back h hp hne (by rw [length_encode]; exact room) decode
  rw [length_encode, decode_encode] at hrun
  exact ⟨b', hrun⟩

/-! ## The set, its edits and its bytes -/

/-- A mask holds these nodes, from whichever side it is looked at. -/
structure Holds (mask : NodeMask) (members : Nat → Prop) : Prop where
  contains : ∀ node, mask.contains node = true ↔ members node
  /-- On the wire a node is one bit: of its byte, the lowest first. -/
  bit : ∀ node, members node ↔ (1 ≤ node ∧ node ≤ 64) ∧
    (mask.encode.getD ((node - 1) / 8) 0).toNat.testBit ((node - 1) % 8) = true
  ascending : mask.nodes.Pairwise (· < ·)
  nodes : ∀ node, node ∈ mask.nodes ↔ members node
  isEmpty : mask.isEmpty = true ↔ mask.nodes = []

theorem holds_of_contains {mask : NodeMask} {members : Nat → Prop}
    (h : ∀ node, mask.contains node = true ↔ members node) : Holds mask members where
  contains := h
  bit node := by rw [← h, contains_iff_testBit]
  ascending := mask.nodes_ascending
  nodes node := by rw [← h, mem_nodes]
  isEmpty := isEmpty_iff

/-- A mask is a set of nodes from one to sixty-four: after any edits it holds those
whose last edit inserted them, and of those without one what it held before. Masks of
the same nodes have the same bytes, all eight bytes are those of a mask, and a mask that
was written is what is read back. -/
theorem edited_holds (mask : NodeMask) (edits : List Edit) :
    Holds (mask.edited edits) (fun node => (1 ≤ node ∧ node ≤ 64) ∧
      (LastInserts node edits ∨ (∀ edit ∈ edits, edit.node ≠ node) ∧ mask.contains node = true)) ∧
    (∀ node, (mask.insert node).1 = true ↔ 1 ≤ node ∧ node ≤ 64) ∧
    (∀ other : NodeMask, mask.nodes = other.nodes → mask.encode = other.encode) ∧
    (∀ bytes, bytes.length = size → (decode bytes).encode = bytes) ∧
    ∀ b : Buffer, b.wpos ≤ b.size → b.pending.length < 8 → b.wpos + b.flushSize + size ≤ b.limit →
      ∃ b', (do mask.write; Buffer.setReadPos (b.wpos + b.flushSize); NodeMask.read).run b = .ok mask b' :=
  ⟨holds_of_contains fun _ => contains_edited, fun _ => insert_fst,
    fun _ h => congrArg encode (nodes_injective h), fun _ => encode_decode, fun _ => mask.write_read_back⟩

end NodeMask

end PacketWire
