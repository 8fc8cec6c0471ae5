/-
What the server says, as bytes.

A message has bytes of its own (`ServerMessage.bytes`). Whatever follows them,
they spell the message (`spelled_bytes`). Of a payload that spells a message
they are the bytes that spell it, but for the padding behind a map's first bit,
which they leave clear (`bytes_spelled`).
-/
import PacketWire.Proofs.Decode

namespace PacketWire

open Buffer

/-- The byte that a map begins with: one bit, and padding. -/
def mapFlag (hasWindow : Bool) : UInt8 := if hasWindow then 0x80 else 0

def MapWindow.bytes (window : MapWindow) : List UInt8 :=
  window.unit.encode ++ ScalarType.i32.encode window.currentNode

/-- The bytes that a message travels in. -/
def ServerMessage.bytes : ServerMessage → List UInt8
  | taxiNodeStatus status unit => ScalarType.u8.encode status ++ unit.encode
  | showTaxiNodes window canLand canUse =>
    mapFlag window.isSome :: (window.elim [] MapWindow.bytes ++ (canLand.encode ++ canUse.encode))
  | newTaxiPath path => ScalarType.i32.encode path
  | activateTaxiReply reply => ScalarType.u8.encode reply

/-! ## From a message to its bytes and back -/

theorem numberAt_append_left {l r : List UInt8} {offset width : Nat} (h : offset + width ≤ l.length) :
    numberAt (l ++ r) offset width = numberAt l offset width := by
  rw [← numberAt_take h, List.take_left' rfl]

theorem numberAt_append_right {l r : List UInt8} {offset width : Nat} (h : l.length ≤ offset) :
    numberAt (l ++ r) offset width = numberAt r (offset - l.length) width := by
  rw [numberAt, numberAt, List.drop_append, List.drop_eq_nil_of_le h, List.nil_append]

theorem numberAt_encode (width : Nat) {n : Nat} (h : n < 256 ^ width) :
    numberAt (LittleEndian.encode width n) 0 width = n := by
  rw [numberAt_zero (LittleEndian.length_encode width n), LittleEndian.decode_encode, Nat.mod_eq_of_lt h]

theorem byteAt_encode (v : UInt8) (rest : List UInt8) : byteAt (ScalarType.u8.encode v ++ rest) 0 = v := by
  have hword := numberAt_encode 1 v.toNat_lt
  simp [byteAt, ScalarType.encode, ScalarType.toWord, ScalarType.size, numberAt_append_left, hword]

theorem wordAt_encode (v : Int32) (rest : List UInt8) :
    (wordAt (ScalarType.i32.encode v ++ rest) 0).toInt32 = v := by
  have hword := numberAt_encode 4 v.toUInt32.toNat_lt
  simp [wordAt, ScalarType.encode, ScalarType.toWord, ScalarType.size, numberAt_append_left, hword]

theorem guidAt_encode (g : Guid) (rest : List UInt8) : guidAt (g.encode ++ rest) 0 = g := by
  have hlow := numberAt_encode 8 g.low.toNat_lt
  have hhigh := numberAt_encode 8 g.high.toNat_lt
  simp [guidAt, Guid.encode, numberAt_append_left, numberAt_append_right, hlow, hhigh]

theorem maskAt_encode (mask : NodeMask) (rest : List UInt8) : maskAt (mask.encode ++ rest) 0 = mask := by
  have hword := numberAt_encode 8 mask.word.isLt
  simp [maskAt, NodeMask.encode, NodeMask.size, numberAt_append_left, hword]

/-- A field behind a run is where it is without the run. -/
theorem wordAt_append {l r : List UInt8} (offset : Nat) (h : l.length = offset) :
    wordAt (l ++ r) offset = wordAt r 0 := by
  simp [wordAt, numberAt_append_right, h]

theorem guidAt_append {l r : List UInt8} (offset : Nat) (h : l.length = offset) :
    guidAt (l ++ r) offset = guidAt r 0 := by
  simp [guidAt, numberAt_append_right, h]

theorem maskAt_append {l r : List UInt8} (offset : Nat) (h : l.length = offset) :
    maskAt (l ++ r) offset = maskAt r 0 := by
  simp [maskAt, numberAt_append_right, h]

theorem MapWindow.length_bytes (window : MapWindow) : window.bytes.length = 20 := by
  simp [bytes, Guid.size, ScalarType.size]

theorem NodeMask.length_encode (mask : NodeMask) : mask.encode.length = 8 := by simp [encode, size]

theorem opensWindow_mapFlag (hasWindow : Bool) (rest : List UInt8) :
    opensWindow (mapFlag hasWindow :: rest) = hasWindow := by
  cases hasWindow <;> rfl

theorem mapAt_cons (hasWindow : Bool) (first : UInt8) (rest : List UInt8) :
    mapAt hasWindow (first :: rest) 1 = mapAt hasWindow rest 0 := by
  rw [← mapAt_drop, List.drop_one, List.tail_cons]

/-- A map's fields behind its first byte. -/
theorem mapAt_bytes (window : Option MapWindow) (canLand canUse : NodeMask) (rest : List UInt8) :
    mapAt window.isSome (window.elim [] MapWindow.bytes ++ (canLand.encode ++ (canUse.encode ++ rest))) 0 =
      .showTaxiNodes window canLand canUse := by
  cases window with
  | none =>
    simp [mapAt, maskAt_encode, maskAt_append 8 canLand.length_encode]
  | some window =>
    have hunit : window.unit.encode.length = 16 := Guid.length_encode _
    have hboth : (window.bytes ++ canLand.encode).length = 28 := by
      rw [List.length_append, window.length_bytes, canLand.length_encode]
    have hcanLand : maskAt (window.bytes ++ (canLand.encode ++ (canUse.encode ++ rest))) 20 = canLand := by
      rw [maskAt_append 20 window.length_bytes, maskAt_encode]
    have hcanUse : maskAt (window.bytes ++ (canLand.encode ++ (canUse.encode ++ rest))) 28 = canUse := by
      rw [← List.append_assoc, maskAt_append 28 hboth, maskAt_encode]
    have hwindow : guidAt (window.bytes ++ (canLand.encode ++ (canUse.encode ++ rest))) 0 = window.unit ∧
        (wordAt (window.bytes ++ (canLand.encode ++ (canUse.encode ++ rest))) 16).toInt32 =
          window.currentNode := by
      rw [MapWindow.bytes, List.append_assoc, guidAt_encode, wordAt_append 16 hunit, wordAt_encode]
      exact ⟨rfl, rfl⟩
    simp [mapAt, hcanLand, hcanUse, hwindow]

theorem ServerMessage.length_bytes (m : ServerMessage) (rest : List UInt8) :
    Message.length (m.bytes ++ rest) (.server m.opcode) = m.bytes.length := by
  cases m with
  | taxiNodeStatus status unit => simp [bytes, opcode, Message.length, ScalarType.size, Guid.size]
  | showTaxiNodes window canLand canUse =>
    simp only [bytes, opcode, Message.length, List.cons_append, opensWindow_mapFlag, List.length_cons,
      List.length_append, NodeMask.length_encode]
    cases window <;> simp [MapWindow.length_bytes]
  | newTaxiPath path => simp [bytes, opcode, Message.length, ScalarType.size]
  | activateTaxiReply reply => simp [bytes, opcode, Message.length, ScalarType.size]

theorem ServerMessage.spelled_bytes (m : ServerMessage) (rest : List UInt8) :
    Message.spelled (opensWindow (m.bytes ++ rest)) (m.bytes ++ rest) (.server m.opcode) = .server m := by
  cases m with
  | taxiNodeStatus status unit =>
    have hstatus : (ScalarType.u8.encode status).length = 1 := ScalarType.length_encode _ _
    simp [bytes, opcode, Message.spelled, byteAt_encode, guidAt_append 1 hstatus, guidAt_encode]
  | showTaxiNodes window canLand canUse =>
    simp only [bytes, opcode, Message.spelled, List.cons_append, opensWindow_mapFlag, List.append_assoc]
    rw [mapAt_cons, mapAt_bytes]
  | newTaxiPath path => simp [bytes, opcode, Message.spelled, wordAt_encode]
  | activateTaxiReply reply => simp [bytes, opcode, Message.spelled, byteAt_encode]

/-! ## From a payload to its message and back -/

theorem encode_numberAt {p : List UInt8} (offset width : Nat) (h : offset + width ≤ p.length) :
    LittleEndian.encode width (numberAt p offset width) = (p.drop offset).take width := by
  have hlen : ((p.drop offset).take width).length = width := by
    rw [List.length_take, List.length_drop]
    omega
  have hsame := LittleEndian.encode_decode ((p.drop offset).take width)
  rwa [hlen] at hsame

theorem numberAt_lt (p : List UInt8) (offset width : Nat) : numberAt p offset width < 256 ^ width := by
  refine Nat.lt_of_lt_of_le (LittleEndian.decode_lt _) (Nat.pow_le_pow_right (by decide) ?_)
  exact List.length_take_le _ _

theorem encode_byteAt {p : List UInt8} (offset : Nat) (h : offset + 1 ≤ p.length) :
    ScalarType.u8.encode (byteAt p offset) = (p.drop offset).take 1 := by
  have hlt := numberAt_lt p offset 1
  rw [← encode_numberAt _ _ h]
  simp only [ScalarType.encode, ScalarType.toWord, ScalarType.size, byteAt, UInt8.toNat_ofNat_of_lt' hlt]

theorem encode_wordAt {p : List UInt8} (offset : Nat) (h : offset + 4 ≤ p.length) :
    ScalarType.i32.encode (wordAt p offset).toInt32 = (p.drop offset).take 4 := by
  have hlt := numberAt_lt p offset 4
  rw [← encode_numberAt _ _ h]
  simp only [ScalarType.encode, ScalarType.toWord, ScalarType.size, wordAt, UInt32.toUInt32_toInt32,
    UInt32.toNat_ofNat_of_lt' hlt]

theorem encode_guidAt {p : List UInt8} (offset : Nat) (h : offset + 16 ≤ p.length) :
    (guidAt p offset).encode = (p.drop offset).take 16 := by
  have hlow := numberAt_lt p offset 8
  have hhigh := numberAt_lt p (offset + 8) 8
  have hlowBytes := encode_numberAt (p := p) offset 8 (by omega)
  have hhighBytes := encode_numberAt (p := p) (offset + 8) 8 (by omega)
  have htake : (p.drop offset).take (8 + 8) = (p.drop offset).take 8 ++ (p.drop (offset + 8)).take 8 := by
    rw [List.take_add, List.drop_drop]
  rw [htake, ← hlowBytes, ← hhighBytes]
  simp only [Guid.encode, guidAt, UInt64.toNat_ofNat_of_lt' hlow, UInt64.toNat_ofNat_of_lt' hhigh]

theorem encode_maskAt {p : List UInt8} (offset : Nat) (h : offset + 8 ≤ p.length) :
    (maskAt p offset).encode = (p.drop offset).take 8 := by
  have hlt : numberAt p offset 8 < 2 ^ 64 := numberAt_lt p offset 8
  rw [← encode_numberAt _ _ h]
  simp only [NodeMask.encode, NodeMask.size, maskAt, BitVec.toNat_ofNat]
  rw [Nat.mod_eq_of_lt hlt]

/-- The payload with the bits behind a map's first one clear. -/
def clearPadding : ServerOpcode → List UInt8 → List UInt8
  | .showTaxiNodes, first :: rest => (first &&& 0x80) :: rest
  | _, run => run

/-- Bit by bit: seven of the eight are cleared, and the first is the flag's. -/
theorem and_eq_mapFlag (first : UInt8) : first &&& 0x80 = mapFlag (first.toNat.testBit 7) := by
  have hlow : ∀ i < 7, Nat.testBit 128 i = false := by decide
  apply Bits.ofByte_injective
  cases h : first.toNat.testBit 7 <;> simp [Bits.ofByte, Bits.ofNat, mapFlag, Nat.testBit_and, h, hlow]

/-- What a map's fields behind its first byte spell has the bytes of the fields. -/
theorem bytes_mapAt {p : List UInt8} {hasWindow : Bool} (h : (mapLayout hasWindow).sum ≤ p.length) :
    (mapAt hasWindow p 0).bytes = mapFlag hasWindow :: p.take (mapLayout hasWindow).sum := by
  cases hasWindow with
  | false =>
    have hlen : 16 ≤ p.length := h
    have htake : p.take (8 + 8) = p.take 8 ++ (p.drop 8).take 8 := List.take_add
    have hcanLand := encode_maskAt (p := p) 0 (by omega)
    have hcanUse := encode_maskAt (p := p) 8 (by omega)
    simp [mapAt, ServerMessage.bytes, mapLayout, hcanLand, hcanUse, htake]
  | true =>
    have hlen : 36 ≤ p.length := h
    have htake : p.take (16 + 4 + 8 + 8) =
        p.take 16 ++ (p.drop 16).take 4 ++ (p.drop 20).take 8 ++ (p.drop 28).take 8 := by
      rw [List.take_add, List.take_add, List.take_add]
    have hunit := encode_guidAt (p := p) 0 (by omega)
    have hnode := encode_wordAt (p := p) 16 (by omega)
    have hcanLand := encode_maskAt (p := p) 20 (by omega)
    have hcanUse := encode_maskAt (p := p) 28 (by omega)
    simp [mapAt, ServerMessage.bytes, MapWindow.bytes, mapLayout, hunit, hnode, hcanLand, hcanUse, htake]

theorem Message.length_cons_map (first : UInt8) (rest : List UInt8) :
    length (first :: rest) (.server .showTaxiNodes) = (mapLayout (first.toNat.testBit 7)).sum + 1 := by
  rw [← sum_layout, Nat.add_comm]
  rfl

theorem Message.spelled_cons_map (first : UInt8) (rest : List UInt8) :
    spelled (opensWindow (first :: rest)) (first :: rest) (.server .showTaxiNodes) =
      .server (mapAt (first.toNat.testBit 7) rest 0) := by
  rw [spelled, mapAt_cons]
  rfl

/-- Of a payload that spells a message, the message's bytes are the ones that
spell it, with the padding clear. -/
theorem bytes_spelled {p : List UInt8} {op : ServerOpcode} (h : Message.length p (.server op) ≤ p.length) :
    ∃ sent : ServerMessage, Message.spelled (opensWindow p) p (.server op) = .server sent ∧
      sent.opcode = op ∧ sent.bytes = clearPadding op (p.take (Message.length p (.server op))) := by
  cases op with
  | taxiNodeStatus =>
    have hlen : 17 ≤ p.length := h
    have htake : p.take (1 + 16) = p.take 1 ++ (p.drop 1).take 16 := List.take_add
    have hstatus := encode_byteAt (p := p) 0 (by omega)
    have hunit := encode_guidAt (p := p) 1 (by omega)
    refine ⟨_, rfl, rfl, ?_⟩
    simp [ServerMessage.bytes, hstatus, hunit, Message.length, clearPadding, htake]
  | showTaxiNodes =>
    obtain ⟨first, rest, rfl⟩ := List.exists_cons_of_length_pos (l := p) (by
      simp only [Message.length] at h
      split at h <;> omega)
    rw [Message.length_cons_map] at h ⊢
    refine ⟨_, Message.spelled_cons_map first rest, ?_, ?_⟩
    · unfold mapAt
      split <;> rfl
    · rw [bytes_mapAt (Nat.le_of_succ_le_succ h), List.take_succ_cons, clearPadding, and_eq_mapFlag]
  | newTaxiPath =>
    have hpath := encode_wordAt (p := p) 0 h
    refine ⟨_, rfl, rfl, ?_⟩
    simp [ServerMessage.bytes, hpath, Message.length, clearPadding]
  | activateTaxiReply =>
    have hreply := encode_byteAt (p := p) 0 h
    refine ⟨_, rfl, rfl, ?_⟩
    simp [ServerMessage.bytes, hreply, Message.length, clearPadding]

end PacketWire
