/-
An identifier is one number, whichever way it is looked at.

Its order is that of the numbers (`lt_iff_toNat_lt`), its text is the number's
thirty-two hexadecimal digits (`display_eq`), which are in the same order
(`lt_iff_display_lt`), and its bytes are the number's sixteen (`encode_eq`). So it is
read from any sixteen bytes as the number that they are (`toNat_decode`).
-/
import PacketWire.Proofs.Buffer.Splicing
import PacketWire.Proofs.Hex

namespace PacketWire

namespace LittleEndian

/-- The bytes of one number behind those of another are those of a number with both. -/
theorem encode_append_encode (more n : Nat) : ∀ {width m : Nat}, m < 256 ^ width →
    encode width m ++ encode more n = encode (width + more) (n * 256 ^ width + m)
  | 0, m, hm => by
    rw [Nat.pow_zero, Nat.lt_one_iff] at hm
    simp [encode, hm]
  | width + 1, m, hm => by
    have hpow : n * 256 ^ (width + 1) = 256 * (n * 256 ^ width) := by
      rw [Nat.pow_succ', Nat.mul_left_comm]
    have hmod : (n * 256 ^ (width + 1) + m) % 256 = m % 256 := by omega
    have hdiv : (n * 256 ^ (width + 1) + m) / 256 = n * 256 ^ width + m / 256 := by omega
    rw [Nat.pow_succ'] at hm
    have hrest : encode width (m / 256) ++ encode more n = encode (width + more) (n * 256 ^ width + m / 256) :=
      encode_append_encode more n (Nat.div_lt_of_lt_mul hm)
    rw [Nat.add_right_comm, encode, encode, List.cons_append, hrest, hmod, hdiv]

end LittleEndian

namespace Guid

open Text

/-! ## The number -/

theorem toNat_lt (g : Guid) : g.toNat < 2 ^ 128 := by
  have hhigh : g.high.toNat < 2 ^ 64 := g.high.toNat_lt
  have hlow : g.low.toNat < 2 ^ 64 := g.low.toNat_lt
  simp only [toNat, UInt64.size]
  omega

theorem lt_iff_toNat_lt {a b : Guid} : a < b ↔ a.toNat < b.toNat := by
  have hdef : a < b ↔ a.high < b.high ∨ a.high = b.high ∧ a.low < b.low := Iff.rfl
  have ha := a.low.toNat_lt
  have hb := b.low.toNat_lt
  rw [hdef, UInt64.lt_iff_toNat_lt, UInt64.lt_iff_toNat_lt, ← UInt64.toNat_inj]
  simp only [toNat, UInt64.size]
  omega

theorem toNat_injective {a b : Guid} (h : a.toNat = b.toNat) : a = b := by
  have ha : a.low.toNat < 2 ^ 64 := a.low.toNat_lt
  have hb : b.low.toNat < 2 ^ 64 := b.low.toNat_lt
  simp only [toNat, UInt64.size] at h
  have hhigh : a.high = b.high := UInt64.toNat.inj (by omega)
  have hlow : a.low = b.low := UInt64.toNat.inj (by omega)
  cases a
  cases b
  exact congrArg₂ Guid.mk hhigh hlow

/-! ## The text -/

/-- The two halves' digits are those of the number. -/
theorem display_eq (g : Guid) : g.display = "0x" ++ String.ofList (Hex.fixed .upper 32 g.toNat) := by
  have hlow : g.low.toNat < 16 ^ 16 := g.low.toNat_lt
  rw [display, Hex.fixed_append_fixed .upper 16 g.high.toNat hlow]
  rfl

example : (⟨1, 0xAB⟩ : Guid).display = "0x000000000000000100000000000000AB" := by decide

theorem toList_display (g : Guid) : g.display.toList = ['0', 'x'] ++ Hex.fixed .upper 32 g.toNat := by
  rw [display_eq, String.toList_append, String.toList_ofList, String.toList_ofList]

theorem length_display (g : Guid) : g.display.length = 34 := by
  rw [← String.length_toList, toList_display, List.length_append, Hex.length_fixed]
  rfl

theorem lt_iff_display_lt {a b : Guid} : a < b ↔ a.display < b.display := by
  have hdef : a.display < b.display ↔ a.display.toList < b.display.toList := Iff.rfl
  have hdigits : Hex.fixed .upper 32 a.toNat < Hex.fixed .upper 32 b.toNat ↔ a.toNat < b.toNat :=
    Hex.fixed_lt_fixed_iff .upper a.toNat_lt b.toNat_lt
  rw [hdef, toList_display, toList_display, Hex.append_lt_append_iff rfl, hdigits, lt_iff_toNat_lt]
  simp

theorem display_injective {a b : Guid} (h : a.display = b.display) : a = b := by
  have htext := congrArg String.toList h
  rw [toList_display, toList_display, List.append_cancel_left_eq] at htext
  exact toNat_injective ((Hex.fixed_inj .upper a.toNat_lt b.toNat_lt).mp htext)

/-! ## The bytes -/

theorem encode_eq (g : Guid) : g.encode = LittleEndian.encode 16 g.toNat := by
  have hlow : g.low.toNat < 256 ^ 8 := g.low.toNat_lt
  rw [encode, LittleEndian.encode_append_encode 8 g.high.toNat hlow]
  rfl

theorem toNat_decode {bytes : List UInt8} (h : bytes.length = size) :
    (decode bytes).toNat = LittleEndian.decode bytes := by
  have hlt : (decode bytes).toNat < 256 ^ 16 := toNat_lt _
  have hnumber : LittleEndian.decode (decode bytes).encode = (decode bytes).toNat := by
    rw [encode_eq, LittleEndian.decode_encode, Nat.mod_eq_of_lt hlt]
  rw [← hnumber, encode_decode h]

/-- An identifier is read where the bytes of its number are. -/
theorem read_run_ok_iff {g : Guid} {b b' : Buffer} :
    Guid.read.run b = .ok g b' ↔ (Buffer.readBytes size).run b = .ok (LittleEndian.encode 16 g.toNat) b' := by
  rw [Buffer.readGuid_run, Buffer.readBytes_run, ← encode_eq]
  split_ifs with hshort hpast
  · simp
  · simp
  · have hlen : (b.bytesAt b.rpos size).length = size := Buffer.length_bytesAt (Nat.not_lt.mp hpast)
    constructor
    · rintro ⟨⟩
      rw [encode_decode hlen]
    · intro h
      obtain ⟨hbytes, rfl⟩ := EStateM.Result.ok.inj h
      rw [hbytes, decode_encode]

/-- An identifier is this number in its text, and in the bytes that are written for it
and that it is read from. -/
structure ShowsAs (g : Guid) (n : Nat) : Prop where
  lt : n < 2 ^ 128
  text : g.display = "0x" ++ String.ofList (Hex.fixed .upper 32 n)
  length_text : g.display.length = 34
  written : ∀ b : Buffer, b.wpos ≤ b.size → b.pending.length < 8 → b.wpos + b.flushSize + size ≤ b.limit →
    ∃ left, (do g.write; Buffer.setReadPos (b.wpos + b.flushSize); Buffer.readBytes size).run b =
      .ok (LittleEndian.encode 16 n) left
  read : ∀ b left : Buffer, Guid.read.run b = .ok g left ↔
    (Buffer.readBytes size).run b = .ok (LittleEndian.encode 16 n) left

theorem showsAs_toNat (g : Guid) : g.ShowsAs g.toNat where
  lt := g.toNat_lt
  text := g.display_eq
  length_text := g.length_display
  written b h hp room := by
    have hroom : b.wpos + b.flushSize + g.encode.length ≤ b.limit := by rwa [length_encode]
    obtain ⟨left, hbytes⟩ := Buffer.append_read_back h hp g.encode_ne_nil hroom id
    simp only [length_encode, id, bind_pure] at hbytes
    rw [← encode_eq]
    exact ⟨left, hbytes⟩
  read _ _ := read_run_ok_iff

/-- The order of identifiers is that of their numbers and that of their texts, no two
have the same text, and any sixteen bytes are those of one. -/
theorem views_agree (a b : Guid) :
    a.ShowsAs a.toNat ∧ (a < b ↔ a.toNat < b.toNat) ∧ (a < b ↔ a.display < b.display) ∧
      (a.display = b.display → a = b) ∧
      ∀ bytes, bytes.length = size → ∃ g : Guid, g.toNat = LittleEndian.decode bytes ∧
        LittleEndian.encode 16 g.toNat = bytes :=
  ⟨a.showsAs_toNat, lt_iff_toNat_lt, lt_iff_display_lt, display_injective,
    fun bytes h => ⟨decode bytes, toNat_decode h, by rw [← encode_eq, encode_decode h]⟩⟩

end Guid

end PacketWire
