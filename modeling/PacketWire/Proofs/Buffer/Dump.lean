/-
What a dump says of the bytes that it shows.

A hexadecimal dump has its bytes in rows of sixteen (`tiles_rows`), each a line of its
own (`hexRow_isLine`). Without its marks it is the two digits of every byte in order
(`unmarked_lines`), and a decimal dump is every byte in decimal. Where one byte's
text ends is seen from the text in either form, and so no two runs of bytes have the
same dump (`dump_lossless`).
-/
import Mathlib.Algebra.Order.Floor.Div
import PacketWire.Buffer.Dump
import PacketWire.Proofs.Hex

namespace PacketWire.Buffer

open Text

/-! ## Digits -/

/-- The two digits of a byte. -/
def twoDigits (b : UInt8) : List Char := [(b.toNat / 16).digitChar, (b.toNat % 16).digitChar]

theorem digit_lower (n : Nat) : Hex.digit .lower n = (n % 16).digitChar := by
  have hdigits : ∀ d < 16, Hex.digit .lower d = d.digitChar := by decide
  rw [← Hex.digit_mod]
  exact hdigits _ (Nat.mod_lt n (by decide))

theorem ofByte_lower (b : UInt8) : Hex.ofByte .lower b = twoDigits b := by
  have hhigh : b.toNat / 16 % 16 = b.toNat / 16 := Nat.mod_eq_of_lt (by have := b.toNat_lt; omega)
  rw [Hex.ofByte, Hex.fixed, Hex.fixed, Hex.fixed, digit_lower, digit_lower, hhigh]
  rfl

theorem twoDigits_inj {a b : UInt8} : twoDigits a = twoDigits b ↔ a = b := by
  rw [← ofByte_lower, ← ofByte_lower, Hex.ofByte, Hex.ofByte, Hex.fixed_inj .lower a.toNat_lt b.toNat_lt,
    UInt8.toNat_inj]

/-! ## Rows -/

/-- Bytes in rows of sixteen, the last one perhaps shorter. -/
structure Tiles (bytes : List UInt8) (rows : List (List UInt8)) : Prop where
  flatten : rows.flatten = bytes
  length : rows.length = bytes.length ⌈/⌉ 16
  full : ∀ row ∈ rows.dropLast, row.length = 16
  bounds : ∀ row ∈ rows, row ≠ [] ∧ row.length ≤ 16

theorem length_rows : ∀ {count : Nat} {bytes : List UInt8}, (rows count bytes).length = count
  | 0, _ => rfl
  | _ + 1, _ => congrArg Nat.succ length_rows

/-- The bytes lie in rows where there is no row too few and none too many. -/
theorem tiles_rows : ∀ {count : Nat} {bytes : List UInt8}, bytes.length ≤ 16 * count →
    16 * count < bytes.length + 16 → Tiles bytes (rows count bytes)
  | 0, bytes, hle, _ => by
    obtain rfl := List.length_eq_zero_iff.mp (Nat.le_zero.mp hle)
    exact ⟨rfl, rfl, nofun, nofun⟩
  | count + 1, bytes, hle, hlt => by
    have hdrop : (bytes.drop 16).length = bytes.length - 16 := List.length_drop
    have htake : (bytes.take 16).length = min 16 bytes.length := List.length_take
    have hrest : Tiles (bytes.drop 16) (rows count (bytes.drop 16)) := tiles_rows (by omega) (by omega)
    refine ⟨?_, ?_, ?_, ?_⟩
    · rw [rows, List.flatten_cons, hrest.flatten, List.take_append_drop]
    · rw [length_rows, Nat.ceilDiv_eq_add_pred_div]
      omega
    · -- Where another row follows, more than sixteen bytes are left.
      intro row hrow
      cases count with
      | zero => cases hrow
      | succ count =>
        rcases List.mem_cons.mp hrow with rfl | hlater
        · omega
        · exact hrest.full row hlater
    · intro row hrow
      rcases List.mem_cons.mp hrow with rfl | hlater
      · rw [← List.length_pos_iff]
        omega
      · exact hrest.bounds row hlater

/-! ## Lines -/

/-- The cells of bytes: the digits of each, and a blank behind them. -/
def cells (bytes : List UInt8) : List Char := bytes.flatMap fun b => twoDigits b ++ [' ']

/-- The line of a row: its cells, with a bar behind the eighth of more than eight, and
a line feed at the end. -/
inductive IsLine : List UInt8 → List Char → Prop
  | short {row : List UInt8} (h : row.length ≤ 8) : IsLine row (cells row ++ ['\n'])
  | long {left right : List UInt8} (hleft : left.length = 8) (hright : right ≠ []) :
    IsLine (left ++ right) (cells left ++ ['|', ' '] ++ cells right ++ ['\n'])

theorem hexGroup_eq (bytes : List UInt8) : hexGroup bytes = cells bytes := by
  simp only [hexGroup, cells, ofByte_lower]

theorem hexRow_isLine (row : List UInt8) : IsLine row (hexRow row) := by
  rw [hexRow, hexGroup_eq, hexGroup_eq]
  by_cases h : row.length ≤ 8
  · have hempty : (row.drop 8).isEmpty = true := by rw [List.drop_of_length_le h, List.isEmpty_nil]
    rw [if_pos hempty, List.take_of_length_le h, List.append_nil]
    exact .short h
  · have hleft : (row.take 8).length = 8 := by
      rw [List.length_take]
      omega
    have hright : row.drop 8 ≠ [] := by
      rw [← List.length_pos_iff, List.length_drop]
      omega
    have hline := IsLine.long hleft hright
    rw [List.take_append_drop] at hline
    rw [if_neg (by simpa using hright)]
    simpa using hline

/-- The lines of a dump. -/
theorem hexDump_eq (bytes : List UInt8) :
    ∃ rows lines, Tiles bytes rows ∧ List.Forall₂ IsLine rows lines ∧ hexDump bytes = lines.flatten := by
  have htiles : Tiles bytes (rows ((bytes.length + 15) / 16) bytes) := tiles_rows (by omega) (by omega)
  refine ⟨_, _, htiles, ?_, List.flatMap_def⟩
  rw [List.forall₂_map_right_iff, List.forall₂_same]
  exact fun row _ => hexRow_isLine row

/-! ## The bytes behind the marks -/

/-- The text without its blanks, bars and line feeds. -/
def unmarked (text : List Char) : List Char := text.filter fun c => c ≠ ' ' ∧ c ≠ '|' ∧ c ≠ '\n'

theorem unmarked_append (l r : List Char) : unmarked (l ++ r) = unmarked l ++ unmarked r := List.filter_append ..

theorem unmarked_twoDigits (b : UInt8) : unmarked (twoDigits b) = twoDigits b := by
  have hdigits : ∀ d < 16, d.digitChar ≠ ' ' ∧ d.digitChar ≠ '|' ∧ d.digitChar ≠ '\n' := by decide
  have hhigh := hdigits (b.toNat / 16) (by have := b.toNat_lt; omega)
  have hlow := hdigits (b.toNat % 16) (Nat.mod_lt _ (by decide))
  simp [unmarked, twoDigits, hhigh, hlow]

theorem unmarked_cells (bytes : List UInt8) : unmarked (cells bytes) = bytes.flatMap twoDigits := by
  induction bytes with
  | nil => rfl
  | cons b bytes ih =>
    have hcell : cells (b :: bytes) = twoDigits b ++ [' '] ++ cells bytes := List.flatMap_cons
    rw [hcell, unmarked_append, unmarked_append, unmarked_twoDigits, ih, List.flatMap_cons]
    simp [unmarked]

theorem IsLine.unmarked_eq {row : List UInt8} {line : List Char} (h : IsLine row line) :
    unmarked line = row.flatMap twoDigits := by
  cases h with
  | short =>
    rw [unmarked_append, unmarked_cells]
    simp [unmarked]
  | long =>
    rw [unmarked_append, unmarked_append, unmarked_append, unmarked_cells, unmarked_cells, List.flatMap_append]
    simp [unmarked]

theorem unmarked_lines {rows : List (List UInt8)} {lines : List (List Char)} (h : List.Forall₂ IsLine rows lines) :
    unmarked lines.flatten = rows.flatten.flatMap twoDigits := by
  induction h with
  | nil => rfl
  | cons hline _ ih =>
    rw [List.flatten_cons, List.flatten_cons, unmarked_append, List.flatMap_append, hline.unmarked_eq, ih]

/-! ## Reading back -/

/-- Where no text of a byte is empty or goes on as that of another, the bytes are seen from
all their texts. -/
theorem flatMap_injective {text : UInt8 → List Char} (hne : ∀ b, text b ≠ [])
    (hcode : ∀ {a b : UInt8} {r s : List Char}, text a ++ r = text b ++ s → a = b ∧ r = s) :
    ∀ {xs ys : List UInt8}, xs.flatMap text = ys.flatMap text → xs = ys
  | [], [], _ => rfl
  | [], y :: ys, h => absurd (List.append_eq_nil_iff.mp h.symm).1 (hne y)
  | x :: xs, [], h => absurd (List.append_eq_nil_iff.mp h).1 (hne x)
  | x :: xs, y :: ys, h => by
    obtain ⟨rfl, hrest⟩ := hcode h
    rw [flatMap_injective hne hcode hrest]

/-- What comes first up to a blank is seen from the text. -/
theorem append_blank_inj {l₁ l₂ r₁ r₂ : List Char} (h₁ : ' ' ∉ l₁) (h₂ : ' ' ∉ l₂)
    (h : l₁ ++ ' ' :: r₁ = l₂ ++ ' ' :: r₂) : l₁ = l₂ ∧ r₁ = r₂ := by
  -- Either front is what stands before the first blank.
  have hfront : ∀ {l r : List Char}, ' ' ∉ l → (l ++ ' ' :: r).takeWhile (· ≠ ' ') = l := by
    intro l r hl
    have hall : ∀ c ∈ l, decide (c ≠ ' ') = true := by
      intro c hc
      refine decide_eq_true fun hblank => hl ?_
      rwa [← hblank]
    rw [List.takeWhile_append_of_pos hall]
    simp
  have hl : l₁ = l₂ := by rw [← hfront h₁ (r := r₁), h, hfront h₂]
  subst hl
  exact ⟨rfl, (List.cons.inj (List.append_cancel_left h)).2⟩

/-- A number is read back from its digits, up to a blank. -/
theorem decimal_blank_inj {m n : Nat} {r s : List Char}
    (h : (toString m).toList ++ ' ' :: r = (toString n).toList ++ ' ' :: s) : m = n ∧ r = s := by
  have hdigits : ∀ k : Nat, (toString k).toList = Nat.toDigits 10 k := by
    intro k
    rw [Nat.toString_eq_ofList_toDigits, String.toList_ofList]
  have hblank : ∀ k : Nat, ' ' ∉ Nat.toDigits 10 k := by
    intro k hmem
    exact absurd (Nat.isDigit_of_mem_toDigits (by decide) (by decide) hmem) (by decide)
  rw [hdigits, hdigits] at h
  obtain ⟨hsame, hrest⟩ := append_blank_inj (hblank m) (hblank n) h
  have hnumber : m = n :=
    calc
      m = Nat.ofDigitChars 10 (Nat.toDigits 10 m) 0 := Nat.ofDigitChars_ten_toDigits.symm
      _ = Nat.ofDigitChars 10 (Nat.toDigits 10 n) 0 := by rw [hsame]
      _ = n := Nat.ofDigitChars_ten_toDigits
  exact ⟨hnumber, hrest⟩

theorem twoDigits_append_inj {a b : UInt8} {r s : List Char} (h : twoDigits a ++ r = twoDigits b ++ s) :
    a = b ∧ r = s := by
  obtain ⟨hdigits, hrest⟩ := List.append_inj h rfl
  exact ⟨twoDigits_inj.mp hdigits, hrest⟩

theorem hexDump_injective {xs ys : List UInt8} (h : hexDump xs = hexDump ys) : xs = ys := by
  have hdigits : ∀ bytes, unmarked (hexDump bytes) = bytes.flatMap twoDigits := by
    intro bytes
    obtain ⟨rows, lines, htiles, hlines, hdump⟩ := hexDump_eq bytes
    rw [hdump, unmarked_lines hlines, htiles.flatten]
  have hsame : xs.flatMap twoDigits = ys.flatMap twoDigits := by rw [← hdigits, ← hdigits, h]
  exact flatMap_injective (fun _ => List.cons_ne_nil _ _) twoDigits_append_inj hsame

theorem decimalDump_injective {xs ys : List UInt8} (h : decimalDump xs = decimalDump ys) : xs = ys := by
  refine flatMap_injective (fun b => ?nonempty) ?inj h
  case nonempty => exact List.append_ne_nil_of_right_ne_nil _ (by decide)
  case inj =>
    intro a b r s heq
    have hsplit : (toString a.toNat).toList ++ ' ' :: ('-' :: ' ' :: r) =
        (toString b.toNat).toList ++ ' ' :: ('-' :: ' ' :: s) := by simpa using heq
    obtain ⟨hnumber, hrest⟩ := decimal_blank_inj hsplit
    exact ⟨UInt8.toNat.inj hnumber, (List.cons.inj (List.cons.inj hrest).2).2⟩

/-! ## The text of a dump -/

/-- What a dump begins with. -/
def header (count : Nat) : String := "STORAGE_SIZE: " ++ toString count ++ " "

theorem toList_header (count : Nat) :
    (header count).toList = "STORAGE_SIZE: ".toList ++ (toString count).toList ++ [' '] :=
  String.toList_append.trans (congrArg (· ++ [' ']) String.toList_append)

theorem header_append_inj {m n : Nat} {r s : List Char}
    (h : header m ++ String.ofList r = header n ++ String.ofList s) : r = s := by
  have htext : ∀ (k : Nat) (body : List Char), (header k ++ String.ofList body).toList =
      "STORAGE_SIZE: ".toList ++ ((toString k).toList ++ ' ' :: body) := by
    intro k body
    have hbody : (String.ofList body).toList = body := String.toList_ofList
    rw [String.toList_append, toList_header, hbody, List.append_assoc, List.append_assoc, List.singleton_append]
  have hsame := congrArg String.toList h
  rw [htext, htext, List.append_cancel_left_eq] at hsame
  exact (decimal_blank_inj hsame).2

theorem dumpTo_hexadecimal (b : Buffer) :
    b.dumpTo true .hexadecimal = [header b.contents.length ++ String.ofList (hexDump b.contents)] := rfl

theorem dumpTo_decimal (b : Buffer) :
    b.dumpTo true .decimal = [header b.contents.length ++ String.ofList (decimalDump b.contents)] := rfl

/-- A dump says which bytes a buffer holds, whatever its cursors: in hexadecimal it is
one text, a header with their number and then the lines of their rows, which without
the marks are the digits of them all; in decimal it is the header and each byte in
turn. Buffers with other bytes have another dump in either form, and a sink that is
not enabled is given none. -/
theorem dump_lossless (b : Buffer) :
    (∃ rows lines, Tiles b.contents rows ∧ List.Forall₂ IsLine rows lines ∧
      b.dumpTo true .hexadecimal = [header b.size ++ String.ofList lines.flatten] ∧
      unmarked lines.flatten = b.contents.flatMap twoDigits) ∧
    b.dumpTo true .decimal =
      [header b.size ++ String.join (b.contents.map fun byte => toString byte.toNat ++ " - ")] ∧
    (∀ b' : Buffer, b.dumpTo true .hexadecimal = b'.dumpTo true .hexadecimal ↔ b.contents = b'.contents) ∧
    (∀ b' : Buffer, b.dumpTo true .decimal = b'.dumpTo true .decimal ↔ b.contents = b'.contents) ∧
    ∀ form, b.dumpTo false form = [] := by
  refine ⟨?lines, ?numbers, fun b' => ?hexadecimal, fun b' => ?decimal, fun _ => rfl⟩
  case lines =>
    obtain ⟨rows, lines, htiles, hlines, hdump⟩ := hexDump_eq b.contents
    refine ⟨rows, lines, htiles, hlines, ?_, ?_⟩
    · rw [dumpTo_hexadecimal, hdump, size]
    · rw [unmarked_lines hlines, htiles.flatten]
  case numbers =>
    have hjoin : String.ofList (decimalDump b.contents) =
        String.join (b.contents.map fun byte => toString byte.toNat ++ " - ") := by
      apply String.toList_inj.mp
      simp [decimalDump, String.toList_join, List.flatMap_map]
    rw [dumpTo_decimal, hjoin, size]
  case hexadecimal =>
    rw [dumpTo_hexadecimal, dumpTo_hexadecimal]
    exact ⟨fun h => hexDump_injective (header_append_inj (List.singleton_inj.mp h)), fun h => by rw [h]⟩
  case decimal =>
    rw [dumpTo_decimal, dumpTo_decimal]
    exact ⟨fun h => decimalDump_injective (header_append_inj (List.singleton_inj.mp h)), fun h => by rw [h]⟩

example : dumpTo true .hexadecimal { empty with contents := [72, 105, 0, 16, 17, 18, 19, 20, 21, 22] } =
    ["STORAGE_SIZE: 10 48 69 00 10 11 12 13 14 | 15 16 \n"] := by
  decide

end PacketWire.Buffer
