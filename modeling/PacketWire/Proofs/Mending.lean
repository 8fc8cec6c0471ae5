/-
Text made of any bytes.

A run is well-formed if it is the bytes of some text (`WellFormed`), and that is what
decoding asks of it. `Mended` says how a run is read that need not be: a character
for its bytes, and a replacement for each byte that begins none and for each
character that stops short, as far as it goes. There is one way to do so
(`Mended.unique`), and the scan that makes text of any bytes finds it (`mended_iff`).
-/
import Mathlib.Tactic.SplitIfs
import PacketWire.Proofs.Value

namespace PacketWire.Text.Utf8

open String (utf8EncodeChar)

/-! ## Well-formed runs -/

theorem encode_injective {s t : String} (h : encode s = encode t) : s = t := by
  have hs := decode?_encode s
  rw [h, decode?_encode] at hs
  exact (Option.some.inj hs).symm

/-- The bytes are those of some text. -/
def WellFormed (bytes : List UInt8) : Prop := ∃ text, encode text = bytes

theorem decode?_eq_some_iff {bytes : List UInt8} {text : String} :
    decode? bytes = some text ↔ encode text = bytes :=
  ⟨encode_of_decode?, fun h => h ▸ decode?_encode text⟩

theorem decode?_eq_none_iff {bytes : List UInt8} : decode? bytes = none ↔ ¬ WellFormed bytes := by
  simp only [Option.eq_none_iff_forall_ne_some, ne_eq, decode?_eq_some_iff, WellFormed, not_exists]

/-! ## Runs that are mended -/

/-- The bytes begin a character, or are all of it. -/
def Begins (part : List UInt8) : Prop := ∃ c, part <+: utf8EncodeChar c

/-- The bytes begin a character and stop short. -/
def Unfinished (part : List UInt8) : Prop :=
  part ≠ [] ∧ ∃ c rest, rest ≠ [] ∧ utf8EncodeChar c = part ++ rest

/-- How a run is read from its front: the bytes taken, those behind them, and what is found. -/
inductive Piece : List UInt8 → List UInt8 → Char → Prop
  /-- A character is read as itself. -/
  | character {rest} (c : Char) : Piece (utf8EncodeChar c) rest c
  /-- A byte that begins no character is replaced. -/
  | stray {b rest} : ¬ Begins [b] → Piece [b] rest replacement
  /-- A character that stops short is replaced, up to the byte that does not go on with it. -/
  | cut {part rest} : Unfinished part → (∀ b ∈ rest.head?, ¬ Begins (part ++ [b])) → Piece part rest replacement

/-- The text of a run of bytes, with a replacement for what spells no character. -/
inductive Mended : List UInt8 → List Char → Prop
  | nil : Mended [] []
  | next {part rest c text} : Piece part rest c → Mended rest text → Mended (part ++ rest) (c :: text)

/-! ## One way to mend a run -/

theorem Begins.of_append {part rest : List UInt8} (h : Begins (part ++ rest)) : Begins part :=
  let ⟨c, hc⟩ := h
  ⟨c, (List.prefix_append part rest).trans hc⟩

theorem begins_utf8EncodeChar (c : Char) : Begins (utf8EncodeChar c) := ⟨c, List.prefix_refl _⟩

theorem Unfinished.begins {part : List UInt8} (h : Unfinished part) : Begins part :=
  let ⟨_, c, rest, _, hc⟩ := h
  ⟨c, rest, hc.symm⟩

/-- No character begins with another. -/
theorem utf8EncodeChar_append_inj {c d : Char} {rest : List UInt8} (h : utf8EncodeChar d = utf8EncodeChar c ++ rest) :
    d = c ∧ rest = [] := by
  have hc : ((utf8EncodeChar c).toByteArray ++ rest.toByteArray).utf8DecodeChar? 0 = some c :=
    ByteArray.utf8DecodeChar?_utf8EncodeChar_append
  have hd : ((utf8EncodeChar d).toByteArray ++ [].toByteArray).utf8DecodeChar? 0 = some d :=
    ByteArray.utf8DecodeChar?_utf8EncodeChar_append
  rw [← List.toByteArray_append, List.append_nil, h, List.toByteArray_append, hc] at hd
  obtain rfl := Option.some.inj hd
  exact ⟨rfl, by simpa using h⟩

theorem Unfinished.ne_utf8EncodeChar {part : List UInt8} (h : Unfinished part) (c : Char) :
    part ≠ utf8EncodeChar c := by
  rintro rfl
  obtain ⟨-, d, tail, htail, hd⟩ := h
  exact htail (utf8EncodeChar_append_inj hd).2

theorem Piece.ne_nil {part rest : List UInt8} {c : Char} (h : Piece part rest c) : part ≠ [] := by
  cases h with
  | character => exact String.utf8EncodeChar_ne_nil
  | stray => simp
  | cut h => exact h.1

/-- What is taken begins a character, or is a byte that begins none. -/
theorem Piece.begins_or {part rest : List UInt8} {c : Char} (h : Piece part rest c) :
    Begins part ∨ ∃ b, part = [b] ∧ ¬ Begins [b] := by
  cases h with
  | character => exact .inl (begins_utf8EncodeChar _)
  | stray h => exact .inr ⟨_, rfl, h⟩
  | cut h => exact .inl h.begins

/-- A piece goes as far as it can. -/
theorem Piece.longest {part more rest : List UInt8} {c d : Char} (h : Piece part (more ++ rest) c)
    (h' : Piece (part ++ more) rest d) : more = [] := by
  rcases h'.begins_or with hbegins | ⟨b, hsingle, -⟩
  · cases h with
    | character =>
      obtain ⟨e, tail, he⟩ := hbegins
      rw [List.append_assoc] at he
      exact (List.append_eq_nil_iff.mp (utf8EncodeChar_append_inj he.symm).2).1
    | stray hstray => exact absurd hbegins.of_append hstray
    | cut _ hstop =>
      cases more with
      | nil => rfl
      | cons b more =>
        rw [List.append_cons] at hbegins
        exact absurd hbegins.of_append (hstop b (by simp))
  · rcases List.append_eq_singleton_iff.mp hsingle with ⟨hnil, -⟩ | ⟨-, hmore⟩
    · exact absurd hnil h.ne_nil
    · exact hmore

/-- Bytes that are all of a character are found as it, and others as the replacement. -/
theorem Piece.found {part rest : List UInt8} {c : Char} (h : Piece part rest c) :
    part = utf8EncodeChar c ∨ (∀ d, part ≠ utf8EncodeChar d) ∧ c = replacement := by
  cases h with
  | character => exact .inl rfl
  | stray hstray => exact .inr ⟨fun d hd => hstray (hd ▸ begins_utf8EncodeChar d), rfl⟩
  | cut hcut => exact .inr ⟨hcut.ne_utf8EncodeChar, rfl⟩

theorem Piece.unique {part rest rest' : List UInt8} {c d : Char} (h : Piece part rest c) (h' : Piece part rest' d) :
    c = d := by
  rcases h.found, h'.found with ⟨hc | ⟨hnone, rfl⟩, hd | ⟨hnone', rfl⟩⟩
  · have hsame : utf8EncodeChar c = utf8EncodeChar d ++ [] := by rw [List.append_nil, ← hc, ← hd]
    exact (utf8EncodeChar_append_inj hsame).1
  · exact absurd hc (hnone' c)
  · exact absurd hd (hnone d)
  · rfl

theorem Mended.unique {bytes : List UInt8} {s t : List Char} (hs : Mended bytes s) (ht : Mended bytes t) : s = t := by
  induction hs generalizing t with
  | nil =>
    generalize hnil : ([] : List UInt8) = bytes at ht
    cases ht with
    | nil => rfl
    | next piece => exact absurd (List.append_eq_nil_iff.mp hnil.symm).1 piece.ne_nil
  | @next part rest c s piece hrest ih =>
    generalize hbytes : part ++ rest = bytes at ht
    cases ht with
    | nil => exact absurd (List.append_eq_nil_iff.mp hbytes).1 piece.ne_nil
    | @next part' rest' d t piece' hrest' =>
      obtain ⟨more, rfl, rfl⟩ | ⟨more, rfl, rfl⟩ := List.append_eq_append_iff.mp hbytes
      · obtain rfl := piece.longest piece'
        rw [List.append_nil] at piece'
        rw [piece.unique piece', ih hrest']
      · obtain rfl := piece'.longest piece
        rw [List.append_nil] at piece
        rw [piece.unique piece', ih hrest']

/-! ## The bytes of a character -/

/-- The bytes of a character as numbers: a first one that tells how many there are, and six bits in each other. -/
theorem toNat_utf8EncodeChar (c : Char) : (utf8EncodeChar c).map UInt8.toNat =
    if c.toNat < 0x80 then [c.toNat]
    else if c.toNat < 0x800 then [0xC0 + c.toNat / 64, 0x80 + c.toNat % 64]
    else if c.toNat < 0x10000 then [0xE0 + c.toNat / 4096, 0x80 + c.toNat / 64 % 64, 0x80 + c.toNat % 64]
    else [0xF0 + c.toNat / 262144, 0x80 + c.toNat / 4096 % 64, 0x80 + c.toNat / 64 % 64, 0x80 + c.toNat % 64] := by
  have hc : c.val.toNat = c.toNat := rfl
  have hvalid : c.toNat.isValidChar := c.valid
  simp only [String.utf8EncodeChar.eq_1, hc]
  split_ifs <;> simp <;> omega

/-- Three bytes are those of a character that two would not do for. -/
theorem toNat_utf8EncodeChar_eq_three {c : Char} {x y z : Nat} : (utf8EncodeChar c).map UInt8.toNat = [x, y, z] ↔
    (0x800 ≤ c.toNat ∧ c.toNat < 0x10000) ∧ 0xE0 + c.toNat / 4096 = x ∧ 0x80 + c.toNat / 64 % 64 = y ∧
      0x80 + c.toNat % 64 = z := by
  rw [toNat_utf8EncodeChar]
  split_ifs <;> simp <;> omega

/-- Four bytes are those of a character that three would not do for. -/
theorem toNat_utf8EncodeChar_eq_four {c : Char} {x y z w : Nat} :
    (utf8EncodeChar c).map UInt8.toNat = [x, y, z, w] ↔
      0x10000 ≤ c.toNat ∧ 0xF0 + c.toNat / 262144 = x ∧ 0x80 + c.toNat / 4096 % 64 = y ∧
        0x80 + c.toNat / 64 % 64 = z ∧ 0x80 + c.toNat % 64 = w := by
  rw [toNat_utf8EncodeChar]
  split_ifs <;> simp <;> omega

theorem toNat_ofNat {n : Nat} (h : n.isValidChar) : (Char.ofNat n).toNat = n := by
  rw [Char.ofNat, dif_pos h]
  rfl

theorem eq_ofNat_iff {c : Char} {n : Nat} (h : n.isValidChar) : c = Char.ofNat n ↔ c.toNat = n := by
  constructor
  · rintro rfl
    exact toNat_ofNat h
  · rintro rfl
    exact (Char.ofNat_toNat c).symm

theorem map_toNat_inj {xs ys : List UInt8} : xs.map UInt8.toNat = ys.map UInt8.toNat ↔ xs = ys :=
  List.map_inj_right fun _ _ => UInt8.toNat.inj

theorem utf8EncodeChar_ascii {b : UInt8} (h : b.toNat < 0x80) :
    utf8EncodeChar (Char.ofNat b.toNat) = [b] := by
  have hchar : (Char.ofNat b.toNat).toNat = b.toNat := toNat_ofNat (.inl (by omega))
  rw [← map_toNat_inj, toNat_utf8EncodeChar, hchar, if_pos h]
  rfl

/-- What is to come of a character begun: bytes, the next in its range, that end it as `c`. -/
def Begun.Ends (g : Begun) : List UInt8 → Char → Prop
  | [], c => g.missing = 0 ∧ c = Char.ofNat g.value
  | b :: rest, c => g.missing ≠ 0 ∧ g.low ≤ b ∧ b ≤ g.high ∧
    Ends ⟨64 * g.value + (b.toNat - 0x80), g.missing - 1, 0x80, 0xBF⟩ rest c

/-- A character of two bytes. -/
theorem ends_two {b : UInt8} (hl : 0xC2 ≤ b.toNat) (hh : b.toNat ≤ 0xDF) (tail : List UInt8) (c : Char) :
    utf8EncodeChar c = b :: tail ↔ Begun.Ends ⟨b.toNat - 0xC0, 1, 0x80, 0xBF⟩ tail c := by
  rw [← map_toNat_inj, toNat_utf8EncodeChar]
  match tail with
  | [t] =>
    have hvalid : (64 * (b.toNat - 0xC0) + (t.toNat - 0x80)).isValidChar := .inl (by have := t.toNat_lt; omega)
    simp only [Begun.Ends, UInt8.le_iff_toNat_le, eq_ofNat_iff hvalid]
    split_ifs <;> simp <;> omega
  | [] | _ :: _ :: _ =>
    simp only [Begun.Ends]
    split_ifs <;> simp <;> omega

/-- A character of three bytes; the second leaves out what two would do for, and the surrogates. -/
theorem ends_three {b low high : UInt8} {value : Nat} (hb : value + 0xE0 = b.toNat) (hvalue : value ≤ 0xF)
    (hrange : ∀ t : Nat, low.toNat ≤ t ∧ t ≤ high.toNat ↔
      (0x80 ≤ t ∧ t ≤ 0xBF) ∧ (value = 0 → 0xA0 ≤ t) ∧ (value = 0xD → t ≤ 0x9F)) (tail : List UInt8) (c : Char) :
    utf8EncodeChar c = b :: tail ↔ Begun.Ends ⟨value, 2, low, high⟩ tail c := by
  rw [← map_toNat_inj]
  match tail with
  | [t, u] =>
    have hscalar : c.toNat.isValidChar := c.valid
    simp only [List.map_cons, List.map_nil, toNat_utf8EncodeChar_eq_three, Begun.Ends, UInt8.le_iff_toNat_le,
      UInt8.reduceToNat]
    constructor
    · rintro ⟨⟨hlong, hshort⟩, hfirst, hsecond, hthird⟩
      have hn : c.toNat = 64 * (64 * value + (t.toNat - 0x80)) + (u.toNat - 0x80) := by omega
      have hu : 0x80 ≤ u.toNat ∧ u.toNat ≤ 0xBF := by omega
      have hin := (hrange t.toNat).mpr (by omega)
      exact ⟨by decide, hin.1, hin.2, by decide, hu.1, hu.2, trivial, by rw [← hn, Char.ofNat_toNat]⟩
    · rintro ⟨-, hlow, hhigh, -, hu, hu', -, hc⟩
      have ht := (hrange t.toNat).mp ⟨hlow, hhigh⟩
      rw [hc, toNat_ofNat (by omega)]
      omega
  | [] | [_] | _ :: _ :: _ :: _ =>
    simp only [Begun.Ends, toNat_utf8EncodeChar]
    split_ifs <;> simp
    omega

/-- A character of four bytes; the second leaves out what three would do for, and what no character is. -/
theorem ends_four {b low high : UInt8} {value : Nat} (hb : value + 0xF0 = b.toNat) (hvalue : value ≤ 4)
    (hrange : ∀ t : Nat, low.toNat ≤ t ∧ t ≤ high.toNat ↔
      (0x80 ≤ t ∧ t ≤ 0xBF) ∧ (value = 0 → 0x90 ≤ t) ∧ (value = 4 → t ≤ 0x8F)) (tail : List UInt8) (c : Char) :
    utf8EncodeChar c = b :: tail ↔ Begun.Ends ⟨value, 3, low, high⟩ tail c := by
  rw [← map_toNat_inj]
  match tail with
  | [t, u, v] =>
    have hscalar : c.toNat.isValidChar := c.valid
    simp only [List.map_cons, List.map_nil, toNat_utf8EncodeChar_eq_four, Begun.Ends, UInt8.le_iff_toNat_le,
      UInt8.reduceToNat]
    constructor
    · rintro ⟨hlong, hfirst, hsecond, hthird, hfourth⟩
      have hn : c.toNat = 64 * (64 * (64 * value + (t.toNat - 0x80)) + (u.toNat - 0x80)) + (v.toNat - 0x80) := by
        omega
      have hu : 0x80 ≤ u.toNat ∧ u.toNat ≤ 0xBF := by omega
      have hv : 0x80 ≤ v.toNat ∧ v.toNat ≤ 0xBF := by omega
      have hin := (hrange t.toNat).mpr (by omega)
      exact ⟨by decide, hin.1, hin.2, by decide, hu.1, hu.2, by decide, hv.1, hv.2, trivial,
        by rw [← hn, Char.ofNat_toNat]⟩
    · rintro ⟨-, hlow, hhigh, -, hu, hu', -, hv, hv', -, hc⟩
      have ht := (hrange t.toNat).mp ⟨hlow, hhigh⟩
      rw [hc, toNat_ofNat (by omega)]
      omega
  | [] | [_] | [_, _] | _ :: _ :: _ :: _ :: _ =>
    simp only [Begun.Ends, toNat_utf8EncodeChar]
    split_ifs <;> simp <;> omega

/-- A first byte tells what is to come. -/
theorem begin?_ends {b : UInt8} {g : Begun} (h : begin? b = some g) (tail : List UInt8) (c : Char) :
    utf8EncodeChar c = b :: tail ↔ g.Ends tail c := by
  have hbyte : ∀ n : UInt8, b = n ↔ b.toNat = n.toNat := fun n => UInt8.toNat_inj.symm
  simp only [begin?, UInt8.le_iff_toNat_le, Bool.and_eq_true, decide_eq_true_eq, beq_iff_eq, hbyte,
    UInt8.reduceToNat] at h
  split_ifs at h <;> obtain rfl := Option.some.inj h
  · exact ends_two (by omega) (by omega) tail c
  · exact ends_three (by omega) (by omega) (fun t => by simp; omega) tail c
  · exact ends_three (by omega) (by omega) (fun t => by simp; omega) tail c
  · exact ends_three (by omega) (by omega) (fun t => by simp; omega) tail c
  · exact ends_four (by omega) (by omega) (fun t => by simp; omega) tail c
  · exact ends_four (by omega) (by omega) (fun t => by simp; omega) tail c
  · exact ends_four (by omega) (by omega) (fun t => by simp; omega) tail c

/-- A byte that begins nothing is the first of no character. -/
theorem not_begins_of_begin? {b : UInt8} (hb : 0x80 ≤ b.toNat) (h : begin? b = none) : ¬ Begins [b] := by
  rintro ⟨c, tail, hc⟩
  have hscalar : c.toNat.isValidChar := c.valid
  have hfirst := congrArg (List.map UInt8.toNat) hc
  rw [toNat_utf8EncodeChar] at hfirst
  simp only [begin?, UInt8.le_iff_toNat_le, Bool.and_eq_true, decide_eq_true_eq, beq_iff_eq, ← UInt8.toNat_inj,
    UInt8.reduceToNat] at h
  split_ifs at h hfirst <;> simp at hfirst <;> omega

/-! ## Characters begun -/

/-- These bytes of a character have come, and it is known what is to come of it. -/
structure Begun.Of (g : Begun) (part : List UInt8) : Prop where
  part_ne : part ≠ []
  missing_ne : g.missing ≠ 0
  low_le : g.low ≤ g.high
  ends : ∀ tail c, utf8EncodeChar c = part ++ tail ↔ g.Ends tail c

theorem begun_of_begin? {b : UInt8} {g : Begun} (h : begin? b = some g) : g.Of [b] where
  part_ne := by simp
  missing_ne := by
    unfold begin? at h
    split_ifs at h <;> obtain rfl := Option.some.inj h <;> exact Nat.succ_ne_zero _
  low_le := by
    unfold begin? at h
    split_ifs at h <;> obtain rfl := Option.some.inj h <;> simp
  ends := begin?_ends h

/-- Whatever is to come can come. -/
theorem Begun.exists_ends : ∀ (value missing : Nat) (low high : UInt8), low ≤ high →
    ∃ tail c, Begun.Ends ⟨value, missing, low, high⟩ tail c
  | value, 0, _, _, _ => ⟨[], Char.ofNat value, rfl, rfl⟩
  | value, missing + 1, low, _, h =>
    have ⟨tail, c, hends⟩ := exists_ends (64 * value + (low.toNat - 0x80)) missing 0x80 0xBF (by decide)
    ⟨low :: tail, c, Nat.succ_ne_zero _, UInt8.le_refl _, h, hends⟩

namespace Begun.Of

variable {g : Begun} {part : List UInt8}

theorem unfinished (h : g.Of part) : Unfinished part := by
  obtain ⟨tail, c, hends⟩ := Begun.exists_ends g.value g.missing g.low g.high h.low_le
  refine ⟨h.part_ne, c, tail, ?_, (h.ends tail c).mpr hends⟩
  rintro rfl
  exact h.missing_ne hends.1

/-- A byte out of the range does not go on with the character. -/
theorem not_begins (h : g.Of part) {b : UInt8} (hb : ¬ (g.low ≤ b ∧ b ≤ g.high)) : ¬ Begins (part ++ [b]) := by
  rintro ⟨c, tail, hc⟩
  rw [List.append_assoc] at hc
  obtain ⟨-, hlow, hhigh, -⟩ := (h.ends _ c).mp hc.symm
  exact hb ⟨hlow, hhigh⟩

/-- The last byte ends the character. -/
theorem done (h : g.Of part) {b : UInt8} (hlow : g.low ≤ b) (hhigh : b ≤ g.high) (hlast : g.missing ≤ 1) :
    utf8EncodeChar (Char.ofNat (64 * g.value + (b.toNat - 0x80))) = part ++ [b] := by
  have hmissing := h.missing_ne
  exact (h.ends [b] _).mpr ⟨hmissing, hlow, hhigh, by simp only; omega, rfl⟩

/-- A byte before the last leaves it begun. -/
theorem next (h : g.Of part) {b : UInt8} (hlow : g.low ≤ b) (hhigh : b ≤ g.high) (hmore : ¬ g.missing ≤ 1) :
    Begun.Of ⟨64 * g.value + (b.toNat - 0x80), g.missing - 1, 0x80, 0xBF⟩ (part ++ [b]) where
  part_ne := by simp
  missing_ne := by simp only; omega
  low_le := (by decide : (0x80 : UInt8) ≤ 0xBF)
  ends tail c := by
    rw [List.append_assoc, List.singleton_append, h.ends]
    exact ⟨fun hends => hends.2.2.2, fun hends => ⟨h.missing_ne, hlow, hhigh, hends⟩⟩

end Begun.Of

/-! ## The scan -/

/-- From here on the scan finds the text of these bytes, mended, behind what it has found. -/
def Mends (scan : Scan) (found : List Char) (bytes rest : List UInt8) : Prop :=
  ∃ text, (rest.foldl Scan.step scan).finish = found.reverse ++ text ∧ Mended bytes text

/-- What was found last is the text of the bytes in front. -/
theorem Mends.put {scan : Scan} {found : List Char} {c : Char} {bytes whole rest : List UInt8}
    (h : Mends scan (c :: found) bytes rest) (hput : ∀ text, Mended bytes text → Mended whole (c :: text)) :
    Mends scan found whole rest := by
  obtain ⟨text, hscan, hmended⟩ := h
  refine ⟨c :: text, ?_, hput text hmended⟩
  rw [hscan, List.reverse_cons, List.append_assoc, List.singleton_append]

section
variable {rest : List UInt8} (hrest : ∀ found, Mends ⟨found, none⟩ found rest rest)
  (hbegun : ∀ found g part, Begun.Of g part → Mends ⟨found, some g⟩ found (part ++ rest) rest)
include hrest hbegun

theorem mends_start (found : List Char) (b : UInt8) : Mends (Scan.start found b) found (b :: rest) rest := by
  unfold Scan.start
  split
  next hb =>
    have hchar := utf8EncodeChar_ascii (UInt8.lt_iff_toNat_lt.mp hb)
    refine (hrest _).put fun text hmended => ?_
    have hwhole := hmended.next (.character (Char.ofNat b.toNat))
    rwa [hchar] at hwhole
  next hb =>
    have hlarge : 0x80 ≤ b.toNat := Nat.not_lt.mp fun hlt => hb (UInt8.lt_iff_toNat_lt.mpr hlt)
    split
    next g hg => exact hbegun found g [b] (begun_of_begin? hg)
    next hg => exact (hrest _).put fun text hmended => hmended.next (.stray (not_begins_of_begin? hlarge hg))

theorem mends_step {found : List Char} {g : Begun} {part : List UInt8} (h : g.Of part) (b : UInt8) :
    Mends (Scan.step ⟨found, some g⟩ b) found (part ++ b :: rest) rest := by
  simp only [Scan.step, Bool.and_eq_true, decide_eq_true_eq]
  split
  next hin =>
    rw [List.append_cons]
    split
    next hlast =>
      refine (hrest _).put fun text hmended => ?_
      rw [← h.done hin.1 hin.2 hlast]
      exact hmended.next (.character _)
    next hmore => exact hbegun found _ _ (h.next hin.1 hin.2 hmore)
  next hout =>
    -- The byte that does not go on with the character is looked at as one between characters.
    refine (mends_start hrest hbegun _ b).put fun text hmended => hmended.next (.cut h.unfinished ?_)
    simpa using h.not_begins hout

end

theorem mends_scan : ∀ bytes : List UInt8, (∀ found, Mends ⟨found, none⟩ found bytes bytes) ∧
    ∀ found g part, Begun.Of g part → Mends ⟨found, some g⟩ found (part ++ bytes) bytes
  | [] =>
    ⟨fun found => ⟨[], (List.append_nil _).symm, .nil⟩, fun found g part h =>
      ⟨[replacement], List.reverse_cons, .next (.cut h.unfinished (by simp)) .nil⟩⟩
  | b :: rest =>
    have ⟨hrest, hbegun⟩ := mends_scan rest
    ⟨fun found => mends_start hrest hbegun found b, fun _ _ _ h => mends_step hrest hbegun h b⟩

/-- The text of any bytes is their text, mended. -/
theorem mended_lossy (bytes : List UInt8) : Mended bytes (lossy bytes).toList := by
  obtain ⟨text, hscan, hmended⟩ := (mends_scan bytes).1 []
  have htext : (lossy bytes).toList = text := by
    rw [lossy, String.toList_ofList]
    exact hscan
  rwa [htext]

theorem mended_iff {bytes : List UInt8} {text : List Char} : Mended bytes text ↔ text = (lossy bytes).toList :=
  ⟨fun h => h.unique (mended_lossy bytes), fun h => h ▸ mended_lossy bytes⟩

end PacketWire.Text.Utf8
