/-
The laws of bit strings and byte runs.

`toNat_ofNat` and `ofNat_toNat` make bit strings and numbers inverse at a given
width, `ofByte_toByte` and `toByte_ofByte` do it for bytes. A run's bits come
apart where the run does (`eq_append_of_ofBytes`), and patching the run overwrites
them (`ofBytes_patch`). Single bits are found by `getElem?_ofNat` and
`getElem?_ofBytes`.
-/
import Mathlib.Algebra.Group.Nat.Defs
import PacketWire.Bits

namespace PacketWire

/-! ## Overwriting -/

theorem length_overwrite {α : Type} {xs src : List α} {pos : Nat} (h : pos ≤ xs.length) :
    (overwrite xs pos src).length = max xs.length (pos + src.length) := by
  simp only [overwrite, List.length_append, List.length_take, List.length_drop]
  omega

theorem take_overwrite {α : Type} {xs src : List α} {pos : Nat} (h : pos ≤ xs.length) :
    (overwrite xs pos src).take (pos + src.length) = xs.take pos ++ src := by
  have hlen : (xs.take pos ++ src).length = pos + src.length := by simp [h]
  rw [overwrite, ← hlen, List.take_left]

/-- What stands before the place that is written to stays. -/
theorem take_overwrite_of_le {α : Type} {xs src : List α} {pos n : Nat} (h : pos ≤ xs.length) (hn : n ≤ pos) :
    (overwrite xs pos src).take n = xs.take n := by
  have hwhole : (overwrite xs pos src).take (pos + src.length) = xs.take pos ++ src := take_overwrite h
  have hkept := congrArg (List.take n) hwhole
  have hlen : n ≤ (xs.take pos).length := by
    rw [List.length_take]
    omega
  rw [List.take_take, Nat.min_eq_left (by omega), List.take_append_of_le_length hlen, List.take_take,
    Nat.min_eq_left hn] at hkept
  exact hkept

/-- So does what stands behind it. -/
theorem drop_overwrite {α : Type} {xs src : List α} {pos : Nat} (h : pos ≤ xs.length) :
    (overwrite xs pos src).drop (pos + src.length) = xs.drop (pos + src.length) :=
  List.drop_left' (by rw [List.length_append, List.length_take_of_le h])

theorem overwrite_nil {α : Type} (xs : List α) (pos : Nat) : overwrite xs pos [] = xs := by
  rw [overwrite, List.append_nil, List.length_nil, Nat.add_zero, List.take_append_drop]

/-- One run behind another is both as one. -/
theorem overwrite_next {α : Type} {xs src : List α} {pos : Nat} (h : pos ≤ xs.length) (next : List α) :
    overwrite (overwrite xs pos src) (pos + src.length) next = overwrite xs pos (src ++ next) := by
  rw [overwrite, take_overwrite h, ← List.drop_drop, drop_overwrite h, List.drop_drop, overwrite,
    List.append_assoc (xs.take pos), List.length_append, Nat.add_assoc]

/-- From within what was written on, the rest of it comes next. -/
theorem take_drop_overwrite {α : Type} {xs : List α} {pos : Nat} (h : pos ≤ xs.length) (src : List α) (skip : Nat) :
    ((overwrite xs pos src).drop (pos + skip)).take (src.length - skip) = src.drop skip := by
  have hpos : (xs.take pos).length = pos := List.length_take_of_le h
  rw [overwrite, List.append_assoc, ← List.drop_drop, List.drop_left' hpos, ← List.drop_take, List.take_left]

theorem getElem?_overwrite_of_lt {α : Type} {xs src : List α} {pos i : Nat} (h : pos ≤ xs.length) (hi : i < pos) :
    (overwrite xs pos src)[i]? = xs[i]? := by
  have hlen : i < (xs.take pos).length := by simp only [List.length_take]; omega
  rw [overwrite, List.append_assoc, List.getElem?_append_left hlen, List.getElem?_take_of_lt hi]

theorem getElem?_overwrite_add {α : Type} {xs src : List α} {pos i : Nat} (h : pos ≤ xs.length)
    (hi : i < src.length) : (overwrite xs pos src)[pos + i]? = src[i]? := by
  have hlen : (xs.take pos).length = pos := List.length_take_of_le h
  rw [overwrite, List.append_assoc, List.getElem?_append_right (by omega), hlen, Nat.add_sub_cancel_left,
    List.getElem?_append_left hi]

theorem getElem?_overwrite_of_le {α : Type} {xs src : List α} {pos i : Nat} (h : pos ≤ xs.length)
    (hi : pos + src.length ≤ i) : (overwrite xs pos src)[i]? = xs[i]? := by
  have hlen : (xs.take pos ++ src).length = pos + src.length := by simp [h]
  rw [overwrite, List.getElem?_append_right (by omega), hlen, List.getElem?_drop, Nat.add_sub_of_le hi]

theorem overwrite_append_left {α : Type} {xs ys src : List α} {pos : Nat} (h : pos + src.length ≤ xs.length) :
    overwrite (xs ++ ys) pos src = overwrite xs pos src ++ ys := by
  rw [overwrite, List.take_append_of_le_length (by omega), List.drop_append_of_le_length h, overwrite,
    List.append_assoc, List.append_assoc, List.append_assoc]

theorem overwrite_append_right {α : Type} (xs ys src : List α) (pos : Nat) :
    overwrite (xs ++ ys) (xs.length + pos) src = xs ++ overwrite ys pos src := by
  rw [overwrite, List.take_length_add_append, Nat.add_assoc, List.drop_length_add_append, overwrite,
    List.append_assoc, List.append_assoc, List.append_assoc]

/-- A part is replaced by another of its length. -/
theorem overwrite_part {α : Type} (xs : List α) {old new : List α} (ys : List α) (h : new.length = old.length) :
    overwrite (xs ++ (old ++ ys)) xs.length new = xs ++ (new ++ ys) := by
  have hright := overwrite_append_right xs (old ++ ys) new 0
  have hall : overwrite old 0 new = new := by rw [overwrite, Nat.zero_add, h, List.drop_length]; simp
  rw [Nat.add_zero] at hright
  rw [hright, overwrite_append_left (by omega), hall]

/-- What is overwritten in a part of a run is overwritten in the run. -/
theorem overwrite_overwrite {α : Type} {xs src : List α} {start len pos : Nat} (h : start + len ≤ xs.length)
    (hpos : pos + src.length ≤ len) :
    overwrite xs start (overwrite ((xs.drop start).take len) pos src) = overwrite xs (start + pos) src := by
  have hfront : (xs.take start).length = start := List.length_take_of_le (by omega)
  have hpart : ((xs.drop start).take len).length = len := by
    rw [List.length_take, List.length_drop]
    omega
  have hsplit : xs = xs.take start ++ ((xs.drop start).take len ++ (xs.drop start).drop len) := by
    rw [List.take_append_drop, List.take_append_drop]
  generalize xs.take start = front, (xs.drop start).take len = part, (xs.drop start).drop len = back at *
  subst hsplit hfront
  have hlen : (overwrite part pos src).length = part.length := by
    rw [length_overwrite (by omega)]
    omega
  rw [overwrite_part front back hlen, overwrite_append_right, overwrite_append_left (by omega)]

namespace Bits

/-! ## Lengths -/

@[simp] theorem length_toBytes (count : Nat) (bits : List Bool) :
    (toBytes count bits).length = count := by
  simp [toBytes]

theorem length_patch {bytes : List UInt8} {pos : Nat} {bits : List Bool}
    (h : pos + bits.length ≤ 8 * bytes.length) : (patch bytes pos bits).length = bytes.length := by
  rw [patch, length_overwrite (by omega), length_toBytes]
  omega

/-! ## Numbers and their bits -/

theorem foldl_bits (bits : List Bool) (n : Nat) :
    bits.foldl (fun n bit => 2 * n + bit.toNat) n = n * 2 ^ bits.length + toNat bits := by
  suffices h : ∀ m, bits.foldl (fun n bit => 2 * n + bit.toNat) m =
      m * 2 ^ bits.length + bits.foldl (fun n bit => 2 * n + bit.toNat) 0 from h n
  induction bits with
  | nil => simp
  | cons bit bits ih =>
    intro m
    rw [List.foldl_cons, ih, List.foldl_cons, ih (2 * 0 + bit.toNat), List.length_cons, Nat.pow_succ]
    grind

theorem toNat_cons (bit : Bool) (bits : List Bool) :
    toNat (bit :: bits) = bit.toNat * 2 ^ bits.length + toNat bits := by
  rw [toNat, List.foldl_cons, foldl_bits]
  simp

theorem toNat_lt (bits : List Bool) : toNat bits < 2 ^ bits.length := by
  induction bits with
  | nil => decide
  | cons bit bits ih =>
    rw [toNat_cons, List.length_cons, Nat.pow_succ]
    cases bit with
    | false => rw [Bool.toNat_false]; omega
    | true => rw [Bool.toNat_true]; omega

theorem toNat_ofNat (width n : Nat) : toNat (ofNat width n) = n % 2 ^ width := by
  induction width with
  | zero => simp [ofNat, toNat, Nat.mod_one]
  | succ width ih =>
    rw [ofNat, toNat_cons, length_ofNat, ih, Nat.toNat_testBit, Nat.mod_pow_succ]
    rw [Nat.mul_comm, Nat.add_comm]

/-- A number of up to sixty-four bits is a machine word. -/
theorem toNat_word {bits : List Bool} (h : bits.length ≤ 64) : (UInt64.ofNat (toNat bits)).toNat = toNat bits := by
  have hle : 2 ^ bits.length ≤ 2 ^ 64 := Nat.pow_le_pow_right Nat.zero_lt_two h
  exact UInt64.toNat_ofNat_of_lt' (Nat.lt_of_lt_of_le (toNat_lt bits) hle)

/-- A bit is set in front of the word that the bits behind it make. -/
theorem word_cons (bit : Bool) {bits : List Bool} (h : bits.length < 64) :
    (if bit then 1 <<< UInt64.ofNat bits.length else 0) ||| UInt64.ofNat (toNat bits) =
      UInt64.ofNat (toNat (bit :: bits)) := by
  have hlow := toNat_word (Nat.le_of_lt h)
  have hword : (UInt64.ofNat (toNat (bit :: bits))).toNat = toNat (bit :: bits) := toNat_word h
  apply UInt64.toNat_inj.mp
  rw [UInt64.toNat_or, hlow, hword, toNat_cons]
  cases bit with
  | false => simp
  | true =>
    have hshift : (1 <<< UInt64.ofNat bits.length : UInt64).toNat = 2 ^ bits.length := by
      have hplace : (UInt64.ofNat bits.length).toNat = bits.length :=
        UInt64.toNat_ofNat_of_lt' (Nat.lt_trans h (by decide))
      have hlt : 2 ^ bits.length < 2 ^ 64 := Nat.pow_lt_pow_right Nat.one_lt_two h
      rw [UInt64.toNat_shiftLeft, hplace, Nat.mod_eq_of_lt h, UInt64.toNat_one, Nat.one_shiftLeft,
        Nat.mod_eq_of_lt hlt]
    have hor := Nat.two_pow_add_eq_or_of_lt (toNat_lt bits) 1
    rw [Nat.mul_one] at hor
    rw [if_pos rfl, hshift, ← hor, Bool.toNat_true, Nat.one_mul]

theorem ofNat_toNat (bits : List Bool) : ofNat bits.length (toNat bits) = bits := by
  suffices h : ∀ high, ofNat bits.length (high * 2 ^ bits.length + toNat bits) = bits by
    simpa using h 0
  induction bits with
  | nil => simp [ofNat]
  | cons bit bits ih =>
    intro high
    have hlt := toNat_lt bits
    have hsplit : high * 2 ^ (bits.length + 1) + (bit.toNat * 2 ^ bits.length + toNat bits) =
        (2 * high + bit.toNat) * 2 ^ bits.length + toNat bits := by grind
    have htop : ((2 * high + bit.toNat) * 2 ^ bits.length + toNat bits) / 2 ^ bits.length =
        2 * high + bit.toNat := by
      rw [Nat.add_comm, Nat.add_mul_div_right _ _ (Nat.two_pow_pos _), Nat.div_eq_of_lt hlt, Nat.zero_add]
    have hlow : (2 * high + bit.toNat) % 2 = bit.toNat := by
      have := Bool.toNat_le bit
      omega
    rw [List.length_cons, ofNat, toNat_cons, hsplit, ih, Nat.testBit_eq_decide_div_mod_eq, htop, hlow]
    cases bit <;> rfl

/-- Bits of one length that spell the same number are the same. -/
theorem toNat_inj {xs ys : List Bool} (hlen : xs.length = ys.length) : toNat xs = toNat ys ↔ xs = ys := by
  refine ⟨fun h => ?_, congrArg toNat⟩
  rw [← ofNat_toNat xs, h, hlen, ofNat_toNat]

theorem getElem?_ofNat : ∀ (width n : Nat) {i : Nat}, i < width →
    (ofNat width n)[i]? = some (n.testBit (width - 1 - i))
  | width + 1, n, 0, _ => rfl
  | width + 1, n, i + 1, h => by
    rw [ofNat, List.getElem?_cons_succ, getElem?_ofNat width n (by omega)]
    congr 2
    omega

/-- The high bits of a field are the low bits of what is left when its low ones are shifted out. -/
theorem ofNat_add (high low n : Nat) : ofNat (high + low) n = ofNat high (n >>> low) ++ ofNat low n := by
  induction high with
  | zero => rw [Nat.zero_add, ofNat, List.nil_append]
  | succ high ih =>
    rw [Nat.add_right_comm, ofNat, ih, ofNat, List.cons_append, Nat.testBit_shiftRight, Nat.add_comm low]

/-! ## Bytes and their bits -/

theorem ofByte_toByte {bits : List Bool} (h : bits.length = 8) : ofByte (toByte bits) = bits := by
  have hlt := toNat_lt bits
  rw [h] at hlt
  have hword : (toByte bits).toNat = toNat bits := by
    rw [toByte, h, Nat.sub_self, List.replicate_zero, List.append_nil, UInt8.toNat_ofNat']
    exact Nat.mod_eq_of_lt hlt
  rw [ofByte, hword, ← h, ofNat_toNat]

theorem toByte_ofByte (b : UInt8) : toByte (ofByte b) = b := by
  rw [toByte, length_ofByte, Nat.sub_self, List.replicate_zero, List.append_nil, ofByte, toNat_ofNat,
    Nat.mod_eq_of_lt b.toNat_lt, UInt8.ofNat_toNat]

theorem ofByte_toByte_pad {bits : List Bool} (h : bits.length ≤ 8) :
    ofByte (toByte bits) = bits ++ List.replicate (8 - bits.length) false := by
  have hfull : (bits ++ List.replicate (8 - bits.length) false).length = 8 := by simp; omega
  have hsame : toByte bits = toByte (bits ++ List.replicate (8 - bits.length) false) := by
    rw [toByte, toByte, hfull, Nat.sub_self, List.replicate_zero, List.append_nil]
  rw [hsame, ofByte_toByte hfull]

/-! ## Splitting a run's bits -/

theorem ofBytes_cons (byte : UInt8) (bytes : List UInt8) : ofBytes (byte :: bytes) = ofByte byte ++ ofBytes bytes :=
  List.flatMap_cons

@[simp] theorem ofBytes_append (xs ys : List UInt8) : ofBytes (xs ++ ys) = ofBytes xs ++ ofBytes ys := by
  simp [ofBytes]

/-- Bit `i` of a run is in byte `i / 8`, counted from the top. -/
theorem getElem?_ofBytes : ∀ (bytes : List UInt8) (i : Nat),
    (ofBytes bytes)[i]? = bytes[i / 8]?.map fun byte => byte.toNat.testBit (7 - i % 8)
  | [], i => rfl
  | byte :: bytes, i => by
    rw [ofBytes_cons]
    rcases Nat.lt_or_ge i 8 with hi | hi
    · have hfirst : i / 8 = 0 := by omega
      rw [List.getElem?_append_left (by simpa using hi), ofByte, getElem?_ofNat _ _ hi, hfirst, Nat.mod_eq_of_lt hi]
      rfl
    · have hrest : i / 8 = (i - 8) / 8 + 1 := by omega
      have hphase : i % 8 = (i - 8) % 8 := by omega
      rw [List.getElem?_append_right (by simpa using hi), length_ofByte, hrest, List.getElem?_cons_succ, hphase]
      exact getElem?_ofBytes bytes (i - 8)

theorem ofBytes_take : ∀ (bytes : List UInt8) (n : Nat), ofBytes (bytes.take n) = (ofBytes bytes).take (8 * n)
  | [], n => by simp [ofBytes]
  | byte :: bytes, 0 => rfl
  | byte :: bytes, n + 1 => by
    have hfirst : 8 * (n + 1) = (ofByte byte).length + 8 * n := by rw [length_ofByte]; omega
    rw [List.take_succ_cons, ofBytes_cons, ofBytes_cons, hfirst, List.take_length_add_append, ofBytes_take]

theorem ofBytes_drop : ∀ (bytes : List UInt8) (n : Nat), ofBytes (bytes.drop n) = (ofBytes bytes).drop (8 * n)
  | [], n => by simp [ofBytes]
  | byte :: bytes, 0 => rfl
  | byte :: bytes, n + 1 => by
    have hfirst : 8 * (n + 1) = (ofByte byte).length + 8 * n := by rw [length_ofByte]; omega
    rw [List.drop_succ_cons, ofBytes_cons, hfirst, List.drop_length_add_append, ofBytes_drop]

theorem ofBytes_toBytes : ∀ (count : Nat) {bits : List Bool}, bits.length = 8 * count →
    ofBytes (toBytes count bits) = bits
  | 0, bits, h => (List.eq_nil_of_length_eq_zero h).symm
  | count + 1, bits, h => by
    have hsplit : toBytes (count + 1) bits = toByte (bits.take 8) :: toBytes count (bits.drop 8) := by
      simp [toBytes, List.range_succ_eq_map, Nat.mul_succ, Nat.add_comm, Function.comp_def]
    have hfirst : (bits.take 8).length = 8 := List.length_take_of_le (by omega)
    have hrest : (bits.drop 8).length = 8 * count := by rw [List.length_drop, h]; omega
    rw [hsplit, ofBytes_cons, ofByte_toByte hfirst, ofBytes_toBytes count hrest, List.take_append_drop]

theorem ofBytes_overwrite (bytes : List UInt8) (pos : Nat) (src : List UInt8) :
    ofBytes (overwrite bytes pos src) = overwrite (ofBytes bytes) (8 * pos) (ofBytes src) := by
  rw [overwrite, ofBytes_append, ofBytes_append, ofBytes_take, ofBytes_drop, overwrite, length_ofBytes, Nat.mul_add]

theorem ofByte_injective : Function.Injective ofByte := fun b c h => by
  rw [← toByte_ofByte b, h, toByte_ofByte]

/-- A byte has a bit that is set unless it is zero. -/
theorem any_ofByte (byte : UInt8) : (ofByte byte).any id = (byte != 0) := by
  by_cases hbyte : byte = 0
  · subst hbyte
    rfl
  · rw [bne_iff_ne.mpr hbyte]
    cases hany : (ofByte byte).any id with
    | true => rfl
    | false =>
      have hclear : ∀ bit ∈ ofByte byte, bit = false := fun bit hbit =>
        Bool.eq_false_iff.mpr (List.any_eq_false.mp hany bit hbit)
      have hzero : ofByte byte = ofByte 0 := by
        rw [List.eq_replicate_of_mem hclear, length_ofByte]
        decide
      exact absurd (ofByte_injective hzero) hbyte

theorem ofBytes_injective : Function.Injective ofBytes
  | [], [], _ => rfl
  | [], c :: ys, h => absurd (congrArg List.length h) (by simp)
  | b :: xs, [], h => absurd (congrArg List.length h) (by simp)
  | b :: xs, c :: ys, h => by
    rw [ofBytes_cons, ofBytes_cons] at h
    obtain ⟨hb, hxs⟩ := List.append_inj h (by simp)
    rw [ofByte_injective hb, ofBytes_injective hxs]

/-- A run whose bits begin with those of `xs` begins with `xs`. -/
theorem eq_append_of_ofBytes {run xs : List UInt8} {rest : List Bool}
    (h : ofBytes run = ofBytes xs ++ rest) : ∃ ys, run = xs ++ ys ∧ rest = ofBytes ys := by
  have hle : xs.length ≤ run.length := by
    have := congrArg List.length h
    simp at this
    omega
  rw [← List.take_append_drop xs.length run, ofBytes_append] at h
  obtain ⟨hxs, hrest⟩ := List.append_inj h (by simp [hle])
  have hsplit := List.take_append_drop xs.length run
  rw [ofBytes_injective hxs] at hsplit
  exact ⟨run.drop xs.length, hsplit.symm, hrest.symm⟩

/-! ## Patches -/

/-- To patch a run is to overwrite its bits. -/
theorem ofBytes_patch {bytes : List UInt8} {pos : Nat} {bits : List Bool}
    (h : pos + bits.length ≤ 8 * bytes.length) :
    ofBytes (patch bytes pos bits) = overwrite (ofBytes bytes) pos bits := by
  have hpos : 8 * (pos / 8) + pos % 8 = pos := Nat.div_add_mod pos 8
  have hcount : pos % 8 + bits.length ≤ 8 * ((pos % 8 + bits.length + 7) / 8) := by omega
  have hlen : (overwrite (ofBytes ((bytes.drop (pos / 8)).take ((pos % 8 + bits.length + 7) / 8)))
      (pos % 8) bits).length = 8 * ((pos % 8 + bits.length + 7) / 8) := by
    rw [length_overwrite] <;> rw [length_ofBytes, List.length_take, List.length_drop] <;> omega
  rw [patch, ofBytes_overwrite, ofBytes_toBytes _ hlen, ofBytes_take, ofBytes_drop,
    overwrite_overwrite (by rw [length_ofBytes]; omega) hcount, hpos]

theorem patch_nil {bytes : List UInt8} {pos : Nat} (h : pos ≤ 8 * bytes.length) : patch bytes pos [] = bytes := by
  apply ofBytes_injective
  rw [ofBytes_patch (by simpa using h), overwrite_nil]

/-- Patching one bit and then the next ones patches all of them. -/
theorem patch_patch {bytes : List UInt8} {pos : Nat} {bit : Bool} {bits : List Bool}
    (h : pos + (bit :: bits).length ≤ 8 * bytes.length) :
    patch (patch bytes pos [bit]) (pos + 1) bits = patch bytes pos (bit :: bits) := by
  rw [List.length_cons] at h
  have hfirst : pos + [bit].length ≤ 8 * bytes.length := by
    rw [List.length_singleton]
    omega
  have hrest : pos + 1 + bits.length ≤ 8 * (patch bytes pos [bit]).length := by
    rw [length_patch hfirst]
    omega
  have hpos : pos ≤ (ofBytes bytes).length := by
    rw [length_ofBytes]
    omega
  apply ofBytes_injective
  rw [ofBytes_patch hrest, ofBytes_patch hfirst, ofBytes_patch h]
  exact overwrite_next hpos bits

/-! ## Zeros behind a number -/

theorem toNat_append (xs ys : List Bool) :
    toNat (xs ++ ys) = toNat xs * 2 ^ ys.length + toNat ys := by
  rw [toNat, List.foldl_append, foldl_bits]
  rfl

theorem toNat_replicate_false (n : Nat) : toNat (List.replicate n false) = 0 := by
  induction n with
  | zero => rfl
  | succ n ih => rw [List.replicate_succ, toNat_cons, ih, Bool.toNat_false, Nat.zero_mul]

/-- Only zero is its own low bits after a shift. -/
theorem eq_zero_of_mul_two_pow {n r m high : Nat} (hr : 0 < r) (hlt : n < 2 ^ m)
    (h : n * 2 ^ r = high * 2 ^ m + n) : n = 0 := by
  have hodd : (2 ^ r - 1) % 2 = 1 := by
    obtain ⟨k, rfl⟩ : ∃ k, r = k + 1 := ⟨r - 1, by omega⟩
    have hpos := Nat.two_pow_pos k
    rw [Nat.pow_succ]
    omega
  have hcoprime : Nat.Coprime (2 ^ m) (2 ^ r - 1) := by
    refine Nat.Coprime.pow_left m ?_
    rw [Nat.coprime_iff_gcd_eq_one, Nat.gcd_rec, hodd, Nat.gcd_one_left]
  have hdvd : 2 ^ m ∣ n * (2 ^ r - 1) := by
    refine ⟨high, ?_⟩
    rw [Nat.mul_sub, Nat.mul_one, h, Nat.add_sub_cancel, Nat.mul_comm]
  exact Nat.eq_zero_of_dvd_of_lt (hcoprime.dvd_of_dvd_mul_right hdvd) hlt

/-- Looked at `r` bits too late, with zeros coming in from behind, a number is
another one unless it is zero. -/
theorem toNat_late_iff {bits : List Bool} {r p : Nat} (h : r ≤ p) :
    toNat (((bits ++ List.replicate p false).drop r).take bits.length) = toNat bits ↔
      r = 0 ∨ toNat bits = 0 := by
  generalize htaken : ((bits ++ List.replicate p false).drop r).take bits.length = taken
  have hlen : taken.length = bits.length := by
    rw [← htaken, List.length_take, List.length_drop, List.length_append, List.length_replicate]
    omega
  have hsplit : bits ++ List.replicate r false = (bits ++ List.replicate p false).take r ++ taken := by
    rw [← htaken, ← List.take_add, Nat.add_comm, List.take_length_add_append, List.take_replicate,
      Nat.min_eq_left h]
  have hvalue := congrArg toNat hsplit
  rw [toNat_append, toNat_append, toNat_replicate_false, List.length_replicate, hlen, Nat.add_zero] at hvalue
  constructor
  · intro heq
    rw [heq] at hvalue
    rcases Nat.eq_zero_or_pos r with hr | hr
    · exact .inl hr
    · exact .inr (eq_zero_of_mul_two_pow hr (toNat_lt bits) hvalue)
  · rintro (rfl | hzero)
    · rw [← htaken, List.drop_zero, List.take_left]
    · rw [hzero] at hvalue ⊢
      omega

end Bits

end PacketWire
