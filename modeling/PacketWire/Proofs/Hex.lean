/-
Hexadecimal text of a fixed width, as the number that it spells.

Texts of numbers that fit the width are in the order of the numbers
(`fixed_lt_fixed_iff`), so that no two are the same (`fixed_inj`). One behind
another is the text of both as one number (`fixed_append_fixed`).
-/
import Mathlib.Algebra.Group.Nat.Defs
import PacketWire.Text.Hex

namespace PacketWire.Text.Hex

/-- Of runs that are equally long, the first place where they differ decides. -/
theorem append_lt_append_iff : ∀ {l₁ l₂ r₁ r₂ : List Char}, l₁.length = l₂.length →
    (l₁ ++ r₁ < l₂ ++ r₂ ↔ l₁ < l₂ ∨ l₁ = l₂ ∧ r₁ < r₂)
  | [], [], _, _, _ => by simp
  | a :: l₁, b :: l₂, r₁, r₂, h => by
    have hrest : l₁ ++ r₁ < l₂ ++ r₂ ↔ l₁ < l₂ ∨ l₁ = l₂ ∧ r₁ < r₂ :=
      append_lt_append_iff (Nat.succ.inj h)
    rw [List.cons_append, List.cons_append, List.cons_lt_cons_iff, List.cons_lt_cons_iff, hrest, List.cons.injEq,
      and_or_left, or_assoc, and_assoc]

theorem length_fixed (case : Case) : ∀ width n, (fixed case width n).length = width
  | 0, _ => rfl
  | width + 1, n => by rw [fixed, List.length_append, length_fixed case width, List.length_singleton]

/-! ## Order -/

theorem digit_mod (case : Case) (n : Nat) : digit case (n % 16) = digit case n := by
  simp only [digit, Nat.mod_mod]

/-- Digits are in the order of what they stand for. -/
theorem digit_lt_digit_iff (case : Case) (m n : Nat) : digit case m < digit case n ↔ m % 16 < n % 16 := by
  have hdigits : ∀ i < 16, ∀ j < 16, (digit case i < digit case j ↔ i < j) := by
    cases case <;> decide
  rw [← digit_mod case m, ← digit_mod case n]
  exact hdigits _ (Nat.mod_lt m (by decide)) _ (Nat.mod_lt n (by decide))

/-- Where texts are in the order of the numbers, no two are the same. -/
theorem eq_iff_of_lt_iff {text : Nat → List Char} {m n : Nat} (hlt : text m < text n ↔ m < n)
    (hgt : text n < text m ↔ n < m) : text m = text n ↔ m = n := by
  refine ⟨fun h => ?_, congrArg text⟩
  have hnot : ¬ m < n := fun hless => List.lt_irrefl _ (h ▸ hlt.mpr hless)
  have hnot' : ¬ n < m := fun hless => List.lt_irrefl _ (h ▸ hgt.mpr hless)
  omega

/-- Texts of one width are in the order of the numbers. -/
theorem fixed_lt_fixed_iff (case : Case) : ∀ {width m n : Nat}, m < 16 ^ width → n < 16 ^ width →
    (fixed case width m < fixed case width n ↔ m < n)
  | 0, m, n, hm, hn => by
    rw [Nat.pow_zero, Nat.lt_one_iff] at hm hn
    simp [fixed, hm, hn]
  | width + 1, m, n, hm, hn => by
    rw [Nat.pow_succ'] at hm hn
    have hlt : fixed case width (m / 16) < fixed case width (n / 16) ↔ m / 16 < n / 16 :=
      fixed_lt_fixed_iff case (Nat.div_lt_of_lt_mul hm) (Nat.div_lt_of_lt_mul hn)
    have hgt : fixed case width (n / 16) < fixed case width (m / 16) ↔ n / 16 < m / 16 :=
      fixed_lt_fixed_iff case (Nat.div_lt_of_lt_mul hn) (Nat.div_lt_of_lt_mul hm)
    have hlast : [digit case m] < [digit case n] ↔ m % 16 < n % 16 := by
      rw [List.cons_lt_cons_iff, digit_lt_digit_iff]
      simp
    have hlen : (fixed case width (m / 16)).length = (fixed case width (n / 16)).length := by
      rw [length_fixed, length_fixed]
    rw [fixed, fixed, append_lt_append_iff hlen, hlt, eq_iff_of_lt_iff hlt hgt, hlast]
    omega

theorem fixed_inj (case : Case) {width m n : Nat} (hm : m < 16 ^ width) (hn : n < 16 ^ width) :
    fixed case width m = fixed case width n ↔ m = n :=
  eq_iff_of_lt_iff (fixed_lt_fixed_iff case hm hn) (fixed_lt_fixed_iff case hn hm)

/-! ## Digits behind digits -/

/-- One text behind another is that of a number with both as its digits. -/
theorem fixed_append_fixed (case : Case) (width m : Nat) : ∀ {more n : Nat}, n < 16 ^ more →
    fixed case width m ++ fixed case more n = fixed case (width + more) (m * 16 ^ more + n)
  | 0, n, hn => by
    rw [Nat.pow_zero, Nat.lt_one_iff] at hn
    simp [fixed, hn]
  | more + 1, n, hn => by
    have hpow : m * 16 ^ (more + 1) = 16 * (m * 16 ^ more) := by
      rw [Nat.pow_succ', Nat.mul_left_comm]
    have hdiv : (m * 16 ^ (more + 1) + n) / 16 = m * 16 ^ more + n / 16 := by omega
    have hdigit : digit case (m * 16 ^ (more + 1) + n) = digit case n := by
      have hmod : (m * 16 ^ (more + 1) + n) % 16 = n % 16 := by omega
      rw [← digit_mod, hmod, digit_mod]
    rw [Nat.pow_succ'] at hn
    have hrest : fixed case width m ++ fixed case more (n / 16) =
        fixed case (width + more) (m * 16 ^ more + n / 16) :=
      fixed_append_fixed case width m (Nat.div_lt_of_lt_mul hn)
    rw [← Nat.add_assoc, fixed, fixed, ← List.append_assoc, hrest, hdiv, hdigit]

end PacketWire.Text.Hex
