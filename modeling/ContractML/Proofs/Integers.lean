import Mathlib.Data.Int.ModEq
import ContractML.Arithmetic

/-!
# Arithmetic of integers

Integers are words of 64 bits. A sum, a difference, a product or a negation that is too large for a
word is off by a multiple of 2 ^ 64, and every integer is congruent to one word only: so the result
is exact as far as a word can tell. A quotient is cut towards zero, and the remainder is what is
then missing. One quotient does not fit in a word, that of the least word by -1. It wraps around to
the least word itself, and the remainder is zero all the same.

## Main definitions

* `WrapsTo` — the result is the word that is congruent to an integer.
* `Divides` — a quotient and a remainder that belong together.

## Main results

* `eq_of_toInt_modEq` — words that are congruent are the same.
* `div_mul_add_mod` — **quotient and remainder give back the dividend**, also if they wrap around.
* `BinaryOp.integers_exact` — **the operators on integers are exact modulo 2 ^ 64**, and only a
  divisor that is zero is refused.
-/

namespace ContractML

/-! ### Words and integers -/

/-- Words that are congruent are the same. -/
theorem eq_of_toInt_modEq {m n : Int64} (h : m.toInt ≡ n.toInt [ZMOD 2 ^ 64]) : m = n := by
  have hm := m.le_toInt
  have hm' := m.toInt_lt
  have hn := n.le_toInt
  have hn' := n.toInt_lt
  refine Int64.toInt_inj.mp ?_
  unfold Int.ModEq at h
  omega

theorem bmod_modEq (z : Int) : z.bmod (2 ^ 64) ≡ z [ZMOD 2 ^ 64] :=
  Int.bmod_emod

/-- The result is an integer: the one word that is congruent to `z`. -/
def WrapsTo (result : Except Fault Value) (z : Int) : Prop :=
  ∃ n : Int64, result = .ok (.int n) ∧ ∀ m : Int64, m.toInt ≡ z [ZMOD 2 ^ 64] ↔ m = n

theorem wrapsTo_of_toInt_eq {n : Int64} {z : Int} (h : n.toInt = z.bmod (2 ^ 64)) :
    WrapsTo (.ok (.int n)) z := by
  have hn : n.toInt ≡ z [ZMOD 2 ^ 64] := h ▸ bmod_modEq z
  refine ⟨n, rfl, fun m => ⟨fun hm => eq_of_toInt_modEq (hm.trans hn.symm), ?_⟩⟩
  rintro rfl
  exact hn

/-! ### Quotients and remainders -/

/-- Quotient and remainder give back the dividend. Where the quotient wraps around, so does its
product with the divisor. -/
theorem div_mul_add_mod (a b : Int64) : a / b * b + a % b = a := by
  refine eq_of_toInt_modEq ?_
  -- Both operations wrap around, so the identity is shown modulo the size of a word, where the
  -- quotient is as good as the exact one.
  have hquot : (a / b).toInt ≡ a.toInt.tdiv b.toInt [ZMOD 2 ^ 64] := by
    rw [Int64.toInt_div]
    exact bmod_modEq _
  have hprod : (a / b * b).toInt ≡ (a / b).toInt * b.toInt [ZMOD 2 ^ 64] := by
    rw [Int64.toInt_mul]
    exact bmod_modEq _
  calc (a / b * b + a % b).toInt
      ≡ (a / b * b).toInt + (a % b).toInt [ZMOD 2 ^ 64] := by
        rw [Int64.toInt_add]
        exact bmod_modEq _
    _ ≡ a.toInt.tdiv b.toInt * b.toInt + (a % b).toInt [ZMOD 2 ^ 64] :=
        (hprod.trans (hquot.mul_right _)).add_right _
    _ = a.toInt := by rw [Int64.toInt_mod, Int.tdiv_mul_add_tmod]

theorem toInt_ne_zero {b : Int64} (h : b ≠ 0) : b.toInt ≠ 0 :=
  fun hb => h (Int64.toInt_inj.mp hb)

/-- A remainder is smaller than the divisor. -/
theorem abs_toInt_mod_lt (a : Int64) {b : Int64} (h : b ≠ 0) : |(a % b).toInt| < |b.toInt| := by
  have hpos : 0 < b.toInt.natAbs := Int.natAbs_pos.mpr (toInt_ne_zero h)
  rw [Int64.toInt_mod, Int.abs_eq_natAbs, Int.abs_eq_natAbs, Int.natAbs_tmod]
  exact_mod_cast Nat.mod_lt _ hpos

/-- A remainder has the sign of the dividend, unless it is zero. -/
theorem sign_toInt_mod (a b : Int64) : a % b = 0 ∨ (a % b).toInt.sign = a.toInt.sign := by
  have hsign := Int.sign_tmod a.toInt b.toInt
  rw [← Int64.toInt_mod] at hsign
  split at hsign
  · exact .inl (Int64.toInt_inj.mp (Int.sign_eq_zero_iff_zero.mp hsign))
  · exact .inr hsign

/-- The one quotient that does not fit in a word. -/
theorem div_overflow : Int64.minValue / -1 = Int64.minValue ∧ Int64.minValue % -1 = 0 := by
  decide

/-- Every other quotient is cut towards zero. -/
theorem toInt_div_of_fits {a b : Int64} (h : ¬(a = Int64.minValue ∧ b = -1)) :
    (a / b).toInt = a.toInt.tdiv b.toInt := by
  by_cases ha : a = Int64.minValue
  · exact Int64.toInt_div_of_ne_right a b fun hb => h ⟨ha, hb⟩
  · exact Int64.toInt_div_of_ne_left a b ha

/-! ### The operators -/

namespace BinaryOp

/-- The quotient `q` and the remainder `r` of `a` by `b` belong together: the operators make `a`
out of them again, the remainder is smaller than the divisor and has the sign of the dividend, and
the quotient is cut towards zero unless it does not fit in a word. -/
structure Divides (a b q r : Int64) (span : Span) : Prop where
  restored : (do let p ← mul.eval (.int q) (.int b) span; add.eval p (.int r) span) = .ok (.int a)
  smaller : |r.toInt| < |b.toInt|
  sign : r = 0 ∨ r.toInt.sign = a.toInt.sign
  quotient : ¬(a = Int64.minValue ∧ b = -1) → q.toInt = a.toInt.tdiv b.toInt
  overflow : a = Int64.minValue → b = -1 → q = a ∧ r = 0

theorem divides_div_mod (a : Int64) {b : Int64} (hb : b ≠ 0) (span : Span) :
    Divides a b (a / b) (a % b) span where
  restored := by
    have hrestored : add.eval (.int (a / b * b)) (.int (a % b)) span = .ok (.int a) := by
      rw [← congrArg Value.int (div_mul_add_mod a b)]
      rfl
    exact hrestored
  smaller := abs_toInt_mod_lt a hb
  sign := sign_toInt_mod a b
  quotient := toInt_div_of_fits
  overflow := by
    rintro rfl rfl
    exact div_overflow

theorem eval_div_of_ne (a : Int64) {b : Int64} (hb : b ≠ 0) (span : Span) :
    div.eval (.int a) (.int b) span = .ok (.int (a / b)) ∧
      mod.eval (.int a) (.int b) span = .ok (.int (a % b)) := by
  simp [eval, onInts, hb, Except.map]

/-- **The operators on integers are exact modulo 2 ^ 64.** Sums, differences, products and
negations of words are the words that are congruent to those of the integers. Quotients and
remainders are refused if the divisor is zero, and only then; otherwise they belong together. -/
theorem integers_exact (a b : Int64) (span : Span) :
    WrapsTo (add.eval (.int a) (.int b) span) (a.toInt + b.toInt) ∧
      WrapsTo (sub.eval (.int a) (.int b) span) (a.toInt - b.toInt) ∧
      WrapsTo (mul.eval (.int a) (.int b) span) (a.toInt * b.toInt) ∧
      WrapsTo (UnaryOp.neg.eval (.int a) span) (-a.toInt) ∧
      (div.eval (.int a) (.int b) span = .error ⟨.divisionByZero, some span⟩ ↔ b = 0) ∧
      (mod.eval (.int a) (.int b) span = .error ⟨.divisionByZero, some span⟩ ↔ b = 0) ∧
      (b ≠ 0 → ∃ q r, div.eval (.int a) (.int b) span = .ok (.int q) ∧
        mod.eval (.int a) (.int b) span = .ok (.int r) ∧ Divides a b q r span) := by
  refine ⟨wrapsTo_of_toInt_eq (Int64.toInt_add a b), wrapsTo_of_toInt_eq (Int64.toInt_sub a b),
    wrapsTo_of_toInt_eq (Int64.toInt_mul a b), wrapsTo_of_toInt_eq (Int64.toInt_neg a), ?_⟩
  by_cases hb : b = 0
  · subst hb
    exact ⟨iff_of_true rfl rfl, iff_of_true rfl rfl, fun h => absurd rfl h⟩
  · obtain ⟨hdiv, hmod⟩ := eval_div_of_ne a hb span
    refine ⟨iff_of_false ?_ hb, iff_of_false ?_ hb, fun _ => ?_⟩
    · rw [hdiv]
      exact nofun
    · rw [hmod]
      exact nofun
    · exact ⟨a / b, a % b, hdiv, hmod, divides_div_mod a hb span⟩

/-- The quotient that does not fit in a word, a remainder below zero, and a divisor that is zero. -/
theorem integers_exact_overflow :
    (∃ q r, div.eval (.int Int64.minValue) (.int (-1)) .nowhere = .ok (.int q) ∧
      mod.eval (.int Int64.minValue) (.int (-1)) .nowhere = .ok (.int r) ∧
      q = Int64.minValue ∧ r = 0) ∧
      (∃ q r, div.eval (.int (-7)) (.int 2) .nowhere = .ok (.int q) ∧
        mod.eval (.int (-7)) (.int 2) .nowhere = .ok (.int r) ∧ q.toInt = -3 ∧ |r.toInt| < 2) ∧
      mod.eval (.int 1) (.int 0) .nowhere = .error ⟨.divisionByZero, some .nowhere⟩ := by
  obtain ⟨q, r, hdiv, hmod, hover⟩ :=
    (integers_exact Int64.minValue (-1) .nowhere).2.2.2.2.2.2 (by decide)
  obtain ⟨q', r', hdiv', hmod', hfits⟩ := (integers_exact (-7) 2 .nowhere).2.2.2.2.2.2 (by decide)
  refine ⟨⟨q, r, hdiv, hmod, hover.overflow rfl rfl⟩, ⟨q', r', hdiv', hmod', ?_, hfits.smaller⟩, ?_⟩
  · exact hfits.quotient (by decide)
  · exact (integers_exact 1 0 .nowhere).2.2.2.2.2.1.mpr rfl

end BinaryOp

end ContractML
