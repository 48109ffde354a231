import Playscript.Text

/-!
# Binary floating point

Positive quotients in double precision: a mantissa of at most 53 bits times a power of two that is
not below 2^(-1074). Rounding goes to the nearest such number, a half to the even mantissa.

* `roundDiv_spec`: rounding a quotient is off by at most a half.
* `roundDiv_mul`: a quotient without remainder is not rounded at all.
* `Binary.quotient_nearest_le`: a share of a whole is rounded to at most one.
-/

namespace Playscript

/-- The whole number nearest to a quotient; a half goes to the even one. -/
def roundDiv (num den : Nat) : Nat :=
  let q := num / den
  let r := num % den
  if den < 2 * r ∨ (2 * r = den ∧ q % 2 = 1) then q + 1 else q

/-- The number `mantissa * 2 ^ exponent`. -/
structure Binary where
  mantissa : Nat
  exponent : Int
  deriving DecidableEq, Repr

namespace Binary

def leastExponent : Int := -1074

def greatestExponent : Int := 971

/-- A quotient in units of `2 ^ e`, as a quotient. -/
def inUnits (num den : Nat) (e : Int) : Nat × Nat := (num <<< (-e).toNat, den <<< e.toNat)

/-- The exponent that leaves a positive quotient 53 bits before the point, if it is in range. -/
def exponentFor (num den : Nat) : Int :=
  let guess : Int := (num.log2 : Int) - den.log2 - 52
  let scaled := inUnits num den guess
  max (if scaled.1 < scaled.2 <<< 52 then guess - 1 else guess) leastExponent

/-- The number nearest to a positive quotient. A mantissa rounded up to 54 bits is halved. -/
def nearest (num den : Nat) : Binary :=
  let e := exponentFor num den
  let scaled := inUnits num den e
  let m := roundDiv scaled.1 scaled.2
  if m = 1 <<< 53 then ⟨1 <<< 52, e + 1⟩ else ⟨m, e⟩

def isFinite (b : Binary) : Bool := b.exponent ≤ greatestExponent

/-- The number as a quotient of whole numbers. -/
def quotient (b : Binary) : Nat × Nat :=
  (b.mantissa <<< b.exponent.toNat, 1 <<< (-b.exponent).toNat)

end Binary

theorem roundDiv_spec (num : Nat) {den : Nat} (h : 0 < den) :
    2 * num ≤ 2 * (roundDiv num den * den) + den ∧
      2 * (roundDiv num den * den) ≤ 2 * num + den := by
  have hd := Nat.div_add_mod num den
  have hm := Nat.mod_lt num h
  have hc : den * (num / den) = num / den * den := Nat.mul_comm ..
  simp only [roundDiv]
  split
  · rw [Nat.add_mul]
    omega
  · omega

theorem roundDiv_mul (n : Nat) {den : Nat} (h : 0 < den) : roundDiv (n * den) den = n := by
  simp [roundDiv, Nat.mul_div_cancel _ h, Nat.mul_mod_left]
  omega

/-- A quotient of at most a whole number is rounded to at most that number. -/
theorem roundDiv_le {num den k : Nat} (h : 0 < den) (hle : num ≤ k * den) :
    roundDiv num den ≤ k := by
  obtain ⟨-, hspec⟩ := roundDiv_spec num h
  have hdouble : roundDiv num den * 2 * den < (k + 1) * 2 * den := by
    have hl : roundDiv num den * 2 * den = 2 * (roundDiv num den * den) := by
      rw [Nat.mul_right_comm, Nat.mul_comm]
    have hr : (k + 1) * 2 * den = 2 * (k * den) + 2 * den := by
      rw [Nat.mul_right_comm, Nat.add_mul, Nat.one_mul, Nat.mul_comm, Nat.mul_add]
    omega
  have hlt := Nat.lt_of_mul_lt_mul_right hdouble
  omega

namespace Binary

theorem exponentFor_nonpos {num den : Nat} (hn : 0 < num) (h : num ≤ den) :
    exponentFor num den ≤ 0 := by
  have hlog : num.log2 ≤ den.log2 :=
    (Nat.le_log2 (by omega)).2 (Nat.le_trans (Nat.log2_self_le (by omega)) h)
  simp only [exponentFor, leastExponent]
  split <;> omega

theorem quotient_pos (b : Binary) : 0 < b.quotient.2 := by
  rw [quotient, Nat.one_shiftLeft]
  exact Nat.pow_pos (by decide)

/-- A share of a whole is rounded to at most one. -/
theorem quotient_nearest_le {num den : Nat} (hn : 0 < num) (h : num ≤ den) :
    (nearest num den).quotient.1 ≤ (nearest num den).quotient.2 := by
  have he := exponentFor_nonpos hn h
  generalize hexp : exponentFor num den = e at he
  have hzero : e.toNat = 0 := Int.toNat_of_nonpos he
  have hm : roundDiv (inUnits num den e).1 (inUnits num den e).2 ≤ 2 ^ (-e).toNat := by
    simp only [inUnits, hzero, Nat.shiftLeft_zero, Nat.shiftLeft_eq _ (-e).toNat]
    apply roundDiv_le (by omega)
    rw [Nat.mul_comm]
    exact Nat.mul_le_mul_left _ h
  simp only [nearest, hexp]
  split
  · -- a mantissa of 54 bits is at most one only in units that are as small
    rename_i hfull
    rw [hfull, Nat.one_shiftLeft] at hm
    have hunits : 53 ≤ (-e).toNat := (Nat.pow_le_pow_iff_right (by decide)).1 hm
    have hzero' : (e + 1).toNat = 0 := by omega
    simp only [quotient, hzero', Nat.one_shiftLeft, Nat.shiftLeft_zero]
    exact Nat.pow_le_pow_right (by decide) (by omega)
  · simpa only [quotient, hzero, Nat.shiftLeft_zero, Nat.one_shiftLeft] using hm

end Binary

end Playscript
