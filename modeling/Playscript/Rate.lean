import Playscript.Binary

/-!
# Rates

A share of a whole, as statistics show it: the quotient is rounded to double precision first, then
to six decimals, and in both steps a half goes to the even neighbour.

* `millionths_le`: a share is at most the whole.
-/

namespace Playscript.Rate

/-- The quotient in millionths, by way of a double. -/
def millionths (num den : Nat) : Nat :=
  if num = 0 ∨ den = 0 then 0
  else
    let q := (Binary.nearest num den).quotient
    roundDiv (q.1 * 1000000) q.2

def padLeft (width : Nat) (t : Text) : Text := List.replicate (width - t.length) '0' ++ t

/-- Six decimals, whatever they are. -/
def render (num den : Nat) : Text :=
  let m := millionths num den
  Text.ofNat (m / 1000000) ++ '.' :: padLeft 6 (Text.ofNat (m % 1000000))

theorem millionths_le {num den : Nat} (h : num ≤ den) : millionths num den ≤ 1000000 := by
  rw [millionths]
  split
  · exact Nat.zero_le _
  · rename_i hpos
    simp only
    apply roundDiv_le (Binary.quotient_pos _)
    rw [Nat.mul_comm]
    exact Nat.mul_le_mul_left _ (Binary.quotient_nearest_le (by omega) h)

end Playscript.Rate
