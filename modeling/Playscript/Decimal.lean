import Playscript.Binary

/-!
# Shortest decimals

The text of a number that is held in double precision: the fewest digits that are read back as the
same number, and of those the nearest. A point always shows, between the digits or after them,
unless the number is so large or so small that an exponent is written.

* `toBinary_of_onGrid`: a decimal that is found on a grid is read back as the number.
* `toBinary_of_shortest`: so is the shortest one.
-/

namespace Playscript

/-- The number `digits * 10 ^ exponent`. -/
structure Decimal where
  digits : Nat
  exponent : Int
  deriving DecidableEq, Repr

namespace Decimal

/-- How many digits stand before the point, a negative number if zeros follow it. -/
def pointAt (d : Decimal) : Int := (Text.ofNat d.digits).length + d.exponent

def toBinary (d : Decimal) : Binary :=
  Binary.nearest (d.digits * Nat.pow 10 d.exponent.toNat) (Nat.pow 10 (-d.exponent).toNat)

/-- The neighbour of a number among the multiples of `10 ^ g` that is read back as the number. If
both are, it is the nearer one. -/
def onGrid? (b : Binary) (g : Int) : Option Decimal :=
  let num := b.quotient.1 * Nat.pow 10 (-g).toNat
  let den := b.quotient.2 * Nat.pow 10 g.toNat
  let near := roundDiv num den
  let far := if near = num / den then near + 1 else num / den
  [near, far].findSome? fun digits =>
    if digits ≠ 0 ∧ toBinary ⟨digits, g⟩ = b then some ⟨digits, g⟩ else none

/-- The coarsest grid that has such a neighbour. All numbers lie below `10 ^ 309`, and multiples of
`10 ^ (-343)` tell the smallest of them apart. -/
def shortest? (b : Binary) : Option Decimal :=
  (List.range 653).findSome? fun (k : Nat) => onGrid? b (309 - (k : Int))

/-! ## Text -/

/-- Positions of the point at which no exponent is written. -/
def isPlain (point : Int) : Bool := -4 < point && point ≤ 16

def exponentText (e : Int) : Text :=
  let digits := Text.ofNat e.natAbs
  (if e < 0 then '-' else '+') :: (if digits.length < 2 then '0' :: digits else digits)

def zeros (n : Int) : Text := List.replicate n.toNat '0'

def render (d : Decimal) : Text :=
  let digits := Text.ofNat d.digits
  let point := d.pointAt
  if isPlain point then
    if point ≤ 0 then "0.".toList ++ zeros (-point) ++ digits
    else
      let after := digits.drop point.toNat
      digits.take point.toNat ++ zeros (point - digits.length) ++ '.' ::
        (if after = [] then ['0'] else after)
  else
    digits.take 1 ++ (if digits.length = 1 then [] else '.' :: digits.drop 1)
      ++ 'e' :: exponentText (point - 1)

/-- The text of the number that a decimal is rounded to. Far out on either side there is only
infinity and zero. -/
def normalForm (d : Decimal) : Text :=
  if d.digits = 0 ∨ d.pointAt < -400 then "0.0".toList
  else if 400 < d.pointAt then "Infinity".toList
  else
    let b := d.toBinary
    if !b.isFinite then "Infinity".toList
    else if b.mantissa = 0 then "0.0".toList
    else ((shortest? b).map render).getD "0.0".toList

theorem toBinary_of_onGrid {b : Binary} {g : Int} {d : Decimal} (h : onGrid? b g = some d) :
    d.toBinary = b := by
  obtain ⟨digits, -, hd⟩ := List.exists_of_findSome?_eq_some h
  split at hd
  · rename_i hb
    cases hd
    exact hb.2
  · cases hd

theorem toBinary_of_shortest {b : Binary} {d : Decimal} (h : shortest? b = some d) :
    d.toBinary = b := by
  obtain ⟨k, -, hk⟩ := List.exists_of_findSome?_eq_some h
  exact toBinary_of_onGrid hk

end Decimal

end Playscript
