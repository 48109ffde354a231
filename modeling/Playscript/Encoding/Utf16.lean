import Playscript.Encoding.Utf8

/-!
# UTF-16, little end first

Two bytes make a unit; a high surrogate and the low one after it make one character.

* `length_readFrom`: how many characters the bytes make.
-/

namespace Playscript.Utf16

def unit (a b : UInt8) : Nat := a.toNat + 256 * b.toNat

def isHigh (u : Nat) : Bool := 0xD800 ≤ u && u ≤ 0xDBFF

def isLow (u : Nat) : Bool := 0xDC00 ≤ u && u ≤ 0xDFFF

/-- The code point of a high and a low surrogate. -/
def pair (high low : Nat) : Nat := 0x10000 + (high - 0xD800) * 0x400 + (low - 0xDC00)

def broken (first last : Nat) (byte : UInt8) (reason : String) : Undecodable :=
  ⟨"utf-16-le".toList, first, last, byte.toNat, reason.toList⟩

/-- Read from byte `pos` on. -/
def readFrom : Nat → List UInt8 → Except Undecodable Text
  | _, [] => .ok []
  | pos, [a] => .error (broken pos pos a "truncated data")
  | pos, a :: b :: r =>
    if isLow (unit a b) then .error (broken pos (pos + 1) a "illegal encoding")
    else if isHigh (unit a b) then
      match r with
      | c :: d :: r =>
        if isLow (unit c d) then
          (Char.ofNat (pair (unit a b) (unit c d)) :: ·) <$> readFrom (pos + 4) r
        else .error (broken pos (pos + 1) a "illegal UTF-16 surrogate")
      | r => .error (broken pos (pos + 1 + r.length) a "unexpected end of data")
    else (Char.ofNat (unit a b) :: ·) <$> readFrom (pos + 2) r

def read (bytes : List UInt8) : Except Undecodable Text := readFrom 0 bytes

theorem exists_of_map_cons {x : Except Undecodable Text} {c : Char} {t : Text}
    (h : (c :: ·) <$> x = .ok t) : ∃ r, x = .ok r ∧ t = c :: r := by
  cases x with
  | error u => cases h
  | ok r => exact ⟨r, rfl, (Except.ok.inj h).symm⟩

/-- Two bytes are read for a character, or four; none are left over. -/
theorem length_readFrom {pos : Nat} {bytes : List UInt8} {t : Text}
    (h : readFrom pos bytes = .ok t) :
    2 * t.length ≤ bytes.length ∧ bytes.length ≤ 4 * t.length := by
  fun_induction readFrom pos bytes generalizing t with
  | case1 pos =>
    cases h
    exact ⟨Nat.le_refl _, Nat.le_refl _⟩
  | case4 pos a b _ _ c d rest _ ih =>
    obtain ⟨later, hlater, rfl⟩ := exists_of_map_cons h
    have hlength := ih hlater
    simp only [List.length_cons]
    omega
  | case7 pos a b rest _ _ ih =>
    obtain ⟨later, hlater, rfl⟩ := exists_of_map_cons h
    have hlength := ih hlater
    simp only [List.length_cons]
    omega
  | _ => cases h

end Playscript.Utf16
