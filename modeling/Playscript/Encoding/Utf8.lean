import Playscript.Text

/-!
# UTF-8

A text as bytes and bytes as a text. Reading goes byte by byte: the first byte of a character says
how many more are owed and how the next one is bounded, which keeps out overlong forms, surrogates
and numbers past the last code point. Reading stops at the first byte that rules a character out.

* `read_encode`: reading the bytes of a text gives the text.
-/

namespace Playscript

/-- Bytes that stand for no text: where they are, which byte is first among them, and why. -/
structure Undecodable where
  codec : Text
  first : Nat
  last : Nat
  byte : Nat
  reason : Text
  deriving DecidableEq, Repr

namespace Utf8

/-- A character that is read in part: where it started, with which byte, how many bytes it is
owed, the bounds of the next one, and the value so far. -/
structure Partial where
  start : Nat
  lead : Nat
  owed : Nat
  low : Nat
  high : Nat
  value : Nat
  deriving DecidableEq, Repr

/-- What a first byte above ASCII begins, if anything. -/
def begin? (pos b : Nat) : Option Partial :=
  if 0xC2 ≤ b ∧ b ≤ 0xDF then some ⟨pos, b, 1, 0x80, 0xBF, b - 0xC0⟩
  else if b = 0xE0 then some ⟨pos, b, 2, 0xA0, 0xBF, b - 0xE0⟩
  else if b = 0xED then some ⟨pos, b, 2, 0x80, 0x9F, b - 0xE0⟩
  else if 0xE1 ≤ b ∧ b ≤ 0xEF then some ⟨pos, b, 2, 0x80, 0xBF, b - 0xE0⟩
  else if b = 0xF0 then some ⟨pos, b, 3, 0x90, 0xBF, b - 0xF0⟩
  else if 0xF1 ≤ b ∧ b ≤ 0xF3 then some ⟨pos, b, 3, 0x80, 0xBF, b - 0xF0⟩
  else if b = 0xF4 then some ⟨pos, b, 3, 0x80, 0x8F, b - 0xF0⟩
  else none

def Partial.extend (p : Partial) (b : Nat) : Partial :=
  { p with owed := p.owed - 1, low := 0x80, high := 0xBF, value := p.value * 64 + (b - 0x80) }

/-- The bytes of a broken character run from its first byte to just before `pos`. -/
def Partial.broken (p : Partial) (pos : Nat) (reason : String) : Undecodable :=
  ⟨"utf-8".toList, p.start, pos - 1, p.lead, reason.toList⟩

/-- Read from byte `pos` on, inside a character or between two. -/
def readFrom : Option Partial → Nat → List UInt8 → Except Undecodable Text
  | none, _, [] => .ok []
  | some p, pos, [] => .error (p.broken pos "unexpected end of data")
  | none, pos, b :: r =>
    if b.toNat < 0x80 then (Char.ofNat b.toNat :: ·) <$> readFrom none (pos + 1) r
    else
      match begin? pos b.toNat with
      | some p => readFrom (some p) (pos + 1) r
      | none => .error ⟨"utf-8".toList, pos, pos, b.toNat, "invalid start byte".toList⟩
  | some p, pos, b :: r =>
    if p.low ≤ b.toNat ∧ b.toNat ≤ p.high then
      let q := p.extend b.toNat
      if q.owed = 0 then (Char.ofNat q.value :: ·) <$> readFrom none (pos + 1) r
      else readFrom (some q) (pos + 1) r
    else .error (p.broken pos "invalid continuation byte")

def read (bytes : List UInt8) : Except Undecodable Text := readFrom none 0 bytes

/-- The bytes of one character. -/
def encodeChar (c : Char) : List UInt8 :=
  let n := c.toNat
  if n < 0x80 then [UInt8.ofNat n]
  else if n < 0x800 then [UInt8.ofNat (0xC0 + n / 64), UInt8.ofNat (0x80 + n % 64)]
  else if n < 0x10000 then
    [UInt8.ofNat (0xE0 + n / 4096), UInt8.ofNat (0x80 + n / 64 % 64), UInt8.ofNat (0x80 + n % 64)]
  else
    [UInt8.ofNat (0xF0 + n / 262144), UInt8.ofNat (0x80 + n / 4096 % 64),
     UInt8.ofNat (0x80 + n / 64 % 64), UInt8.ofNat (0x80 + n % 64)]

def encode (t : Text) : List UInt8 := t.flatMap encodeChar

/-- The characters that fit into a number of bytes. A replacement character stands for one that is
cut through. -/
def cut : Nat → Text → Text
  | _, [] => []
  | n, c :: r =>
    let size := (encodeChar c).length
    if size ≤ n then c :: cut (n - size) r
    else if n = 0 then []
    else ['\ufffd']

private theorem toNat_byte {n : Nat} (h : n < 256) : (UInt8.ofNat n).toNat = n := by
  simp [Nat.mod_eq_of_lt h]

private theorem toNat_lt (c : Char) : c.toNat < 0x110000 := by
  have := c.valid
  simp only [UInt32.isValidChar, Nat.isValidChar] at this
  simp only [Char.toNat]
  omega

/-- No character is a surrogate. -/
private theorem not_surrogate (c : Char) : c.toNat < 0xD800 ∨ 0xDFFF < c.toNat := by
  have := c.valid
  simp only [UInt32.isValidChar, Nat.isValidChar] at this
  simp only [Char.toNat]
  omega

private theorem readFrom_first {pos b : Nat} {p : Partial} (hb : b < 256) (ha : 0x80 ≤ b)
    (hp : begin? pos b = some p) (r : List UInt8) :
    readFrom none pos (UInt8.ofNat b :: r) = readFrom (some p) (pos + 1) r := by
  rw [readFrom, toNat_byte hb, if_neg (by omega), hp]

private theorem readFrom_next {pos b : Nat} {p : Partial} (hb : b < 256)
    (hl : p.low ≤ b) (hh : b ≤ p.high) (ho : 1 < p.owed) (r : List UInt8) :
    readFrom (some p) pos (UInt8.ofNat b :: r) = readFrom (some (p.extend b)) (pos + 1) r := by
  have : (p.extend b).owed ≠ 0 := by simp only [Partial.extend]; omega
  rw [readFrom, toNat_byte hb, if_pos ⟨hl, hh⟩]
  simp only [if_neg this]

private theorem readFrom_last {pos b : Nat} {p : Partial} {c : Char} (hb : b < 256)
    (hl : p.low ≤ b) (hh : b ≤ p.high) (ho : p.owed = 1)
    (hc : p.value * 64 + (b - 0x80) = c.toNat) (r : List UInt8) :
    readFrom (some p) pos (UInt8.ofNat b :: r) = (c :: ·) <$> readFrom none (pos + 1) r := by
  rw [readFrom, toNat_byte hb, if_pos ⟨hl, hh⟩]
  simp [Partial.extend, ho, hc, Char.ofNat_toNat]

private theorem begin?_three {n : Nat} (pos : Nat) (h₂ : 0x800 ≤ n) (h₃ : n < 0x10000)
    (hs : n < 0xD800 ∨ 0xDFFF < n) :
    ∃ low high, begin? pos (0xE0 + n / 4096) =
        some ⟨pos, 0xE0 + n / 4096, 2, low, high, n / 4096⟩ ∧
      low ≤ 0x80 + n / 64 % 64 ∧ 0x80 + n / 64 % 64 ≤ high := by
  have hv : 0xE0 + n / 4096 - 0xE0 = n / 4096 := by omega
  unfold begin?
  rw [if_neg (by omega), hv]
  by_cases e₀ : 0xE0 + n / 4096 = 0xE0
  · exact ⟨0xA0, 0xBF, by rw [if_pos e₀], by omega, by omega⟩
  · rw [if_neg e₀]
    by_cases e₁ : 0xE0 + n / 4096 = 0xED
    · exact ⟨0x80, 0x9F, by rw [if_pos e₁], by omega, by omega⟩
    · exact ⟨0x80, 0xBF, by rw [if_neg e₁, if_pos (by omega)], by omega, by omega⟩

private theorem begin?_four {n : Nat} (pos : Nat) (h₃ : 0x10000 ≤ n) (h₄ : n < 0x110000) :
    ∃ low high, begin? pos (0xF0 + n / 262144) =
        some ⟨pos, 0xF0 + n / 262144, 3, low, high, n / 262144⟩ ∧
      low ≤ 0x80 + n / 4096 % 64 ∧ 0x80 + n / 4096 % 64 ≤ high := by
  have hv : 0xF0 + n / 262144 - 0xF0 = n / 262144 := by omega
  unfold begin?
  rw [if_neg (by omega), if_neg (by omega), if_neg (by omega), if_neg (by omega), hv]
  by_cases e₀ : 0xF0 + n / 262144 = 0xF0
  · exact ⟨0x90, 0xBF, by rw [if_pos e₀], by omega, by omega⟩
  · rw [if_neg e₀]
    by_cases e₁ : 0xF1 ≤ 0xF0 + n / 262144 ∧ 0xF0 + n / 262144 ≤ 0xF3
    · exact ⟨0x80, 0xBF, by rw [if_pos e₁], by omega, by omega⟩
    · exact ⟨0x80, 0x8F, by rw [if_neg e₁, if_pos (by omega)], by omega, by omega⟩

private theorem readFrom_encodeChar (c : Char) (pos : Nat) (r : List UInt8) :
    readFrom none pos (encodeChar c ++ r) =
      (c :: ·) <$> readFrom none (pos + (encodeChar c).length) r := by
  have hlt := toNat_lt c
  have hs := not_surrogate c
  unfold encodeChar
  dsimp only
  by_cases h₁ : c.toNat < 0x80
  · simp [h₁, readFrom, toNat_byte (n := c.toNat) (by omega), Char.ofNat_toNat]
  by_cases h₂ : c.toNat < 0x800
  · have hb : begin? pos (0xC0 + c.toNat / 64) =
        some ⟨pos, 0xC0 + c.toNat / 64, 1, 0x80, 0xBF, c.toNat / 64⟩ := by
      have hv : 0xC0 + c.toNat / 64 - 0xC0 = c.toNat / 64 := by omega
      unfold begin?
      rw [if_pos (by omega), hv]
    simp only [h₁, h₂, if_false, if_true, List.cons_append, List.nil_append]
    rw [readFrom_first (by omega) (by omega) hb,
      readFrom_last (c := c) (by omega) (by simp) (by simp; omega) rfl (by simp; omega)]
    rfl
  by_cases h₃ : c.toNat < 0x10000
  · obtain ⟨low, high, hb, hl, hh⟩ := begin?_three pos (by omega) h₃ hs
    simp only [h₁, h₂, h₃, if_false, if_true, List.cons_append, List.nil_append]
    rw [readFrom_first (by omega) (by omega) hb,
      readFrom_next (by omega) hl hh (by simp),
      readFrom_last (c := c) (by omega) (by simp [Partial.extend])
        (by simp [Partial.extend]; omega) rfl (by simp [Partial.extend]; omega)]
    rfl
  · obtain ⟨low, high, hb, hl, hh⟩ := begin?_four pos (by omega) hlt
    simp only [h₁, h₂, h₃, if_false, List.cons_append, List.nil_append]
    rw [readFrom_first (by omega) (by omega) hb,
      readFrom_next (by omega) hl hh (by simp),
      readFrom_next (by omega) (by simp [Partial.extend]) (by simp [Partial.extend]; omega)
        (by simp [Partial.extend]),
      readFrom_last (c := c) (by omega) (by simp [Partial.extend])
        (by simp [Partial.extend]; omega) rfl (by simp [Partial.extend]; omega)]
    rfl

theorem readFrom_encode (t : Text) (pos : Nat) : readFrom none pos (encode t) = .ok t := by
  induction t generalizing pos with
  | nil => rfl
  | cons c r ih =>
    rw [encode, List.flatMap_cons, readFrom_encodeChar]
    rw [encode] at ih
    rw [ih]
    rfl

theorem read_encode (t : Text) : read (encode t) = .ok t := readFrom_encode t 0

end Utf8

end Playscript
