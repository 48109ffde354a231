import Playscript.Encoding.Utf16
import Playscript.Text.Quoted

/-!
# Encodings

What reads a script from bytes goes by a name. Which names there are is a matter of the system: a
registry knows some, and behind a name is a codec, which reads text or does something else. Of a
registry no more is taken for granted than that it has UTF-8.

A registry of six encodings stands for one where a system has to be named. There a name is compared
without case and with every run of other characters taken as one separator, so that spellings with
hyphens, spaces and underscores agree.

A text is made of characters, and half of a surrogate pair is none, so codecs that give such halves
are outside of this.

* `decodeAs`: reading bytes under a name.
* `readAscii_eq_ok_iff`: when bytes are ASCII, and what they read as.
* `Registry.decodeAs_utf8`: UTF-8 goes by its name in every registry.
-/

namespace Playscript

/-- What a codec has against bytes: some of them, or something that it has to say itself. -/
inductive DecodeError
  | bytes (u : Undecodable)
  | words (message : Text)
  deriving DecidableEq, Repr

/-- What goes by a name: a codec that reads text, or one that does something else. -/
inductive Codec
  | text (read : List UInt8 → Except DecodeError Text)
  | other

namespace Codec

def isText : Codec → Bool
  | text _ => true
  | other => false

/-- A codec that has nothing to say but which bytes are bad. -/
def reading (read : List UInt8 → Except Undecodable Text) : Codec :=
  .text fun bytes => (read bytes).mapError .bytes

end Codec

/-- The codecs that a system knows. -/
structure Registry where
  find? : Text → Option Codec
  utf8 : find? "utf-8".toList = some (.reading Utf8.read)

/-- `hex` is a codec that is known by name but turns bytes into bytes. -/
inductive Encoding
  | utf8
  | utf8Signed
  | utf16le
  | ascii
  | latin1
  | hex
  deriving DecidableEq, Repr

namespace Encoding

def all : List Encoding := [.utf8, .utf8Signed, .utf16le, .ascii, .latin1, .hex]

/-- The name under which an encoding is filed. -/
def ownName : Encoding → String
  | .utf8 => "utf_8"
  | .utf8Signed => "utf_8_sig"
  | .utf16le => "utf_16_le"
  | .ascii => "ascii"
  | .latin1 => "latin_1"
  | .hex => "hex_codec"

def otherNames : Encoding → List String
  | .utf8 => ["u8", "utf", "utf8", "utf8_ucs2", "utf8_ucs4", "cp65001"]
  | .utf8Signed => []
  | .utf16le => ["unicodelittleunmarked", "utf_16le"]
  | .ascii =>
    ["646", "ansi_x3.4_1968", "ansi_x3_4_1968", "ansi_x3.4_1986", "cp367", "csascii", "ibm367",
     "iso646_us", "iso_646.irv_1991", "iso_ir_6", "us", "us_ascii"]
  | .latin1 =>
    ["8859", "cp819", "csisolatin1", "ibm819", "iso8859", "iso8859_1", "iso_8859_1",
     "iso_8859_1_1987", "iso_ir_100", "l1", "latin", "latin1"]
  | .hex => ["hex"]

/-- Letters, digits and the dot stand in a name; all else separates. -/
def isNameChar (c : Char) : Bool := c.isAlphanum || c == '.'

/-- A name in small letters, its parts joined by underscores. -/
def normalName (name : Text) : Text :=
  ['_'].intercalate
    (((Text.splitWhere (fun c => !isNameChar c) (name.map Char.toLower))).filter (· ≠ []))

/-- A dot in an alias may be written for an underscore; in an encoding's own name it may not. -/
def ofName? (name : Text) : Option Encoding :=
  let plain := String.ofList (normalName name)
  let dotless := String.ofList ((normalName name).map fun c => if c = '.' then '_' else c)
  all.find? fun e =>
    e.otherNames.contains plain || e.otherNames.contains dotless || e.ownName == plain

/-- The three bytes that may stand before a signed text. -/
def signature : List UInt8 := [0xEF, 0xBB, 0xBF]

/-- A signed text that ends inside its signature is empty. -/
def readSigned (bytes : List UInt8) : Except Undecodable Text :=
  if bytes.length < 3 && bytes.isPrefixOf signature then .ok []
  else Utf8.read (if signature.isPrefixOf bytes then bytes.drop 3 else bytes)

def readAscii : Nat → List UInt8 → Except Undecodable Text
  | _, [] => .ok []
  | pos, b :: r =>
    if b.toNat < 128 then (Char.ofNat b.toNat :: ·) <$> readAscii (pos + 1) r
    else .error ⟨"ascii".toList, pos, pos, b.toNat, "ordinal not in range(128)".toList⟩

/-- Each byte is the character of its number. -/
def readLatin1 (bytes : List UInt8) : Text := bytes.map fun b => Char.ofNat b.toNat

def codec : Encoding → Codec
  | .utf8 => .reading Utf8.read
  | .utf8Signed => .reading readSigned
  | .utf16le => .reading Utf16.read
  | .ascii => .reading (readAscii 0)
  | .latin1 => .reading fun bytes => .ok (readLatin1 bytes)
  | .hex => .other

/-- Why bytes could not be read under the name of an encoding. -/
inductive Failure
  | nulInName
  | unknownName (name : Text)
  | notText (name : Text)
  | undecodable (e : DecodeError)
  deriving DecidableEq, Repr

private theorem map_ok (c : Char) (t : Text) :
    (c :: ·) <$> (Except.ok t : Except Undecodable Text) = .ok (c :: t) := rfl

private theorem map_error (c : Char) (u : Undecodable) :
    (c :: ·) <$> (Except.error u : Except Undecodable Text) = .error u := rfl

theorem readAscii_eq_ok_iff (pos : Nat) (bytes : List UInt8) (t : Text) :
    readAscii pos bytes = .ok t ↔ (∀ b ∈ bytes, b.toNat < 128) ∧ t = readLatin1 bytes := by
  induction bytes generalizing pos t with
  | nil => simp [readAscii, readLatin1, eq_comm]
  | cons b r ih =>
    by_cases hb : b.toNat < 128
    · cases hr : readAscii (pos + 1) r with
      | ok u =>
        have := (ih (pos + 1) u).1 hr
        simp only [readAscii, if_pos hb, hr, map_ok, this.2]
        constructor
        · rintro ⟨⟩
          exact ⟨by simpa [hb] using this.1, rfl⟩
        · rintro ⟨-, rfl⟩
          rfl
      | error e =>
        simp only [readAscii, if_pos hb, hr, map_error, reduceCtorEq, false_iff]
        rintro ⟨h, -⟩
        have := (ih (pos + 1) _).2 ⟨fun b hb => h b (List.mem_cons_of_mem _ hb), rfl⟩
        rw [hr] at this
        cases this
    · simp [readAscii, hb]

end Encoding

namespace Registry

/-- The six encodings. -/
def standard : Registry where
  find? name := (Encoding.ofName? name).map Encoding.codec
  utf8 := by
    have hname : Encoding.ofName? "utf-8".toList = some .utf8 := by decide +kernel
    rw [hname]
    rfl

variable (codecs : Registry)

/-- The text of bytes under a name. -/
def decodeAs (name : Text) (bytes : List UInt8) : Except Encoding.Failure Text :=
  match codecs.find? name with
  | none => .error (.unknownName name)
  | some .other => .error (.notText name)
  | some (.text read) => (read bytes).mapError .undecodable

theorem decodeAs_utf8 (bytes : List UInt8) :
    codecs.decodeAs "utf-8".toList bytes =
      (Utf8.read bytes).mapError fun u => .undecodable (.bytes u) := by
  cases hread : Utf8.read bytes <;> simp only [decodeAs, codecs.utf8, Codec.reading, hread] <;> rfl

end Registry

/-- One bad byte is shown by its value, several by their places. -/
def Undecodable.message (u : Undecodable) : Text :=
  let place :=
    if u.first = u.last then
      " codec can't decode byte 0x".toList ++ Text.hexDigits 2 u.byte ++ " in position ".toList
        ++ Text.ofNat u.first
    else
      " codec can't decode bytes in position ".toList ++ Text.ofNat u.first ++ ['-']
        ++ Text.ofNat u.last
  Text.quoted u.codec ++ place ++ ": ".toList ++ u.reason

def DecodeError.message : DecodeError → Text
  | bytes u => u.message
  | words message => message

/-- How many bytes of the name of an encoding a message shows when the encoding reads no text. -/
def Encoding.longestShownName : Nat := 400

def Encoding.Failure.message : Encoding.Failure → Text
  | nulInName => "embedded null character".toList
  | unknownName name => "unknown encoding: ".toList ++ name
  | notText name =>
    '\'' :: Utf8.cut longestShownName name
      ++ "' is not a text encoding; use codecs.open() to handle arbitrary codecs".toList
  | undecodable e => e.message

end Playscript
