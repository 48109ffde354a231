import Mathlib.Data.List.Nodup
import Playscript.Json.Reader
import Playscript.Json.Writer

/-!
# Reading written JSON

The reader undoes the writer. A value comes back from its text whatever the strings in it hold and
however deep it is nested, as long as it keeps to the limits on digits and nesting. What follows a
value begins with a comma or a line feed, which is what ends a number.

* `Plain`, `Fits`: values that are written exactly, and values within the limits of the reader.
* `readString_written`, `readNumber_written`: strings and whole numbers come back.
* `readItems_written`, `readFields_written`: so do the items of arrays and the fields of objects.
* `read_render`: a whole text gives the value that it was written for.
* `not_mem_write`: no carriage return is written, so reading a file changes nothing in it.
-/

namespace Playscript.Json

/-- Every number is whole, and no object has two values for a key. -/
inductive Plain : Json → Prop
  | null : Plain .null
  | bool (b : Bool) : Plain (.bool b)
  | int (n : Int) : Plain (.int n)
  | str (t : Text) : Plain (.str t)
  | arr {items : List Json} (h : ∀ v ∈ items, Plain v) : Plain (.arr items)
  | obj {fields : List (Text × Json)} (hk : (Table.keys fields).Nodup)
      (h : ∀ f ∈ fields, Plain f.2) : Plain (.obj fields)

/-- The limits of the reader: how long a number is, and how many arrays and objects are open. -/
inductive Fits : Nat → Json → Prop
  | null {room : Nat} : Fits room .null
  | bool {room : Nat} (b : Bool) : Fits room (.bool b)
  | int {room : Nat} (n : Int) (h : (Text.ofNat n.natAbs).length ≤ mostDigits) : Fits room (.int n)
  | decimal {room : Nat} (literal : Text) : Fits room (.decimal literal)
  | str {room : Nat} (t : Text) : Fits room (.str t)
  | arr {room : Nat} {items : List Json} (h : ∀ v ∈ items, Fits room v) :
      Fits (room + 1) (.arr items)
  | obj {room : Nat} {fields : List (Text × Json)} (h : ∀ f ∈ fields, Fits room f.2) :
      Fits (room + 1) (.obj fields)

attribute [simp] Plain.null Plain.bool Plain.int Plain.str
attribute [simp] Fits.null Fits.bool Fits.decimal Fits.str

section

variable {room : Nat} {items : List Json} {fields : List (Text × Json)}

@[simp] theorem plain_arr_iff : Plain (.arr items) ↔ ∀ v ∈ items, Plain v :=
  ⟨fun | .arr h => h, .arr⟩

@[simp] theorem plain_obj_iff :
    Plain (.obj fields) ↔ (Table.keys fields).Nodup ∧ ∀ f ∈ fields, Plain f.2 :=
  ⟨fun | .obj hk h => ⟨hk, h⟩, fun h => .obj h.1 h.2⟩

@[simp] theorem fits_int_iff {i : Int} :
    Fits room (.int i) ↔ (Text.ofNat i.natAbs).length ≤ mostDigits :=
  ⟨fun | .int _ h => h, .int i⟩

@[simp] theorem fits_arr_iff : Fits (room + 1) (.arr items) ↔ ∀ v ∈ items, Fits room v :=
  ⟨fun | .arr h => h, .arr⟩

@[simp] theorem fits_obj_iff : Fits (room + 1) (.obj fields) ↔ ∀ f ∈ fields, Fits room f.2 :=
  ⟨fun | .obj h => h, .obj⟩

end

/-- What may stand after a value. -/
def Ends (rest : Text) : Prop := ∀ c ∈ rest.head?, c = ',' ∨ c = '\n'

theorem ends_nil : Ends [] := by simp [Ends]

theorem ends_newLine (depth : Nat) (rest : Text) : Ends (newLine depth ++ rest) := by
  simp [Ends, newLine]

theorem ends_comma (rest : Text) : Ends (',' :: rest) := by simp [Ends]

/-! ## Distinct keys -/

theorem put_of_not_mem {t : List (Text × Json)} {k : Text} (h : k ∉ Table.keys t) (v : Json) :
    Table.put t k v = t ++ [(k, v)] := by
  induction t with
  | nil => rfl
  | cons f t ih =>
    simp only [Table.keys, List.map_cons, List.mem_cons, not_or] at h
    rw [Table.put, if_neg (Ne.symm h.1), ih h.2, List.cons_append]

/-- Fields with distinct keys are the table that they are put into. -/
theorem ofPairs_of_nodup {fields : List (Text × Json)} (h : (Table.keys fields).Nodup) :
    Table.ofPairs fields = fields := by
  have hfold : ∀ (later t : List (Text × Json)), (Table.keys (t ++ later)).Nodup →
      later.foldl (fun t p => Table.put t p.1 p.2) t = t ++ later := by
    intro later
    induction later with
    | nil => exact fun t _ => (List.append_nil t).symm
    | cons f later ih =>
      intro t ht
      have hsplit : t ++ f :: later = t ++ [f] ++ later := by simp
      have hnew : f.1 ∉ Table.keys t := by
        intro hmem
        rw [Table.keys, List.map_append, List.nodup_append] at ht
        exact ht.2.2 _ hmem f.1 (by simp) rfl
      rw [List.foldl_cons, put_of_not_mem hnew, hsplit]
      exact ih _ (hsplit ▸ ht)
  exact hfold fields [] h

/-! ## Blanks -/

theorem skipBlanks_of_not {c : Char} (h : isBlankChar c = false) (r : Text) :
    skipBlanks (c :: r) = c :: r := by
  rw [skipBlanks, List.dropWhile_cons_of_neg (by simp [h])]

theorem skipBlanks_newLine (depth : Nat) (rest : Text) :
    skipBlanks (newLine depth ++ rest) = skipBlanks rest := by
  have hspaces : ∀ n : Nat, skipBlanks (List.replicate n ' ' ++ rest) = skipBlanks rest := by
    intro n
    induction n with
    | zero => rfl
    | succ n ih => exact ih
  exact hspaces _

/-! ## Strings -/

/-- The four digits of a control character. -/
theorem fourHex?_hexDigits {n : Nat} (h : n < 0x20) (rest : Text) :
    fourHex? (Text.hexDigits 4 n ++ rest) = some n := by
  have hdigits : ∀ m < 0x20, fourHex? (Text.hexDigits 4 m) = some m := by decide
  exact hdigits n h

theorem length_hexDigits (width n : Nat) : (Text.hexDigits width n).length = width := by
  induction width generalizing n with
  | zero => rfl
  | succ width ih => simp [Text.hexDigits, ih]

/-- The short escapes: a backslash and a letter that stands for the character. -/
theorem readString_short (opening : Text) {c d : Char} (hu : c ≠ 'u')
    (h : plainEscape? c = some d) (rest : Text) :
    readString opening ('\\' :: c :: rest) = Step.map (d :: ·) (readString opening rest) := by
  rw [readString]
  · rw [h]
  · exact hu

/-- The long escapes: a backslash, the letter, and four digits. -/
theorem readString_long (opening : Text) {n : Nat} (h : n < 0x20) {rest : Text} (hr : rest ≠ []) :
    readString opening ('\\' :: 'u' :: (Text.hexDigits 4 n ++ rest)) =
      Step.map (Char.ofNat n :: ·) (readString opening rest) := by
  have hlong : ¬(Text.hexDigits 4 n ++ rest).length ≤ 4 := by
    have := List.length_pos_iff.2 hr
    rw [List.length_append, length_hexDigits]
    omega
  have hhigh : isHighHalf n = false := by simp [isHighHalf]; omega
  have hlow : isLowHalf n = false := by simp [isLowHalf]; omega
  have hdrop : (Text.hexDigits 4 n ++ rest).drop 4 = rest := List.drop_left' (length_hexDigits 4 n)
  rw [readString, if_neg hlong, fourHex?_hexDigits h]
  simp only [hhigh, hlow, Bool.false_eq_true, if_false, hdrop]

/-- A character comes back from its escape. -/
theorem readString_escapeChar (opening : Text) (c : Char) {rest : Text} (h : rest ≠ []) :
    readString opening (escapeChar c ++ rest) = Step.map (c :: ·) (readString opening rest) := by
  unfold escapeChar
  split_ifs with hquote hslash hn hr ht hb hf hcontrol
  -- The seven short escapes differ in their letter alone.
  any_goals (subst_vars; exact readString_short opening (by decide) rfl rest)
  · have hlong := readString_long opening hcontrol h
    rw [Char.ofNat_toNat] at hlong
    exact hlong
  · rw [List.singleton_append, readString, if_neg hcontrol]
    all_goals simp [hquote, hslash]

theorem readString_written (opening t rest : Text) :
    readString opening (t.flatMap escapeChar ++ '"' :: rest) = .ok (t, rest) := by
  induction t with
  | nil => rw [List.flatMap_nil, List.nil_append, readString]
  | cons c t ih =>
    rw [List.flatMap_cons, List.append_assoc, readString_escapeChar _ _ (by simp), ih]
    rfl

/-! ## Whole numbers -/

/-- The digits of a number start with a zero only when it is zero. -/
theorem ofNat_head (n : Nat) : ∃ c r, Text.ofNat n = c :: r ∧ (c = '0' → n = 0) := by
  induction n using Nat.strongRecOn with
  | _ n ih =>
    by_cases h : n < 10
    · refine ⟨n.digitChar, [], Nat.toDigits_of_lt_base h, ?_⟩
      exact (by decide : ∀ m < 10, m.digitChar = '0' → m = 0) n h
    · obtain ⟨c, r, hhead, hzero⟩ := ih (n / 10) (by omega)
      refine ⟨c, r ++ [(n % 10).digitChar], ?_, fun hc => ?_⟩
      · rw [Text.ofNat, Nat.toDigits_of_base_le (by omega) (by omega), ← Text.ofNat, hhead]
        rfl
      · have := hzero hc
        omega

theorem isDigit_of_mem_ofNat {n : Nat} {c : Char} (h : c ∈ Text.ofNat n) : c.isDigit = true :=
  Nat.isDigit_of_mem_toDigits (by omega) (by omega) h

theorem ofInt_head (i : Int) :
    ∃ c r, Text.ofInt i = c :: r ∧ (c == '-' || c.isDigit) = true := by
  cases i with
  | ofNat n =>
    obtain ⟨c, r, hhead, -⟩ := ofNat_head n
    have hdigit : c.isDigit = true := isDigit_of_mem_ofNat (n := n) (by simp [hhead])
    exact ⟨c, r, hhead, by simp [hdigit]⟩
  | negSucc n => exact ⟨'-', _, rfl, rfl⟩

theorem digitsValue_ofNat (n : Nat) : digitsValue (Text.ofNat n) = n := by
  have h := Nat.ofDigitChars_ten_toDigits (n := n)
  rw [Nat.ofDigitChars_eq_foldl] at h
  simpa only [digitsValue, Text.ofNat, Nat.mul_comm] using h

/-- What follows a number is no part of it. -/
theorem takeWhile_ofNat (n : Nat) {rest : Text} (h : Ends rest) :
    (Text.ofNat n ++ rest).takeWhile Char.isDigit = Text.ofNat n := by
  have hrest : rest.takeWhile Char.isDigit = [] := by
    cases rest with
    | nil => rfl
    | cons c r =>
      have hc : c.isDigit = false := by rcases h c rfl with rfl | rfl <;> decide
      rw [List.takeWhile_cons_of_neg (by simp [hc])]
  rw [List.takeWhile_append_of_pos fun c => isDigit_of_mem_ofNat, hrest, List.append_nil]

theorem wholeDigits_ofNat (n : Nat) {rest : Text} (h : Ends rest) :
    wholeDigits (Text.ofNat n ++ rest) = Text.ofNat n := by
  obtain ⟨c, r, hhead, hzero⟩ := ofNat_head n
  by_cases hc : c = '0'
  · obtain rfl := hzero hc
    rfl
  · rw [wholeDigits, takeWhile_ofNat n h]
    rw [hhead]
    intro r' hr
    exact hc (List.cons.inj hr).1

/-- Neither a comma nor a line feed begins a fraction or an exponent. -/
theorem no_fraction {rest : Text} (h : Ends rest) :
    fraction rest = [] ∧ exponent rest = ([], []) := by
  cases rest with
  | nil => exact ⟨rfl, rfl⟩
  | cons c r => rcases h c rfl with rfl | rfl <;> exact ⟨rfl, rfl⟩

/-- A number without a fraction and an exponent is its sign and its digits. -/
theorem readNumber_digits (sign : Text) (hs : sign = [] ∨ sign = ['-']) {n : Nat} {rest : Text}
    (hn : (Text.ofNat n).length ≤ mostDigits) (h : Ends rest) :
    readNumber (sign ++ (Text.ofNat n ++ rest)) =
      .ok (.int (if sign = [] then n else -n), rest) := by
  obtain ⟨c, r, hhead, -⟩ := ofNat_head n
  have hdigit : c.isDigit = true := isDigit_of_mem_ofNat (n := n) (by simp [hhead])
  have hne : Text.ofNat n ≠ [] := by simp [hhead]
  obtain ⟨hfraction, hexponent⟩ := no_fraction h
  have hsign : ((sign ++ (Text.ofNat n ++ rest)).take 1).filter (· == '-') = sign := by
    rcases hs with rfl | rfl
    · have hc : (c == '-') = false := by
        rw [beq_eq_false_iff_ne]
        rintro rfl
        exact absurd hdigit (by decide)
      simp [hhead, hc]
    · rfl
  unfold readNumber
  simp only [hsign, List.drop_left, wholeDigits_ofNat n h, if_neg hne, hfraction, hexponent,
    List.length_nil, List.drop_zero, Nat.zero_add, digitsValue_ofNat, and_self, if_true,
    if_neg (Nat.not_lt.2 hn)]

theorem readNumber_written (n : Int) {rest : Text}
    (hn : (Text.ofNat n.natAbs).length ≤ mostDigits) (h : Ends rest) :
    readNumber (Text.ofInt n ++ rest) = .ok (.int n, rest) := by
  cases n with
  | ofNat n => exact readNumber_digits [] (.inl rfl) hn h
  | negSucc n => exact readNumber_digits ['-'] (.inr rfl) (n := n + 1) hn h

/-! ## Values -/

/-- A character that is no blank, closes nothing and is no byte order mark. -/
def isOpening (c : Char) : Bool := !isBlankChar c && c != ']' && c != '\ufeff'

/-- Every value has a text, and it begins with an opening character. -/
theorem write_head {v : Json} (h : Plain v) (depth : Nat) :
    ∃ c r, write depth v = c :: r ∧ isOpening c = true := by
  cases h with
  | null => exact ⟨'n', _, rfl, rfl⟩
  | bool b => cases b <;> exact ⟨_, _, rfl, rfl⟩
  | int i =>
    obtain ⟨c, r, hhead, hc⟩ := ofInt_head i
    refine ⟨c, r, hhead, ?_⟩
    by_contra hnot
    simp only [isOpening, isBlankChar, Bool.not_eq_true, Bool.and_eq_false_iff, Bool.not_eq_false',
      Bool.or_eq_true, beq_iff_eq, bne_eq_false_iff_eq] at hnot
    rcases hnot with (((((rfl | rfl) | rfl) | rfl) | rfl) | rfl) <;> exact absurd hc (by decide)
  | str t => exact ⟨'"', _, rfl, rfl⟩
  | @arr items h => cases items <;> exact ⟨'[', _, rfl, rfl⟩
  | @obj fields hk h => rcases fields with _ | ⟨⟨k, v⟩, fields⟩ <;> exact ⟨'\x7b', _, rfl, rfl⟩

theorem skipBlanks_write {v : Json} (h : Plain v) (depth : Nat) (rest : Text) :
    skipBlanks (write depth v ++ rest) = write depth v ++ rest := by
  obtain ⟨c, r, hhead, hopening⟩ := write_head h depth
  have hblank : isBlankChar c = false := by
    simp only [isOpening, Bool.and_eq_true, Bool.not_eq_true'] at hopening
    exact hopening.1.1
  rw [hhead, List.cons_append, skipBlanks_of_not hblank]

theorem readValue_null (n room : Nat) (rest : Text) :
    readValue (n + 1) room ("null".toList ++ rest) = .ok (.null, rest) := by
  rfl

theorem readValue_bool (n room : Nat) (b : Bool) (rest : Text) :
    readValue (n + 1) room ((if b then "true" else "false").toList ++ rest) =
      .ok (.bool b, rest) := by
  cases b <;> rfl

/-- No word begins with a digit, and the one word with a sign has a letter after it. -/
theorem readWord?_digits (sign : Text) (hs : sign = [] ∨ sign = ['-']) (n : Nat) (rest : Text) :
    readWord? (sign ++ (Text.ofNat n ++ rest)) = none := by
  obtain ⟨c, r, hhead, -⟩ := ofNat_head n
  have hdigit : c.isDigit = true := isDigit_of_mem_ofNat (n := n) (by simp [hhead])
  have hne : ∀ d : Char, d.isDigit = false → (d == c) = false := by
    intro d hd
    rw [beq_eq_false_iff_ne]
    rintro rfl
    rw [hd] at hdigit
    cases hdigit
  rw [readWord?, Option.map_eq_none_iff, List.find?_eq_none]
  intro w hw
  simp only [wordValues, List.mem_cons, List.not_mem_nil, or_false] at hw
  rcases hs with rfl | rfl <;> rcases hw with rfl | rfl | rfl | rfl | rfl | rfl <;>
    simp [hhead, List.isPrefixOf, hne 'n' rfl, hne 't' rfl, hne 'f' rfl, hne 'N' rfl, hne 'I' rfl,
      hne '-' rfl]

theorem readValue_int (n room : Nat) (i : Int) {rest : Text}
    (hn : (Text.ofNat i.natAbs).length ≤ mostDigits) (h : Ends rest) :
    readValue (n + 1) room (Text.ofInt i ++ rest) = .ok (.int i, rest) := by
  have hword : readWord? (Text.ofInt i ++ rest) = none := by
    cases i with
    | ofNat m => exact readWord?_digits [] (.inl rfl) m rest
    | negSucc m => exact readWord?_digits ['-'] (.inr rfl) (m + 1) rest
  obtain ⟨c, r, hhead, hc⟩ := ofInt_head i
  rw [readValue]
  · rw [hword]
    exact readNumber_written i hn h
  all_goals
    rintro r' hr
    rw [hhead, List.cons_append] at hr
    rw [(List.cons.inj hr).1] at hc
    exact absurd hc (by decide)

/-- Given enough calls, the value is read back from its text at any depth. Two calls for each
character are enough. -/
def Returns (room : Nat) (v : Json) : Prop :=
  ∀ (depth n : Nat) (rest : Text), 2 * (write depth v).length ≤ n → Ends rest →
    readValue n room (write depth v ++ rest) = .ok (v, rest)

/-! ### Arrays and objects -/

theorem readItems_written {room : Nat} {v : Json} {items : List Json}
    (hp : ∀ w ∈ v :: items, Plain w) (h : ∀ w ∈ v :: items, Returns room w)
    (depth outer : Nat) {n : Nat} (rest : Text)
    (hn : 2 * (write depth v).length + 2 * (writeItems depth items).length < n) :
    readItems n room (write depth v ++ (writeItems depth items ++ (newLine outer ++ ']' :: rest))) =
      .ok (v :: items, rest) := by
  induction items generalizing v n with
  | nil =>
    obtain ⟨n, rfl⟩ : ∃ m, n = m + 1 := ⟨n - 1, by omega⟩
    have hv := h v (List.mem_cons_self ..) depth n (newLine outer ++ ']' :: rest) (by omega)
      (ends_newLine _ _)
    rw [readItems, writeItems, List.nil_append, hv]
    simp only [Step.andThen]
    rw [skipBlanks_newLine]
    rfl
  | cons w items ih =>
    obtain ⟨n, rfl⟩ : ∃ m, n = m + 1 := ⟨n - 1, by omega⟩
    have hw : Plain w := hp w (by simp)
    have hlater := ih (fun u hu => hp u (List.mem_cons_of_mem _ hu))
      (fun u hu => h u (List.mem_cons_of_mem _ hu)) (n := n)
      (by simp only [writeItems, List.length_append, List.length_cons] at hn; omega)
    have hv := h v (List.mem_cons_self ..) depth n
      (',' :: (newLine depth ++ (write depth w ++ (writeItems depth items
        ++ (newLine outer ++ ']' :: rest))))) (by omega) (ends_comma _)
    simp only [writeItems, List.append_assoc, List.cons_append]
    rw [readItems, hv]
    simp only [Step.andThen]
    rw [skipBlanks_of_not (by decide)]
    simp only [skipBlanks_newLine, skipBlanks_write hw, hlater]
    rfl

/-- A key is read as the string it is, up to the colon and the blank after it. -/
theorem readFields_key (n room : Nat) (k rest : Text) :
    readFields (n + 1) room (writeString k ++ (':' :: ' ' :: rest)) =
      (readValue n room (skipBlanks rest)).andThen fun v r =>
        match skipBlanks r with
        | '\x7d' :: rest => .ok ([(k, v)], rest)
        | ',' :: r => Step.map ((k, v) :: ·) (readFields n room (skipBlanks r))
        | r => .error (.comma, r) := by
  simp only [writeString, List.cons_append, List.append_assoc, List.nil_append]
  rw [readFields, readString_written]
  rfl

theorem readFields_written {room : Nat} {k : Text} {v : Json} {fields : List (Text × Json)}
    (hp : ∀ f ∈ (k, v) :: fields, Plain f.2) (h : ∀ f ∈ (k, v) :: fields, Returns room f.2)
    (depth outer : Nat) {n : Nat} (rest : Text)
    (hn : 2 * (write depth v).length + 2 * (writeFields depth fields).length < n) :
    readFields n room (writeString k ++ (':' :: ' ' :: (write depth v
      ++ (writeFields depth fields ++ (newLine outer ++ '\x7d' :: rest))))) =
        .ok ((k, v) :: fields, rest) := by
  have hplain : Plain v := hp (k, v) (List.mem_cons_self ..)
  have hreturns : Returns room v := h (k, v) (List.mem_cons_self ..)
  obtain ⟨n, rfl⟩ : ∃ m, n = m + 1 := ⟨n - 1, by omega⟩
  induction fields generalizing k v n with
  | nil =>
    have hv := hreturns depth n (newLine outer ++ '\x7d' :: rest) (by omega) (ends_newLine _ _)
    rw [readFields_key, skipBlanks_write hplain, writeFields, List.nil_append, hv]
    simp only [Step.andThen]
    rw [skipBlanks_newLine]
    rfl
  | cons f fields ih =>
    obtain ⟨key, w⟩ := f
    simp only [writeFields, List.length_append, List.length_cons] at hn
    obtain ⟨n, rfl⟩ : ∃ m, n = m + 1 := ⟨n - 1, by omega⟩
    have hlater := ih (fun g hg => hp g (List.mem_cons_of_mem _ hg))
      (fun g hg => h g (List.mem_cons_of_mem _ hg)) (hp (key, w) (by simp))
      (h (key, w) (by simp)) n (by omega)
    have hv := hreturns depth (n + 1)
      (',' :: (newLine depth ++ (writeString key ++ (':' :: ' ' :: (write depth w
        ++ (writeFields depth fields ++ (newLine outer ++ '\x7d' :: rest))))))) (by omega)
      (ends_comma _)
    simp only [writeFields, List.append_assoc, List.cons_append]
    rw [readFields_key, skipBlanks_write hplain, hv]
    simp only [Step.andThen]
    rw [skipBlanks_of_not (by decide)]
    have hkey : ∀ more : Text, skipBlanks (writeString key ++ more) = writeString key ++ more :=
      fun more => skipBlanks_of_not (by decide) _
    simp only [skipBlanks_newLine, hkey, hlater]
    rfl

/-- A text that is not empty leaves one call for itself. -/
theorem returns_of_succ {room : Nat} {v : Json} (hp : Plain v)
    (h : ∀ (depth n : Nat) (rest : Text), 2 * (write depth v).length ≤ n + 1 → Ends rest →
      readValue (n + 1) room (write depth v ++ rest) = .ok (v, rest)) : Returns room v := by
  intro depth n rest hn he
  obtain ⟨c, r, hhead, -⟩ := write_head hp depth
  have hlength : (write depth v).length = r.length + 1 := by rw [hhead, List.length_cons]
  obtain ⟨n, rfl⟩ : ∃ m, n = m + 1 := ⟨n - 1, by omega⟩
  exact h depth n rest hn he

theorem returns_arr {room : Nat} {items : List Json} (hp : ∀ v ∈ items, Plain v)
    (h : ∀ v ∈ items, Returns room v) : Returns (room + 1) (.arr items) := by
  refine returns_of_succ (.arr hp) fun depth n rest hn he => ?_
  cases items with
  | nil => rfl
  | cons v items =>
    simp only [write, List.length_append, List.length_cons] at hn
    have hitems := readItems_written hp h (depth + 1) depth rest (n := n) (by omega)
    obtain ⟨c, r, hhead, hopening⟩ := write_head (hp v (List.mem_cons_self ..)) (depth + 1)
    simp only [write, List.append_assoc, List.cons_append, List.nil_append]
    rw [readValue, skipBlanks_newLine, skipBlanks_write (hp v (List.mem_cons_self ..))]
    split
    · rename_i more hclosed
      rw [hhead, List.cons_append] at hclosed
      rw [(List.cons.inj hclosed).1] at hopening
      exact absurd hopening (by decide)
    · rw [hitems]
      rfl

theorem returns_obj {room : Nat} {fields : List (Text × Json)} (hk : (Table.keys fields).Nodup)
    (hp : ∀ f ∈ fields, Plain f.2) (h : ∀ f ∈ fields, Returns room f.2) :
    Returns (room + 1) (.obj fields) := by
  refine returns_of_succ (.obj hk hp) fun depth n rest hn he => ?_
  cases fields with
  | nil => rfl
  | cons f fields =>
    obtain ⟨k, v⟩ := f
    simp only [write, List.length_append, List.length_cons] at hn
    have hfields := readFields_written (k := k) hp h (depth + 1) depth rest (n := n) (by omega)
    have hkey : ∀ more : Text, skipBlanks (writeString k ++ more) = writeString k ++ more :=
      fun more => skipBlanks_of_not (by decide) _
    have hmap : readValue (n + 1) (room + 1) (write depth (.obj ((k, v) :: fields)) ++ rest) =
        Step.map (fun fields => .obj (Table.ofPairs fields)) (readFields n room
          (writeString k ++ (':' :: ' ' :: (write (depth + 1) v
            ++ (writeFields (depth + 1) fields ++ (newLine depth ++ '\x7d' :: rest)))))) := by
      simp only [write, List.append_assoc, List.cons_append, List.nil_append]
      rw [readValue, skipBlanks_newLine, hkey]
      rfl
    rw [hmap, hfields, Step.map, Step.andThen, ofPairs_of_nodup hk]

/-- A value that is written exactly and keeps to the limits comes back. -/
theorem returns_of_plain {room : Nat} {v : Json} (hf : Fits room v) (hp : Plain v) :
    Returns room v := by
  induction hf with
  | null => exact returns_of_succ hp fun _ _ _ _ _ => readValue_null ..
  | bool b => exact returns_of_succ hp fun _ _ _ _ _ => readValue_bool ..
  | int i hi => exact returns_of_succ hp fun _ _ _ _ he => readValue_int _ _ _ hi he
  | decimal literal => cases hp
  | str t =>
    refine returns_of_succ hp fun _ n rest _ _ => ?_
    simp only [write, writeString, List.cons_append, List.append_assoc, List.nil_append]
    rw [readValue, readString_written]
    rfl
  | arr _ ih =>
    have hitems := plain_arr_iff.1 hp
    exact returns_arr hitems fun v hv => ih v hv (hitems v hv)
  | obj _ ih =>
    obtain ⟨hk, hfields⟩ := plain_obj_iff.1 hp
    exact returns_obj hk hfields fun f hf => ih f hf (hfields f hf)

/-- **A written value is read back.** The strings in it may hold any characters, and it may be
nested as deep as there is room. -/
theorem read_render {room : Nat} {v : Json} (hp : Plain v) (hf : Fits room v) :
    read room (render v) = .ok v := by
  have hmark : (render v).head? ≠ some '\ufeff' := by
    obtain ⟨c, r, hhead, hopening⟩ := write_head hp 0
    rw [render, hhead, List.head?_cons]
    intro hc
    rw [Option.some.inj hc] at hopening
    exact absurd hopening (by decide)
  have hvalue := returns_of_plain hf hp 0 (2 * (render v).length + 2) [] (by rw [render]; omega)
    ends_nil
  have hblanks := skipBlanks_write hp 0 []
  rw [List.append_nil] at hvalue hblanks
  rw [read, if_neg hmark, render, hblanks]
  rw [render] at hvalue
  rw [hvalue]
  rfl

/-! ## Line breaks -/

theorem not_mem_newLine (depth : Nat) : '\r' ∉ newLine depth := by simp [newLine]

theorem not_mem_escapeChar (c : Char) : '\r' ∉ escapeChar c := by
  have hdigits : ∀ n < 0x20, '\r' ∉ Text.hexDigits 4 n := by decide
  unfold escapeChar
  split_ifs with hquote hslash hn hr ht hb hf hcontrol
  any_goals decide
  · simpa using hdigits _ hcontrol
  · simpa using Ne.symm hr

theorem not_mem_writeString (t : Text) : '\r' ∉ writeString t := by
  simp [writeString, not_mem_escapeChar]

theorem not_mem_ofInt (i : Int) : '\r' ∉ Text.ofInt i := by
  have hdigits : ∀ n, '\r' ∉ Text.ofNat n := fun n h =>
    absurd (isDigit_of_mem_ofNat h) (by decide)
  cases i with
  | ofNat n => exact hdigits n
  | negSucc n => simpa [Text.ofInt] using hdigits (n + 1)

theorem not_mem_writeItems {items : List Json} (h : ∀ v ∈ items, ∀ depth, '\r' ∉ write depth v)
    (depth : Nat) : '\r' ∉ writeItems depth items := by
  induction items with
  | nil => simp [writeItems]
  | cons v items ih =>
    have hlater := ih fun w hw => h w (List.mem_cons_of_mem _ hw)
    simp [writeItems, not_mem_newLine, h v (List.mem_cons_self ..), hlater]

theorem not_mem_writeFields {fields : List (Text × Json)}
    (h : ∀ f ∈ fields, ∀ depth, '\r' ∉ write depth f.2) (depth : Nat) :
    '\r' ∉ writeFields depth fields := by
  induction fields with
  | nil => simp [writeFields]
  | cons f fields ih =>
    have hlater := ih fun g hg => h g (List.mem_cons_of_mem _ hg)
    simp [writeFields, not_mem_newLine, not_mem_writeString, h f (List.mem_cons_self ..), hlater]

/-- No carriage return is written: the line breaks are line feeds, and those in strings are
escaped. -/
theorem not_mem_write {v : Json} (hp : Plain v) (depth : Nat) : '\r' ∉ write depth v := by
  induction hp generalizing depth with
  | null => simp [write]
  | bool b => cases b <;> simp [write]
  | int i => exact not_mem_ofInt i
  | str t => exact not_mem_writeString t
  | @arr items _ ih =>
    cases items with
    | nil => simp [write]
    | cons v items =>
      have hlater := not_mem_writeItems (fun w hw => ih w (List.mem_cons_of_mem _ hw)) (depth + 1)
      simp [write, not_mem_newLine, ih v (List.mem_cons_self ..), hlater]
  | @obj fields _ _ ih =>
    cases fields with
    | nil => simp [write]
    | cons f fields =>
      have hlater := not_mem_writeFields (fun g hg => ih g (List.mem_cons_of_mem _ hg)) (depth + 1)
      simp [write, not_mem_newLine, not_mem_writeString, ih f (List.mem_cons_self ..), hlater]

end Playscript.Json
