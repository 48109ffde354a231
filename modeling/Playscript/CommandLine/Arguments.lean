import Playscript.Text.Digits

/-!
# Command-line arguments

How a list of arguments is read: options first, which may be cut short as long as one name is left
and may carry their value after an equals sign, then a command with arguments of its own. Two
dashes end the options. Reading goes from left to right, and help wins over everything that is
wrong further on.

* `classifyAll?_dashes`: what stands behind two dashes is not looked at.
* `ne_nil_of_read`: who asks for a check names a file.
-/

namespace Playscript

inductive Switch
  | help
  | config
  | logLevel
  deriving DecidableEq, Repr

/-- The names of the options of a command line or of one command. -/
abbrev SwitchNames := List (Text × Switch)

def commandSwitches : SwitchNames := [("-h".toList, .help), ("--help".toList, .help)]

def globalSwitches : SwitchNames :=
  commandSwitches ++ [("--config".toList, .config), ("--log-level".toList, .logLevel)]

/-- An argument as the options see it. A `short` switch was written with one dash. What is attached
to a switch follows an equals sign or, if the switch is short, its letter. -/
inductive Argument
  | value (text : Text)
  | switch (s : Switch) (short : Bool) (attached : Option Text)
  | unknown (text : Text)
  deriving DecidableEq, Repr

namespace Argument

/-- What stands before the first equals sign, and after it. -/
def splitEquals (t : Text) : Text × Option Text :=
  match t.dropWhile (· ≠ '=') with
  | [] => (t, none)
  | _ :: after => (t.takeWhile (· ≠ '='), some after)

def isShort (t : Text) : Bool := !"--".toList.isPrefixOf t

/-- The options that an argument may mean though it spells none of them out: those with a longer
name, or the one-letter option whose letter it starts with. -/
def candidates (names : SwitchNames) (t : Text) : List Argument :=
  if isShort t then
    (names.filter fun n => n.1 = t.take 2).map fun n => switch n.2 true (some (t.drop 2))
  else
    let parts := splitEquals t
    (names.filter fun n => parts.1.isPrefixOf n.1).map fun n => switch n.2 false parts.2

/-- A dash and a number, as a value that is no option. -/
def isNegativeNumber (t : Text) : Bool :=
  let t := if t.getLast? = some '\n' then t.dropLast else t
  match t with
  | '-' :: r =>
    let whole := r.takeWhile Text.isDecimalDigit
    match r.drop whole.length with
    | [] => !whole.isEmpty
    | '.' :: digits => !digits.isEmpty && digits.all Text.isDecimalDigit
    | _ => false
  | _ => false

/-- Tell options from values. An argument that may mean several options is a mistake. -/
def classify? (names : SwitchNames) (t : Text) : Option Argument :=
  if t.head? ≠ some '-' ∨ t = ['-'] then some (value t)
  else
    match names.find? (·.1 = t) with
    | some n => some (switch n.2 (isShort t) none)
    | none =>
      let parts := splitEquals t
      match parts.2, names.find? (·.1 = parts.1) with
      | some attached, some n => some (switch n.2 (isShort t) (some attached))
      | _, _ =>
        match candidates names t with
        | [one] => some one
        | [] => some (if isNegativeNumber t || t.contains ' ' then value t else unknown t)
        | _ => none

/-- The arguments up to two dashes, and whether these stand before what is left. -/
def classifyAll? (names : SwitchNames) : List Text → Option (List Argument × Option (List Text))
  | [] => some ([], none)
  | t :: r =>
    if t = "--".toList then some ([], some r)
    else
      match classify? names t, classifyAll? names r with
      | some a, some (as, rest) => some (a :: as, rest)
      | _, _ => none

/-- What stands behind two dashes is left as it is and makes no difference to what stands before. -/
theorem classifyAll?_dashes (names : SwitchNames) {before : List Text}
    (h : "--".toList ∉ before) (after : List Text) :
    classifyAll? names (before ++ "--".toList :: after) =
      (classifyAll? names before).map fun known => (known.1, some after) := by
  induction before with
  | nil => simp [classifyAll?]
  | cons t before ih =>
    have ht : t ≠ "--".toList := fun heq => h (heq ▸ List.mem_cons_self ..)
    have hbefore : "--".toList ∉ before := fun hmem => h (List.mem_cons_of_mem _ hmem)
    rw [List.cons_append, classifyAll?, classifyAll?, if_neg ht, if_neg ht, ih hbefore]
    cases classify? names t with
    | none => rfl
    | some a => cases classifyAll? names before <;> rfl

end Argument

inductive Command
  | run (script : Text)
  | check (files : List Text)
  deriving DecidableEq, Repr

structure Request where
  config : Option Text := none
  logLevel : Option Text := none
  command : Command
  deriving DecidableEq, Repr

/-- Help was asked for, or the arguments make no sense. -/
inductive Usage
  | help
  | misuse
  deriving DecidableEq, Repr

namespace Request

/-- A switch for help takes no value, but what is attached to a short one may be short switches for
help again. -/
def helpVerdict (short : Bool) (attached : Option Text) : Usage :=
  match attached with
  | none => .help
  | some t => if short && !t.isEmpty && t.all (· == 'h') then .help else .misuse

/-- The values of a command, unless help or an unknown option comes up. -/
def commandValues : List Argument → Except Usage (List Text)
  | [] => .ok []
  | .value t :: r => (t :: ·) <$> commandValues r
  | .switch .help short attached :: _ => .error (helpVerdict short attached)
  | .switch _ _ _ :: _ => .error .misuse
  | .unknown _ :: r =>
    match commandValues r with
    | .error usage => .error usage
    | .ok _ => .error .misuse

def readCommand (name : Text) (args : List Text) : Except Usage Command :=
  if name ≠ "run".toList ∧ name ≠ "check".toList then .error .misuse
  else
    match Argument.classifyAll? commandSwitches args with
    | none => .error .misuse
    | some (known, rest) =>
      match commandValues known with
      | .error usage => .error usage
      | .ok values =>
        let values := values ++ rest.getD []
        if name = "run".toList then
          match values with
          | [script] => .ok (.run script)
          | _ => .error .misuse
        else if values = [] then .error .misuse
        else .ok (.check values)

/-- The options before the command, which starts at the first value. `raw` are the arguments as
they were given. -/
def readFrom (config logLevel : Option Text) (sound : Bool) :
    List Argument → List Text → Except Usage Request
  | .value name :: _, _ :: raw =>
    match readCommand name raw with
    | .error usage => .error usage
    | .ok command => if sound then .ok { config, logLevel, command } else .error .misuse
  | .unknown _ :: r, _ :: raw => readFrom config logLevel false r raw
  | .switch .help short attached :: _, _ => .error (helpVerdict short attached)
  | .switch .config _ (some t) :: r, _ :: raw => readFrom (some t) logLevel sound r raw
  | .switch .logLevel _ (some t) :: r, _ :: raw => readFrom config (some t) sound r raw
  | .switch .config _ none :: .value t :: r, _ :: _ :: raw =>
    readFrom (some t) logLevel sound r raw
  | .switch .logLevel _ none :: .value t :: r, _ :: _ :: raw =>
    readFrom config (some t) sound r raw
  | _, _ => .error .misuse

def read (args : List Text) : Except Usage Request :=
  match Argument.classifyAll? globalSwitches args with
  | none => .error .misuse
  | some (known, _) => readFrom none none true known args

theorem ne_nil_of_readCommand {name : Text} {args files : List Text}
    (h : readCommand name args = .ok (.check files)) : files ≠ [] := by
  unfold readCommand at h
  split at h
  · cases h
  · split at h
    · cases h
    · split at h
      · cases h
      · simp only at h
        split at h
        · split at h <;> cases h
        · split at h
          · cases h
          · rename_i hne
            cases h
            exact hne

/-- The options before the command only pass it on. One that is unknown is not forgiven. -/
theorem readCommand_of_readFrom {config logLevel : Option Text} {sound : Bool}
    {known : List Argument} {raw : List Text} {r : Request}
    (h : readFrom config logLevel sound known raw = .ok r) :
    sound = true ∧ ∃ name args, readCommand name args = .ok r.command := by
  fun_induction readFrom config logLevel sound known raw with
  | case2 config logLevel name rest arg raw command hcommand =>
    cases h
    exact ⟨rfl, name, raw, hcommand⟩
  | case4 config logLevel sound text rest arg raw ih => cases (ih h).1
  | case6 _ _ _ _ _ _ _ _ ih | case7 _ _ _ _ _ _ _ _ ih => exact ih h
  | case8 _ _ _ _ _ _ _ _ _ ih | case9 _ _ _ _ _ _ _ _ _ ih => exact ih h
  | _ => cases h

/-- Who asks for a check names a file. -/
theorem ne_nil_of_read {args files : List Text} {r : Request} (h : read args = .ok r)
    (hr : r.command = .check files) : files ≠ [] := by
  unfold read at h
  split at h
  · cases h
  · obtain ⟨-, name, rest, hcommand⟩ := readCommand_of_readFrom h
    rw [hr] at hcommand
    exact ne_nil_of_readCommand hcommand

end Request

end Playscript
