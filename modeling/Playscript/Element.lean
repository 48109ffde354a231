import Playscript.Text.Quoted

/-!
# Elements

What a script is made of: lines that a speaker says, directives to the stage, and comments. An
element has two one-line forms: `describe`, for the audience of a run, and `debugForm`, for logs.
-/

namespace Playscript

inductive Directive
  | jump (path : Text) (choices : Option (Text × Text))
  | loadBackground (path : Text)
  deriving DecidableEq, Repr

inductive Element
  | dialogue (speaker body : Text)
  | directive (d : Directive)
  | comment
  deriving DecidableEq, Repr

def Directive.describe : Directive → Text
  | jump path none => "@jump(".toList ++ path ++ [')']
  | jump path (some (a, b)) =>
    "@jump(".toList ++ a ++ " | ".toList ++ b ++ " -> ".toList ++ path ++ [')']
  | loadBackground path => "@loadbg(".toList ++ path ++ [')']

def Element.describe : Element → Text
  | dialogue speaker body => '[' :: speaker ++ ']' :: ' ' :: body
  | directive d => d.describe
  | comment => "# comment".toList

def Directive.debugForm : Directive → Text
  | jump path choices =>
    let shown :=
      match choices with
      | none => "None".toList
      | some (a, b) => '(' :: Text.quoted a ++ ", ".toList ++ Text.quoted b ++ [')']
    "Jump(path=".toList ++ Text.quoted path ++ ", choices=".toList ++ shown ++ [')']
  | loadBackground path => "LoadBG(path=".toList ++ Text.quoted path ++ [')']

def Element.debugForm : Element → Text
  | dialogue speaker body =>
    "Dialogue(name=".toList ++ Text.quoted speaker ++ ", body=".toList ++ Text.quoted body ++ [')']
  | directive d => d.debugForm
  | comment => "Comment()".toList

end Playscript
