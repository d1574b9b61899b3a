import NotePress.Text.Letter
import NotePress.Text.Lines

/-!
# Variables in paths

A path in a settings file may name variables and, by a tilde at its start, the
home directory:

* `$NAME` and `${NAME}` stand for the value of a variable;
* `${NAME:-text}` stands for the text when the variable is not set;
* `$$` stands for a dollar sign.

A path with a variable that is not set, and for which no text is given, stays
as it is written. Values are not looked at again: neither variables nor a tilde
in them count.
-/

namespace NotePress

/-- The variables that are set, with their values. -/
abbrev Variables := List (String × String)

namespace Expansion

/-- The stretches of a path. -/
inductive Part
  | text (text : List Char)
  | variable (name : List Char) (default? : Option (List Char))
  deriving DecidableEq, Repr, Inhabited

/-- The characters of a variable's name outside braces. -/
def isNameCharacter (character : Char) : Bool :=
  Text.isLetterOrNumber character || character == '_'

/-- What stands before and after the first `:-` of a text. -/
def splitDefault? : List Char → Option (List Char × List Char)
  | [] => none
  | ':' :: '-' :: rest => some ([], rest)
  | first :: rest =>
      (splitDefault? rest).map fun (before, after) => (first :: before, after)

/-- The variable that stands between braces. Without a name before it, `:-` is a
part of the name. -/
def inBraces (inside : List Char) : Part :=
  match splitDefault? inside with
  | some (first :: name, text) => .variable (first :: name) (some text)
  | _ => .variable inside none

/-- What a dollar sign starts, given the text after it, and the text behind
that. -/
def afterDollar (text : List Char) : Part × List Char :=
  match text with
  | '{' :: rest =>
      match rest.dropWhile (· != '}') with
      | [] => (.text ['$', '{'], rest)
      | _ :: after => (inBraces (rest.takeWhile (· != '}')), after)
  | '$' :: rest => (.text ['$'], rest)
  | _ =>
      let name := text.takeWhile isNameCharacter
      if name.isEmpty then
        (.text ['$'], text)
      else
        (.variable name none, text.dropWhile isNameCharacter)

theorem length_afterDollar_le (text : List Char) :
    (afterDollar text).2.length ≤ text.length := by
  unfold afterDollar
  split
  · next rest =>
      split
      · simp
      · next after found =>
          have shorter : (rest.dropWhile (· != '}')).length ≤ rest.length :=
            (List.dropWhile_suffix _).length_le
          rw [found] at shorter
          simp only [List.length_cons] at shorter ⊢
          omega
  · simp
  · simp only
    split
    · exact Nat.le_refl _
    · exact (List.dropWhile_suffix _).length_le

/-- The stretches that a path consists of. -/
def parts : List Char → List Part
  | [] => []
  | first :: rest =>
      if first = '$' then
        (afterDollar rest).1 :: parts (afterDollar rest).2
      else
        .text [first] :: parts rest
termination_by text => text.length
decreasing_by
  · have := length_afterDollar_le rest
    simp only [List.length_cons]
    omega
  · simp

/-- The text of a stretch; `none` for a variable that is not set. -/
def partText?
    (bindings : Variables) : Part → Option (List Char)
  | .text text => some text
  | .variable name default? =>
      match bindings.lookup (String.ofList name) with
      | some value => some value.toList
      | none => default?

/-- A path with its variables replaced; `none` when one is not set. -/
def expandVariables?
    (bindings : Variables)
    (path : List Char) : Option (List Char) :=
  ((parts path).mapM (partText? bindings)).map List.flatten

/-- The home directory. -/
def home (bindings : Variables) : String :=
  match bindings.lookup "HOME" with
  | some home => if home.isEmpty then "/root" else home
  | none => "/root"

/-- A path with a tilde at its start replaced by the home directory. A tilde with
a name behind it is kept. -/
def expandTilde
    (bindings : Variables)
    (path : List Char) : List Char :=
  match path with
  | ['~'] => (home bindings).toList
  | '~' :: '/' :: rest => (home bindings).toList ++ '/' :: rest
  | _ => path

/-- A path with its variables and its tilde replaced. A tilde counts only if it is
written in the path itself. -/
def expand
    (bindings : Variables)
    (path : String) : String :=
  match expandVariables? bindings path.toList with
  | none => path
  | some expanded =>
      String.ofList
        (if path.toList.head? = some '~' then
          expandTilde bindings expanded
        else
          expanded)

end Expansion

end NotePress
