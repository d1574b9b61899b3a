import NotePress.Shell.Expression
import NotePress.Shell.Printed
import NotePress.Text.Lines

/-!
# Searching lines

`grep` tells which lines of files have a match of one of some expressions.
-/

namespace NotePress
namespace Shell

/-- What is searched for, and what is told about it. -/
structure Search where
  options : Options := {}
  /-- The expressions as they are spelled. -/
  spellings : List Bytes := []
  operands : List Bytes := []
  deriving DecidableEq, Repr, Inhabited

namespace Search

/-- The search that options ask for. Without an option for it, the first operand is
the expression. -/
def ofOptions (options : Options) : Search :=
  if options.has 'e' then
    ⟨options, options.values 'e', options.operands⟩
  else
    ⟨options, options.operands.take 1, options.operands.drop 1⟩

/-- Whether an option with a letter is given. -/
def has (search : Search) (letter : Char) : Bool :=
  search.options.has letter

/-- The number that an option gives. -/
def number? (search : Search) (letter : Char) : Option Nat :=
  (search.options.value? letter).bind Bytes.toNat?

/-- The expressions; `none` when one is not understood. -/
def expressions? (search : Search) : Option (List Expression) :=
  (search.spellings.flatMap (Text.splitAt '\n')).mapM fun spelling =>
    if search.has 'F' then
      some (Expression.literally spelling)
    else
      Expression.ofText? (search.has 'E') spelling

/-- Whether a character is a part of words. -/
def isWordByte (byte : Char) : Bool :=
  byte.isAlphanum || byte == '_'

/-- Whether a match ends where a word may end. -/
def endsWord (place : Expression.Place) : Bool :=
  !(place.rest.head?.map isWordByte).getD false

/-- Whether an expression matches whole words from some position on. -/
def matchesWords
    (ignoreCase : Bool)
    (expression : Expression)
    (inWord : Bool)
    (position : Nat) : Bytes → Bool
  | [] => false
  | byte :: rest =>
      (!inWord &&
        (expression.reach ignoreCase ⟨position, byte :: rest, []⟩).any fun place =>
          position < place.position && endsWord place) ||
        matchesWords ignoreCase expression (isWordByte byte) (position + 1) rest

/-- Whether a line is told about. -/
def chooses
    (search : Search)
    (expressions : List Expression)
    (line : Bytes) : Bool :=
  let ignoreCase := search.has 'i' || search.has 'y'
  let isMatch := fun expression : Expression =>
    if search.has 'x' then
      (expression.reach ignoreCase ⟨0, line, []⟩).any (·.rest.isEmpty)
    else if search.has 'w' then
      matchesWords ignoreCase expression false 0 line
    else
      (expression.find? ignoreCase 0 line).isSome
  search.has 'v' != expressions.any isMatch

/-- The texts that are told of a line: the matches alone, or all of it. -/
def shown
    (search : Search)
    (expressions : List Expression)
    (line : Bytes) : List Bytes :=
  if search.has 'o' then
    if search.has 'v' then
      []
    else
      let expression :=
        expressions.foldr Expression.either (Expression.oneOf false [])
      ((expression.cut (search.has 'i') line).1.map Expression.Found.taken).filter
        fun taken => !taken.isEmpty
  else
    [line]

/-- How many lines are told about before and behind a chosen one. -/
def context (search : Search) : Nat × Nat :=
  let both := (search.number? 'C').getD 0
  ((search.number? 'B').getD both, (search.number? 'A').getD both)

/-- Lines with their numbers, and with marks between those that do not follow one
another. -/
def withMarks (search : Search) : List (Nat × Bytes) → List Bytes
  | (number, line) :: (next, other) :: others =>
      if number + 1 = next || search.context = (0, 0) then
        line :: withMarks search ((next, other) :: others)
      else
        line :: ['-', '-'] :: withMarks search ((next, other) :: others)
  | lines => lines.map Prod.snd

/-- What is told about the content of a file, and whether a line was found. -/
def inContent
    (search : Search)
    (expressions : List Expression)
    (withNames : Bool)
    (name content : Bytes) : Bytes × Bool :=
  let lines := (Bytes.lines content).zipIdx.map fun (line, index) => (index + 1, line)
  let chosen := lines.filter fun (_, line) => search.chooses expressions line
  let chosen :=
    match search.number? 'm' with
    | some most => chosen.take most
    | none => chosen
  let heading := fun (number : Nat) (sign : Char) =>
    (if withNames then name ++ [sign] else []) ++
      (if search.has 'n' then Bytes.ofNat number ++ [sign] else [])
  let (before, behind) := search.context
  let told :=
    if search.has 'q' then
      []
    else if search.has 'l' then
      if chosen.isEmpty then [] else [name]
    else if search.has 'L' then
      if chosen.isEmpty then [name] else []
    else if search.has 'c' then
      [(if withNames then name ++ [':'] else []) ++ Bytes.ofNat chosen.length]
    else if search.has 'o' then
      chosen.flatMap fun (number, line) =>
        (search.shown expressions line).map (heading number ':' ++ ·)
    else
      search.withMarks (lines.filterMap fun (number, line) =>
        if chosen.any (·.1 == number) then
          some (number, heading number ':' ++ line)
        else if (search.context != (0, 0)) && chosen.any fun (place, _) =>
            number ≤ place + behind && place ≤ number + before then
          some (number, heading number '-' ++ line)
        else
          none)
  (Bytes.unlines told, !chosen.isEmpty)

end Search

/-- The operands that are searched: the files below directories if asked for. Also
whether there are such directories. -/
def Search.inOperands (search : Search) (supply : Supply) : List Bytes × Bool :=
  if search.has 'r' || search.has 'R' then
    let operands :=
      if search.operands.isEmpty then [([], supply.below? ['.'])]
      else search.operands.map fun operand => (operand, supply.below? operand)
    (operands.flatMap fun (operand, below?) =>
        match below? with
        | some files =>
            if operand.isEmpty then files.map (·.drop 2) else files
        | none => [operand],
      operands.any fun (_, below?) => below?.isSome)
  else
    (if search.operands.isEmpty then [['-']] else search.operands, false)

namespace Filter

/-- Print the lines with a match. -/
def grep : Filter where
  form :=
    { plain := "EFGivcnlLoqswxhHyaUrR"
      valued := "emABC"
      long :=
        [("extended-regexp", 'E'), ("fixed-strings", 'F'), ("basic-regexp", 'G'),
          ("ignore-case", 'i'), ("invert-match", 'v'), ("count", 'c'),
          ("line-number", 'n'), ("files-with-matches", 'l'),
          ("files-without-match", 'L'), ("only-matching", 'o'), ("quiet", 'q'),
          ("silent", 'q'), ("no-messages", 's'), ("word-regexp", 'w'),
          ("line-regexp", 'x'), ("no-filename", 'h'), ("with-filename", 'H'),
          ("regexp", 'e'), ("max-count", 'm'), ("after-context", 'A'),
          ("before-context", 'B'), ("context", 'C'), ("text", 'a'),
          ("recursive", 'r')] }
  failing := 2
  reads options := readsOperands (Search.ofOptions options).operands
  print supply options :=
    let search := Search.ofOptions options
    match search.expressions? with
    | none => .failing "grep" "Invalid regular expression".toList 2
    | some [] =>
        ⟨[(2, ("Usage: grep [OPTION]... PATTERNS [FILE]...\n" ++
          "Try 'grep --help' for more information.\n").toList)], 2⟩
    | some expressions =>
        let (operands, hasDirectory) := search.inOperands supply
        let isChosen := fun operand : Bytes =>
          match supply.content operand with
          | .ok content => (search.inContent expressions false [] content).2
          | .error _ => false
        let needed := operands.takeWhile fun operand => !isChosen operand
        let operands :=
          if search.has 'q' then operands.take (needed.length + 1) else operands
        let (found, complaints) := contents "grep" supply operands
        let withNames :=
          (1 < search.operands.length || hasDirectory || search.has 'H') &&
            !search.has 'h'
        let told := found.map fun (operand, content) =>
          let name :=
            if isInput operand then (inputName "grep").toList else operand
          search.inContent expressions withNames name content
        let isFound :=
          if search.has 'L' then told.any fun (_, isFound) => !isFound
          else told.any Prod.snd
        .keeping (told.flatMap Prod.fst)
          (if search.has 's' then [] else complaints)
          (if search.has 'q' && isFound then 0
          else if !complaints.isEmpty then 2
          else if isFound then 0
          else 1)

end Filter
end Shell
end NotePress
