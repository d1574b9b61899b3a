import NotePress.Shell.Expression
import NotePress.Shell.Printed

/-!
# Editing lines

`sed` takes the lines of files one after the other, lets edits change them, and
prints them.
-/

namespace NotePress
namespace Shell

/-- A condition on the line that an edit works on. -/
inductive Address
  | line (number : Nat)
  | last
  | matching (ignoreCase : Bool) (expression : Expression)
  deriving DecidableEq, Repr, Inhabited

/-- What is put in the place of a match: texts, and groups of the match. The group
zero is all of it. -/
inductive ReplacementPart
  | text (byte : Char)
  | group (number : Nat)
  deriving DecidableEq, Repr, Inhabited

/-- What an edit does. -/
inductive EditAction
  | print
  | delete
  | quit
  | tellNumber
  | append (text : Bytes)
  | insert (text : Bytes)
  | change (text : Bytes)
  /-- Replace the match with a number and, with `everywhere`, all after it. -/
  | substitute
      (ignoreCase : Bool)
      (expression : Expression)
      (replacement : List ReplacementPart)
      (number : Nat)
      (everywhere printsLine : Bool)
  | transliterate (pairs : List (Char × Char))
  deriving DecidableEq, Repr, Inhabited

/-- An edit of the lines that its addresses choose: all lines, the lines of one
address, or those from one address to another. -/
structure Edit where
  first : Option Address := none
  second : Option Address := none
  negated : Bool := false
  action : EditAction
  deriving DecidableEq, Repr, Inhabited

namespace Edit

/-! ## Spelling -/

/-- A script without blanks at its start. -/
def skipBlanks (script : Bytes) : Bytes :=
  script.dropWhile fun byte => byte == ' ' || byte == '\t'

/-- What stands before and behind the first delimiter that has no backslash in
front. A backslash before a delimiter is dropped. -/
def splitDelimiter? (delimiter : Char) : Bytes → Option (Bytes × Bytes)
  | [] => none
  | '\\' :: byte :: rest =>
      (splitDelimiter? delimiter rest).map fun (before, behind) =>
        (if byte == delimiter then (byte :: before, behind)
        else ('\\' :: byte :: before, behind))
  | byte :: rest =>
      if byte == delimiter then
        some ([], rest)
      else
        (splitDelimiter? delimiter rest).map fun (before, behind) =>
          (byte :: before, behind)

/-- The address at the start of a script, if there is one, and what follows. -/
def address? (extended : Bool) (script : Bytes) : Option (Option Address × Bytes) :=
  match script with
  | '$' :: rest => some (some .last, rest)
  | '/' :: rest => do
      let (spelling, rest) ← splitDelimiter? '/' rest
      let expression ← Expression.ofText? extended spelling
      match rest with
      | 'I' :: rest => some (some (.matching true expression), rest)
      | rest => some (some (.matching false expression), rest)
  | script =>
      let digits := script.takeWhile (·.isDigit)
      some ((Bytes.toNat? digits).map .line, script.drop digits.length)

/-- The parts of a replacement. -/
def replacementParts : Bytes → List ReplacementPart
  | [] => []
  | '&' :: rest => .group 0 :: replacementParts rest
  | '\\' :: byte :: rest =>
      (if byte.isDigit then .group (byte.toNat - '0'.toNat)
      else if byte == 'n' then .text '\n'
      else if byte == 't' then .text '\t'
      else .text byte) :: replacementParts rest
  | byte :: rest => .text byte :: replacementParts rest

/-- The text that an edit puts beside a line, and what follows it. -/
def textOf (script : Bytes) : Bytes × Bytes :=
  let script := skipBlanks script
  let script :=
    match script with
    | '\\' :: '\n' :: rest => rest
    | '\\' :: rest => rest
    | rest => rest
  (script.takeWhile (· != '\n'), script.dropWhile (· != '\n'))

/-- The action at the start of a script, and what follows it. -/
def action? (extended : Bool) (script : Bytes) : Option (EditAction × Bytes) :=
  match script with
  | 'p' :: rest => some (.print, rest)
  | 'd' :: rest => some (.delete, rest)
  | 'q' :: rest => some (.quit, rest)
  | '=' :: rest => some (.tellNumber, rest)
  | 'a' :: rest => some (.append (textOf rest).1, (textOf rest).2)
  | 'i' :: rest => some (.insert (textOf rest).1, (textOf rest).2)
  | 'c' :: rest => some (.change (textOf rest).1, (textOf rest).2)
  | 's' :: delimiter :: rest => do
      let (spelling, rest) ← splitDelimiter? delimiter rest
      let (replacement, rest) ← splitDelimiter? delimiter rest
      let expression ← Expression.ofText? extended spelling
      let flags := rest.takeWhile fun byte =>
        byte.isDigit || ['g', 'p', 'i', 'I'].contains byte
      some (.substitute (flags.contains 'i' || flags.contains 'I') expression
        (replacementParts replacement)
        ((Bytes.toNat? (flags.filter (·.isDigit))).getD 1)
        (flags.contains 'g') (flags.contains 'p'), rest.drop flags.length)
  | 'y' :: delimiter :: rest => do
      let (old, rest) ← splitDelimiter? delimiter rest
      let (new, rest) ← splitDelimiter? delimiter rest
      if old.length = new.length then
        some (.transliterate (old.zip new), rest)
      else
        none
  | _ => none

/-- The edits that a script spells. -/
def ofScript? (fuel : Nat) (extended : Bool) (script : Bytes) : Option (List Edit) :=
  match fuel with
  | 0 => none
  | fuel + 1 => do
      let script := script.dropWhile fun byte =>
        byte == ' ' || byte == '\t' || byte == '\n' || byte == ';'
      if script.isEmpty then
        return []
      let (first, rest) ← address? extended script
      let (second, rest) ←
        match first, rest with
        | some _, ',' :: rest => address? extended (skipBlanks rest)
        | _, rest => some (none, rest)
      let rest := skipBlanks rest
      let negated := rest.head? == some '!'
      let (action, rest) ←
        action? extended (if negated then skipBlanks rest.tail else rest)
      let edit : Edit := ⟨first, second, negated, action⟩
      match skipBlanks rest with
      | [] => return [edit]
      | byte :: rest =>
          if byte == ';' || byte == '\n' then
            return edit :: (← ofScript? fuel extended rest)
          else
            none

/-! ## Running -/

/-- A line with its number. -/
structure Line where
  number : Nat
  isLast : Bool
  text : Bytes
  deriving DecidableEq, Repr, Inhabited

/-- Whether a line has an address. -/
def isAt (line : Line) : Address → Bool
  | .line number => line.number == number
  | .last => line.isLast
  | .matching ignoreCase expression =>
      (expression.find? ignoreCase 0 line.text).isSome

/-- Whether an edit's addresses choose a line, given whether the line before left
a range open; also whether this line does. -/
def chooses (edit : Edit) (isOpen : Bool) (line : Line) : Bool × Bool :=
  match edit.first, edit.second with
  | none, _ => (true, false)
  | some first, none => (isAt line first, false)
  | some first, some second =>
      let closes :=
        match second with
        | .line number => number ≤ line.number
        | second => isAt line second
      if isOpen then
        (true, !closes)
      else if isAt line first then
        match second with
        | .line number => (true, line.number < number)
        | _ => (true, !line.isLast)
      else
        (false, false)

/-- The text of a replacement for a match. -/
def replacementText
    (parts : List ReplacementPart)
    (found : Expression.Found) : Bytes :=
  parts.flatMap fun
    | .text byte => [byte]
    | .group 0 => found.taken
    | .group number => (found.behind.groups.lookup number).getD []

/-- A text with matches replaced; `none` when there is none to replace. -/
def substituted?
    (ignoreCase : Bool)
    (expression : Expression)
    (replacement : List ReplacementPart)
    (number : Nat)
    (everywhere : Bool)
    (text : Bytes) : Option Bytes :=
  let (founds, rest) := expression.cut ignoreCase text
  if founds.length < number then
    none
  else
    some (founds.zipIdx.flatMap (fun (found, index) =>
      let counts := index + 1 == number || (everywhere && number ≤ index + 1)
      found.before ++
        (if counts then replacementText replacement found else found.taken)) ++
      rest)

/-- What has become of a line. -/
structure Progress where
  text : Bytes
  /-- What was printed, each with whether it is the line itself. -/
  printed : List (Bytes × Bool) := []
  appended : List Bytes := []
  isDeleted : Bool := false
  isLast : Bool := false
  deriving DecidableEq, Repr, Inhabited

/-- What becomes of a line by an action. -/
def act (line : Line) (progress : Progress) : EditAction → Progress
  | .print =>
      { progress with printed := progress.printed ++ [(progress.text, true)] }
  | .delete => { progress with isDeleted := true }
  | .quit => { progress with isLast := true }
  | .tellNumber =>
      { progress with
        printed := progress.printed ++ [(Bytes.ofNat line.number, false)] }
  | .append text => { progress with appended := progress.appended ++ [text] }
  | .insert text =>
      { progress with printed := progress.printed ++ [(text, false)] }
  | .change text =>
      { progress with
        printed := progress.printed ++ [(text, false)]
        isDeleted := true }
  | .substitute ignoreCase expression replacement number everywhere printsLine =>
      match substituted? ignoreCase expression replacement number everywhere
          progress.text with
      | none => progress
      | some text =>
          { progress with
            text := text
            printed :=
              if printsLine then progress.printed ++ [(text, true)]
              else progress.printed }
  | .transliterate pairs =>
      { progress with
        text := progress.text.map fun byte => (pairs.lookup byte).getD byte }

/-- What becomes of a line by edits, each with whether its range is open; also
whether the ranges are open after the line. -/
def actAll (line : Line) (progress : Progress) :
    List (Edit × Bool) → Progress × List (Edit × Bool)
  | [] => (progress, [])
  | (edit, isOpen) :: others =>
      if progress.isDeleted || progress.isLast then
        (progress, (edit, isOpen) :: others)
      else
        let (isChosen, staysOpen) :=
          edit.chooses isOpen { line with text := progress.text }
        let progress :=
          if isChosen != edit.negated then act line progress edit.action
          else progress
        let (progress, others) := actAll line progress others
        (progress, (edit, staysOpen) :: others)

/-- What is printed for lines with numbers from `number` on. The last line keeps
being without a line feed if it was so. -/
def runAll (quiet isOpen : Bool) :
    Nat → List (Edit × Bool) → List Bytes → Bytes
  | _, _, [] => []
  | number, edits, text :: others =>
      let (progress, edits) :=
        actAll ⟨number, others.isEmpty, text⟩ { text := text } edits
      let printed :=
        progress.printed ++
          (if quiet || progress.isDeleted then [] else [(progress.text, true)]) ++
          progress.appended.map fun text => (text, false)
      let output := Bytes.unlines (printed.map Prod.fst)
      let endsOpen :=
        isOpen && others.isEmpty && (printed.getLast?.map Prod.snd).getD false
      (if endsOpen then output.dropLast else output) ++
        (if progress.isLast then [] else runAll quiet isOpen (number + 1) edits others)

end Edit

namespace Filter

/-- The script and the operands of `sed`. Without an option for it, the first
operand is the script. -/
def editScript (options : Options) : Bytes × List Bytes :=
  if options.has 'e' then
    (['\n'].intercalate (options.values 'e'), options.operands)
  else
    (options.operands.head?.getD [], options.operands.tail)

/-- Print the lines that edits have changed. -/
def sed : Filter where
  form :=
    { plain := "nErsuz"
      valued := "e"
      long :=
        [("quiet", 'n'), ("silent", 'n'), ("regexp-extended", 'E'),
          ("expression", 'e')] }
  reads options := readsOperands (editScript options).2
  print supply options :=
    let (script, operands) := editScript options
    let extended := options.has 'E' || options.has 'r'
    match Edit.ofScript? (script.length + 1) extended script with
    | none => .failing "sed" "-e expression #1: unknown command".toList 1
    | some edits =>
        let print := fun content : Bytes =>
          Edit.runAll (options.has 'n') (content.getLast? != some '\n') 1
            (edits.map fun edit => (edit, false)) (Bytes.lines content)
        let (found, complaints) := contents "sed" supply
          (if operands.isEmpty then [['-']] else operands)
        .keeping
          (if options.has 's' then found.flatMap fun (_, content) => print content
          else print (found.flatMap Prod.snd))
          complaints (if complaints.isEmpty then 0 else 2)

end Filter
end Shell
end NotePress
