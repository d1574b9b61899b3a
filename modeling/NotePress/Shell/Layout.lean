import NotePress.Shell.Excerpt

/-!
# Layout of lines

Filters that lay lines out anew: `cat` puts files after one another, `nl` numbers
lines, `paste` puts lines beside one another, `fold` breaks them, `rev` and `tac`
turn them and their order around.
-/

namespace NotePress
namespace Shell
namespace Filter

/-! ## Files after one another -/

/-- A byte spelled with bytes that can be seen. -/
def visible (byte : Char) : Bytes :=
  let low := fun byte : Char =>
    if byte < ' ' then ['^', Char.ofNat (byte.toNat + 64)]
    else if byte = '\x7F' then ['^', '?']
    else [byte]
  if byte.toNat < 128 then low byte
  else 'M' :: '-' :: low (Char.ofNat (byte.toNat - 128))

/-- A line as it is shown, with its line feed if it has one. -/
def shownLine (options : Options) (line : Bytes) : Bytes :=
  let has := fun letter => options.has 'A' || options.has letter
  let spelled := has 'v' || options.has 'e' || options.has 't'
  let ends := has 'E' || options.has 'e'
  let tabs := has 'T' || options.has 't'
  line.flatMap fun byte =>
    if byte = '\n' then (if ends then ['$', '\n'] else ['\n'])
    else if byte = '\t' then (if tabs then ['^', 'I'] else ['\t'])
    else if spelled then visible byte
    else [byte]

/-- Lines with numbers, from the one behind `number` on, without repeated blank
lines if asked for. Also the last number, and whether the last line was blank. -/
def numbered
    (options : Options) :
    Nat → Bool → List Bytes → Bytes × Nat × Bool
  | number, afterBlank, [] => ([], number, afterBlank)
  | number, afterBlank, line :: others =>
      let isBlank := line == ['\n']
      if isBlank && afterBlank && options.has 's' then
        numbered options number true others
      else
        let counts := if options.has 'b' then !isBlank else options.has 'n'
        let number := if counts then number + 1 else number
        let digits := Bytes.ofNat number
        let (output, last) := numbered options number isBlank others
        ((if counts then
            List.replicate (6 - digits.length) ' ' ++ digits ++ ['\t']
          else []) ++ shownLine options line ++ output, last)

/-- Print files, one after the other, each as soon as it is read. -/
def cat : Filter where
  form :=
    { plain := "AbeEnstTuv"
      long :=
        [("show-all", 'A'), ("number-nonblank", 'b'), ("show-ends", 'E'),
          ("number", 'n'), ("squeeze-blank", 's'), ("show-tabs", 'T'),
          ("show-nonprinting", 'v')] }
  print supply options :=
    let printed := (inputs options).foldl
      (fun (texts, number, afterBlank) operand =>
        match supply.content operand with
        | .error cause =>
            (texts ++ [(2, complaint "cat" operand cause)], number, afterBlank)
        | .ok content =>
            if options.given.isEmpty then
              (texts ++ [(1, content)], number, afterBlank)
            else
              let (output, number, afterBlank) :=
                numbered options number afterBlank (linesWithEnds content)
              (texts ++ [(1, output)], number, afterBlank))
      (([] : List (Nat × Bytes)), 0, false)
    ⟨printed.1, if printed.1.all (·.1 == 1) then 0 else 1⟩

/-! ## Numbers before lines -/

/-- A number of a line, written as `nl` is asked to. -/
def lineNumber (options : Options) (width number : Nat) : Bytes :=
  let digits := Bytes.ofNat number
  let fill := List.replicate (width - digits.length)
  match options.value? 'n' with
  | some ['l', 'n'] => digits ++ fill ' '
  | some ['r', 'z'] => fill '0' ++ digits
  | _ => fill ' ' ++ digits

/-- Lines with numbers before those that have some text, or before all. -/
def withNumbers
    (options : Options)
    (width step : Nat)
    (joint : Bytes) : Nat → List Bytes → List Bytes
  | _, [] => []
  | number, line :: others =>
      let counts :=
        match options.value? 'b' with
        | some ['a'] => true
        | some ['n'] => false
        | _ => !line.isEmpty
      if counts then
        (lineNumber options width number ++ joint ++ line) ::
          withNumbers options width step joint (number + step) others
      else
        (List.replicate (width + joint.length) ' ' ++ line) ::
          withNumbers options width step joint number others

/-- Print lines with numbers before them. -/
def nl : Filter where
  form :=
    { plain := "p"
      valued := "bwsvinhfdl"
      long :=
        [("body-numbering", 'b'), ("number-width", 'w'), ("number-separator", 's'),
          ("starting-line-number", 'v'), ("line-increment", 'i'),
          ("number-format", 'n')] }
  print supply options :=
    let number := fun (letter : Char) (usual : Nat) =>
      ((options.value? letter).bind Bytes.toNat?).getD usual
    overAll "nl" supply options fun content =>
      Bytes.unlines (withNumbers options (number 'w' 6) (number 'i' 1)
        ((options.value? 's').getD ['\t']) (number 'v' 1) (Bytes.lines content))

/-! ## Lines beside one another -/

/-- The separators that a text spells; an empty one stands for nothing. -/
def joints : Bytes → List Bytes
  | '\\' :: 'n' :: rest => ['\n'] :: joints rest
  | '\\' :: 't' :: rest => ['\t'] :: joints rest
  | '\\' :: '0' :: rest => [] :: joints rest
  | '\\' :: byte :: rest => [byte] :: joints rest
  | byte :: rest => [byte] :: joints rest
  | [] => []

/-- Parts put together with separators, which are used in turn. -/
def joined (separators : List Bytes) (parts : List Bytes) : Bytes :=
  parts.zipIdx.flatMap fun (part, index) =>
    if index = 0 then part
    else (separators[(index - 1) % separators.length]?).getD [] ++ part

/-- The lines of several files side by side. Files that share a list of lines take
one of its lines each. -/
def sideBySide
    (separators : List Bytes) :
    Nat → List Nat → List (List Bytes) → List Bytes
  | 0, _, _ => []
  | fuel + 1, files, contents =>
      let (row, contents, isOver) := files.foldl
        (fun (row, contents, isOver) (file : Nat) =>
          match contents.getD file [] with
          | line :: rest => (row ++ [line], contents.set file rest, false)
          | [] => (row ++ [[]], contents, isOver))
        (([] : List Bytes), contents, true)
      if isOver then []
      else joined separators row :: sideBySide separators fuel files contents

/-- Print the lines of files beside one another, or those of each file in one
line. -/
def paste : Filter where
  form :=
    { plain := "sz"
      valued := "d"
      long := [("serial", 's'), ("delimiters", 'd')] }
  print supply options :=
    let separators :=
      match joints ((options.value? 'd').getD ['\t']) with
      | [] => [[]]
      | separators => separators
    let operands := inputs options
    let (found, complaints) := contents "paste" supply operands
    if options.has 's' then
      .keeping
        (Bytes.unlines (found.map fun (_, content) =>
          joined separators (Bytes.lines content)))
        complaints (if complaints.isEmpty then 0 else 1)
    else if complaints.isEmpty then
      let files := operands.zipIdx.map fun (operand, index) =>
        if isInput operand then operands.findIdx isInput else index
      let lines := found.map fun (_, content) => Bytes.lines content
      .only (Bytes.unlines (sideBySide separators
        (lines.foldl (fun count lines => count + lines.length) 1) files lines))
    else
      .keeping [] (complaints.takeWhile (· != '\n') ++ ['\n']) 1

/-! ## Broken lines -/

/-- The column behind a byte at a column. -/
def columnAfter (countsBytes : Bool) (place : Nat) (byte : Char) : Nat :=
  if countsBytes then place + 1
  else if byte = '\t' then (place / 8 + 1) * 8
  else if byte = '\x08' then place - 1
  else if byte = '\r' then 0
  else place + 1

/-- The column behind bytes at the start of a line. -/
def columnBehind (countsBytes : Bool) (bytes : Bytes) : Nat :=
  bytes.foldl (columnAfter countsBytes) 0

/-- The bytes up to the last blank, and those behind it. -/
def splitAtBlank (bytes : Bytes) : Bytes × Bytes :=
  let word := (bytes.reverse.takeWhile fun byte => byte != ' ' && byte != '\t').reverse
  (bytes.take (bytes.length - word.length), word)

/-- A line broken into parts that are not wider than a width, given the part that
was begun. -/
def broken
    (countsBytes atBlanks : Bool)
    (width : Nat)
    (begun : Bytes) : Bytes → List Bytes
  | [] => [begun]
  | byte :: rest =>
      let isWide :=
        width < columnAfter countsBytes (columnBehind countsBytes begun) byte
      if isWide && !begun.isEmpty then
        let (before, word) := splitAtBlank begun
        if atBlanks && !before.isEmpty then
          before :: broken countsBytes atBlanks width (word ++ [byte]) rest
        else
          begun :: broken countsBytes atBlanks width [byte] rest
      else
        broken countsBytes atBlanks width (begun ++ [byte]) rest

/-- Arguments with `-60` in front spelled as `-w 60`. -/
def spellWidth : List Bytes → List Bytes
  | ('-' :: digit :: rest) :: others =>
      if digit.isDigit then ['-', 'w'] :: (digit :: rest) :: others
      else ('-' :: digit :: rest) :: others
  | arguments => arguments

/-- Print lines broken to a width. The last line keeps being without a line feed if
it was so. -/
def fold : Filter where
  spell := spellWidth
  form :=
    { plain := "bs"
      valued := "w"
      long := [("width", 'w'), ("bytes", 'b'), ("spaces", 's')] }
  print supply options :=
    let width := ((options.value? 'w').bind Bytes.toNat?).getD 80
    overEach "fold" supply options fun contents =>
      contents.flatMap fun content =>
        let output := Bytes.unlines ((Bytes.lines content).flatMap
          (broken (options.has 'b') (options.has 's') width []))
        if content.getLast? = some '\n' then output else output.dropLast

/-! ## Turned around -/

/-- Print every line backwards. -/
def rev : Filter where
  print supply options :=
    overAll "rev" supply options fun content =>
      let output := Bytes.unlines ((Bytes.lines content).map List.reverse)
      if content.getLast? = some '\n' then output else output.dropLast

/-- The pieces of bytes that end with a separator, and what is behind the last
one. -/
def piecesAt (separator : Bytes) (begun : Bytes) : Nat → Bytes → List Bytes
  | 0, rest => [begun ++ rest]
  | _, [] => if begun.isEmpty then [] else [begun]
  | fuel + 1, byte :: rest =>
      if separator.isPrefixOf (byte :: rest) && !separator.isEmpty then
        (begun ++ separator) ::
          piecesAt separator [] fuel ((byte :: rest).drop separator.length)
      else
        piecesAt separator (begun ++ [byte]) fuel rest

/-- Print lines, or pieces that end with another separator, last ones first. -/
def tac : Filter where
  form :=
    { plain := "br"
      valued := "s"
      long := [("separator", 's')] }
  print supply options :=
    overEach "tac" supply options fun contents =>
      contents.flatMap fun content =>
        (piecesAt ((options.value? 's').getD ['\n']) [] content.length
          content).reverse.flatten

end Filter
end Shell
end NotePress
