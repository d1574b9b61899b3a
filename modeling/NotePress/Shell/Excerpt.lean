import NotePress.Shell.Printed
import NotePress.Text.Lines

/-!
# Excerpts

Filters that print some of what they read: the first or the last lines of files
with `head` and `tail`, and some fields or bytes of every line with `cut`.
-/

namespace NotePress
namespace Shell
namespace Filter

/-- Lines with the line feeds after them; the last one may have none. -/
def linesWithEnds : Bytes → List Bytes
  | [] => []
  | '\n' :: rest => ['\n'] :: linesWithEnds rest
  | byte :: rest =>
      match linesWithEnds rest with
      | [] => [[byte]]
      | line :: others => (byte :: line) :: others

/-! ## Ends of files -/

/-- Arguments with `-3` in front spelled as `-n 3`, and `-3c` as `-c 3`. -/
def spellCount : List Bytes → List Bytes
  | ('-' :: digit :: rest) :: others =>
      if digit.isDigit then
        let digits := digit :: rest.takeWhile (·.isDigit)
        let letters := rest.dropWhile (·.isDigit)
        (if letters.contains 'c' then ['-', 'c'] else ['-', 'n']) ::
          digits :: others
      else
        ('-' :: digit :: rest) :: others
  | arguments => arguments

/-- Arguments with `+3` in front spelled as `-n +3`, too. -/
def spellPlace : List Bytes → List Bytes
  | ('+' :: digits) :: others =>
      if (Bytes.toNat? digits).isSome && others.length ≤ 1 then
        ['-', 'n'] :: ('+' :: digits) :: others
      else
        ('+' :: digits) :: others
  | arguments => spellCount arguments

/-- The options of `head` and `tail`. -/
def endForm : OptionForm where
  plain := "qvzfF"
  valued := "nc"
  long :=
    [("lines", 'n'), ("bytes", 'c'), ("quiet", 'q'), ("silent", 'q'),
      ("verbose", 'v'), ("zero-terminated", 'z')]

/-- How much of a content is asked for: a count of lines or bytes, perhaps with a
sign. -/
structure Share where
  inBytes : Bool
  sign : Option Char
  count : Nat
  deriving DecidableEq, Repr, Inhabited

/-- The share that options ask for, or the text that is no count. -/
def Share.ofOptions (options : Options) : Except (Bool × Bytes) Share :=
  let (letter, value) :=
    ((options.given.filter fun (letter, _) =>
      letter == 'n' || letter == 'c').getLast?).getD ('n', ['1', '0'])
  let inBytes := letter == 'c'
  let (sign, digits) : Option Char × Bytes :=
    match value with
    | '-' :: digits => (some '-', digits)
    | '+' :: digits => (some '+', digits)
    | digits => (none, digits)
  match amount? digits with
  | some count => .ok ⟨inBytes, sign, count⟩
  | none => .error (inBytes, value)

/-- The lines or the bytes of a content, of which a share counts some. -/
def Share.pieces (share : Share) (content : Bytes) : List Bytes :=
  if share.inBytes then content.map fun byte => [byte] else linesWithEnds content

/-- The first part of a content: some pieces, or all but some. -/
def firstPart (share : Share) (content : Bytes) : Bytes :=
  let pieces := share.pieces content
  let count :=
    if share.sign = some '-' then pieces.length - share.count else share.count
  (pieces.take count).flatten

/-- The last part of a content: some pieces, or all from one on. -/
def lastPart (share : Share) (content : Bytes) : Bytes :=
  let pieces := share.pieces content
  let count :=
    if share.sign = some '+' then share.count - 1 else pieces.length - share.count
  (pieces.drop count).flatten

/-- Print a part of every content, under the name of the file if there are
several. -/
def parts
    (program : String)
    (part : Share → Bytes → Bytes)
    (supply : Supply)
    (options : Options) : Printed :=
  match Share.ofOptions options with
  | .error (inBytes, value) =>
      .failing program ("invalid number of ".toList ++
        (if inBytes then "bytes" else "lines").toList ++ ": ".toList ++
        inQuotes value) 1
  | .ok share =>
      let withNames :=
        options.has 'v' || (1 < options.operands.length && !options.has 'q')
      let heading := fun (isFirst : Bool) (operand : Bytes) =>
        let name :=
          if isInput operand then (inputName program).toList else operand
        if withNames then
          (if isFirst then [] else ['\n']) ++ "==> ".toList ++ name ++
            " <==\n".toList
        else
          []
      let printed := (inputs options).foldl
        (fun (isFirst, output, errors) operand =>
          match supply.content operand with
          | .ok content =>
              (false, output ++ heading isFirst operand ++ part share content,
                errors)
          | .error cause =>
              let errors := errors ++ complaint program operand cause
              if cause == "Is a directory" then
                (false, output ++ heading isFirst operand, errors)
              else
                (isFirst, output, errors))
        (true, ([] : Bytes), ([] : Bytes))
      .keeping printed.2.1 printed.2.2 (if printed.2.2.isEmpty then 0 else 1)

/-- Print the first lines or bytes. -/
def head : Filter where
  spell := spellCount
  form := endForm
  print := parts "head" firstPart

/-- Print the last lines or bytes, or all from a place on. -/
def tail : Filter where
  spell := spellPlace
  form := endForm
  print := parts "tail" lastPart

/-! ## Parts of lines -/

/-- Some numbers in a row, perhaps without a last one. -/
structure Range where
  low : Nat
  high : Option Nat
  deriving DecidableEq, Repr, Inhabited

/-- Whether a number is in a range. -/
def Range.has (range : Range) (number : Nat) : Bool :=
  range.low ≤ number && range.high.all (number ≤ ·)

/-- What is asked of the positions in a line. -/
inductive CutUnit
  | field
  | byte
  deriving DecidableEq, Repr, Inhabited

/-- What is said about a position that is no number. -/
def CutUnit.invalid (unit : CutUnit) (text : Bytes) : Bytes :=
  (match unit with
    | field => "invalid field value ".toList
    | byte => "invalid byte/character position ".toList) ++ inQuotes text

/-- What is said about the position zero. -/
def CutUnit.zero (unit : CutUnit) : Bytes :=
  match unit with
  | field => "fields are numbered from 1".toList
  | byte => "byte/character positions are numbered from 1".toList

/-- The range that a part of a list such as `3-5` writes. -/
def rangeOf (unit : CutUnit) (part : Bytes) : Except Bytes Range :=
  let low := part.takeWhile (·.isDigit)
  match part.drop low.length with
  | [] =>
      match Bytes.toNat? low with
      | some 0 => .error unit.zero
      | some number => .ok ⟨number, some number⟩
      | none => .error unit.zero
  | '-' :: high =>
      match Bytes.toNat? low, Bytes.toNat? high with
      | some 0, _ => .error unit.zero
      | low, some high =>
          if high < low.getD 1 then .error "invalid decreasing range".toList
          else .ok ⟨low.getD 1, some high⟩
      | low, none =>
          if !high.isEmpty then .error (unit.invalid high)
          else if low.isNone then
            .error "invalid range with no endpoint: -".toList
          else .ok ⟨low.getD 1, none⟩
  | rest => .error (unit.invalid rest)

/-- What `cut` prints of a line; `none` if that is no line. -/
structure Cutting where
  unit : CutUnit
  ranges : List Range
  separator : Char
  joint : Option Bytes
  isComplement : Bool
  needsSeparator : Bool
  deriving DecidableEq, Repr, Inhabited

/-- The cutting that options ask for. -/
def Cutting.ofOptions (options : Options) : Except Bytes Cutting := do
  let lists := options.given.filter fun (letter, _) => "fbc".toList.contains letter
  let (letter, list) ←
    match lists with
    | [] => throw "you must specify a list of bytes, characters, or fields".toList
    | [list] => pure list
    | _ => throw "only one list may be specified".toList
  let unit := if letter = 'f' then CutUnit.field else CutUnit.byte
  let separator ←
    match options.value? 'd' with
    | none => pure '\t'
    | some [] => pure '\x00'
    | some [byte] => pure byte
    | some _ => throw "the delimiter must be a single character".toList
  let ranges ← (Text.splitAt ',' list).mapM (rangeOf unit)
  if unit = .byte && options.has 'd' then
    throw ("an input delimiter may be specified only when operating " ++
      "on fields").toList
  if unit = .byte && options.has 's' then
    throw ("suppressing non-delimited lines makes sense\n" ++
      "\tonly when operating on fields").toList
  return {
    unit := unit
    ranges := ranges
    separator := separator
    joint := options.value? '⁀'
    isComplement := options.has '∁'
    needsSeparator := options.has 's' }

/-- Whether the piece at a position is printed. -/
def Cutting.chooses (cutting : Cutting) (number : Nat) : Bool :=
  cutting.ranges.any (·.has number) != cutting.isComplement

/-- What is printed of a line. -/
def Cutting.ofLine (cutting : Cutting) (line : Bytes) : Option Bytes :=
  match cutting.unit with
  | .field =>
      if line.contains cutting.separator then
        let chosen := (Text.splitAt cutting.separator line).zipIdx.filter
          fun (_, index) => cutting.chooses (index + 1)
        some ((cutting.joint.getD [cutting.separator]).intercalate
          (chosen.map Prod.fst))
      else if cutting.needsSeparator then
        none
      else
        some line
  | .byte =>
      let chosen := line.zipIdx.filter fun (_, index) => cutting.chooses (index + 1)
      let startsRange := fun number : Nat =>
        !cutting.chooses (number - 1) ||
          (!cutting.isComplement && !cutting.ranges.any fun range =>
            range.has (number - 1) && range.has number)
      some (chosen.zipIdx.flatMap fun ((byte, index), place) =>
        match cutting.joint with
        | some joint =>
            if place != 0 && startsRange (index + 1) then joint ++ [byte]
            else [byte]
        | none => [byte])

/-- Print some fields or bytes of every line. Letters that are no bytes stand for
options that have long names alone. -/
def cut : Filter where
  form :=
    { plain := "snz∁"
      valued := "dfbc⁀"
      long :=
        [("fields", 'f'), ("bytes", 'b'), ("characters", 'c'), ("delimiter", 'd'),
          ("only-delimited", 's'), ("complement", '∁'), ("output-delimiter", '⁀')] }
  print supply options :=
    match Cutting.ofOptions options with
    | .error message => .usage "cut" message 1
    | .ok cutting =>
        overAll "cut" supply options fun content =>
          Bytes.unlines ((Bytes.lines content).filterMap cutting.ofLine)

end Filter
end Shell
end NotePress
