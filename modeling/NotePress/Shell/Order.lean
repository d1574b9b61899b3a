import NotePress.Shell.Printed
import NotePress.Text.Lines

/-!
# Lines in order

`sort` puts lines into an order, `uniq` looks at runs of equal lines, and `comm`
compares files whose lines are in order.

An order compares lines key by key. A key is a part of a line with a way to compare
it; lines whose keys are all equal come in the order of their bytes.
-/

namespace NotePress
namespace Shell

/-- How a key is compared. -/
structure Collation where
  isNumber : Bool := false
  ignoresCase : Bool := false
  /-- Only letters, digits and blanks count. -/
  isDictionary : Bool := false
  skipsBlanks : Bool := false
  isReversed : Bool := false
  deriving DecidableEq, Repr, Inhabited

namespace Collation

/-- The way to compare that letters ask for. -/
def ofLetters (letters : Bytes) : Collation where
  isNumber := letters.contains 'n' || letters.contains 'g'
  ignoresCase := letters.contains 'f'
  isDictionary := letters.contains 'd'
  skipsBlanks := letters.contains 'b'
  isReversed := letters.contains 'r'

/-- Whether a byte stands between words. -/
def isBlank (byte : Char) : Bool :=
  byte == ' ' || byte == '\t'

/-- The order of bytes, one after the other. -/
def compareBytes (left right : Bytes) : Ordering :=
  if left == right then .eq
  else if Bytes.notAfter left right then .lt
  else .gt

/-- The number at the start of a text, as its sign, its whole digits and the digits
behind its point. -/
def number (text : Bytes) : Bool × Bytes × Bytes :=
  let text := text.dropWhile isBlank
  let (isNegative, digits) :=
    match text with
    | '-' :: digits => (true, digits)
    | digits => (false, digits)
  let whole := digits.takeWhile (·.isDigit)
  match digits.drop whole.length with
  | '.' :: fraction => (isNegative, whole, fraction.takeWhile (·.isDigit))
  | _ => (isNegative, whole, [])

/-- The order of the numbers at the starts of texts. -/
def compareNumbers (left right : Bytes) : Ordering :=
  let (leftNegative, leftWhole, leftFraction) := number left
  let (rightNegative, rightWhole, rightFraction) := number right
  let places := max leftFraction.length rightFraction.length
  let value := fun (isNegative : Bool) (whole fraction : Bytes) =>
    let digits :=
      '0' :: whole ++ fraction ++ List.replicate (places - fraction.length) '0'
    let size : Int := ((Bytes.toNat? digits).getD 0 : Nat)
    if isNegative then -size else size
  compare (value leftNegative leftWhole leftFraction)
    (value rightNegative rightWhole rightFraction)

/-- The bytes of a key that count. -/
def relevant (collation : Collation) (key : Bytes) : Bytes :=
  let key :=
    if collation.isDictionary then
      key.filter fun byte => isBlank byte || byte.isAlphanum
    else
      key
  if collation.ignoresCase then key.map (·.toUpper) else key

/-- The order of two keys. -/
def compareKeys (collation : Collation) (left right : Bytes) : Ordering :=
  let order :=
    if collation.isNumber then
      compareNumbers left right
    else
      compareBytes (collation.relevant left) (collation.relevant right)
  if collation.isReversed then order.swap else order

end Collation

/-- A place in a line: a number of fields behind its start, and a number of bytes
behind that. -/
structure KeyPlace where
  fields : Nat
  bytes : Nat
  skipsBlanks : Bool
  deriving DecidableEq, Repr, Inhabited

/-- The part of a line between two places, or from one on, with a way to compare
it. -/
structure SortKey where
  start : KeyPlace
  finish : Option KeyPlace
  collation : Collation
  deriving DecidableEq, Repr, Inhabited

/-- An order of lines. -/
structure LineOrder where
  separator : Option Char
  keys : List SortKey
  /-- Lines with equal keys stay as they are. -/
  isStable : Bool
  isReversed : Bool
  deriving DecidableEq, Repr, Inhabited

namespace LineOrder

/-- What of a line is behind some fields. Without a separator, a field has the
blanks before it. -/
def behindFields (separator : Option Char) : Nat → Bytes → Bytes
  | 0, line => line
  | fields + 1, line =>
      match separator with
      | some separator =>
          behindFields (some separator) fields
            ((line.dropWhile (· != separator)).drop 1)
      | none =>
          behindFields none fields
            ((line.dropWhile Collation.isBlank).dropWhile fun byte =>
              !Collation.isBlank byte)

/-- What of a line is behind a place where a key starts. -/
def behindStart (separator : Option Char) (place : KeyPlace) (line : Bytes) :
    Bytes :=
  let rest := behindFields separator place.fields line
  let rest := if place.skipsBlanks then rest.dropWhile Collation.isBlank else rest
  rest.drop place.bytes

/-- What of a line is behind a place where a key ends. Without a count of bytes,
that is the end of a whole field. -/
def behindFinish (separator : Option Char) (place : KeyPlace) (line : Bytes) :
    Bytes :=
  let rest := behindFields separator place.fields line
  if place.bytes = 0 then
    match separator with
    | some separator => rest.dropWhile (· != separator)
    | none => behindFields none 1 rest
  else
    let rest := if place.skipsBlanks then rest.dropWhile Collation.isBlank else rest
    rest.drop place.bytes

/-- A key of a line. -/
def keyOf (separator : Option Char) (key : SortKey) (line : Bytes) : Bytes :=
  let rest := behindStart separator key.start line
  match key.finish with
  | none => rest
  | some finish =>
      rest.take (rest.length - (behindFinish separator finish line).length)

/-- The order of two lines by their keys. -/
def compareKeys (order : LineOrder) (left right : Bytes) : Ordering :=
  order.keys.foldl
    (fun result key =>
      result.then (key.collation.compareKeys
        (keyOf order.separator key left) (keyOf order.separator key right)))
    .eq

/-- The order of two lines. -/
def compareLines (order : LineOrder) (left right : Bytes) : Ordering :=
  let byBytes :=
    if order.isStable then .eq
    else if order.isReversed then Collation.compareBytes right left
    else Collation.compareBytes left right
  (order.compareKeys left right).then byBytes

/-- Lines in order. -/
def sorted (order : LineOrder) (lines : List Bytes) : List Bytes :=
  lines.mergeSort fun left right => order.compareLines left right != .gt

/-- Lines without those that compare as equal to the line before. -/
def dropEqual (order : LineOrder) : List Bytes → List Bytes
  | first :: second :: others =>
      if order.compareKeys first second == .eq &&
          (!order.keys.isEmpty || first == second) then
        dropEqual order (first :: others)
      else
        first :: dropEqual order (second :: others)
  | lines => lines

/-- The first line that comes too early, with its number. -/
def disorder? (order : LineOrder) (isStrict : Bool) (number : Nat) :
    List Bytes → Option (Nat × Bytes)
  | first :: second :: others =>
      let result := order.compareLines first second
      if result == .gt || (isStrict && result == .eq) then
        some (number + 1, second)
      else
        disorder? order isStrict (number + 1) (second :: others)
  | _ => none

/-- A place that a key is spelled with, and the letters behind it. -/
def placeOf (text : Bytes) : Option (Nat × Option Nat × Bytes) :=
  let fields := text.takeWhile (·.isDigit)
  let rest := text.drop fields.length
  match Bytes.toNat? fields, rest with
  | none, _ => none
  | some fields, '.' :: rest =>
      let bytes := rest.takeWhile (·.isDigit)
      (Bytes.toNat? bytes).map fun count =>
        (fields, some count, rest.drop bytes.length)
  | some fields, rest => some (fields, none, rest)

/-- The key that a text such as `2,3n` spells. It is compared as usual if it has no
letters of its own. -/
def keyOf? (usual : Collation) (text : Bytes) : Except Bytes SortKey :=
  let failing := fun (message : String) (rest : Bytes) =>
    .error (message.toList ++ ": ".toList ++ Filter.inQuotes rest)
  let start := text.takeWhile (· != ',')
  let finish := text.drop (start.length + 1)
  match placeOf start, placeOf finish with
  | none, _ => failing "invalid number at field start: invalid count at start of" text
  | some (0, _, _), _ =>
      failing "-: invalid field specification" text
  | some (_, some 0, _), _ =>
      failing "character offset is zero: invalid field specification" text
  | some (fields, bytes, letters), finish? =>
      let (finish?, behind) : Option (Nat × Nat) × Bytes :=
        match finish? with
        | some (fields, bytes, letters) =>
            (some (fields - 1, bytes.getD 0), letters)
        | none => (none, [])
      let own := Collation.ofLetters (letters ++ behind)
      let collation := if (letters ++ behind).isEmpty then usual else own
      let skips := fun own : Bytes =>
        if (letters ++ behind).isEmpty then usual.skipsBlanks else own.contains 'b'
      .ok {
        start := ⟨fields - 1, bytes.getD 1 - 1, skips letters⟩
        finish := finish?.map fun (fields, bytes) => ⟨fields, bytes, skips behind⟩
        collation := collation }

/-- The order that options ask for. -/
def ofOptions (options : Options) : Except Bytes LineOrder := do
  let usual := Collation.ofLetters (options.given.map Prod.fst)
  let keys ← (options.values 'k').mapM (keyOf? usual)
  let separator ←
    match options.value? 't' with
    | none => pure none
    | some [byte] => pure (some byte)
    | some [] => throw "empty tab".toList
    | some ['\\', '0'] => pure (some '\x00')
    | some text => throw ("multi-character tab ".toList ++ Filter.inQuotes text)
  let whole : List SortKey :=
    if keys.isEmpty && { usual with isReversed := false } != {} then
      [⟨⟨0, 0, usual.skipsBlanks⟩, none, usual⟩]
    else
      keys
  return {
    separator := separator
    keys := whole
    isStable := options.has 's' || (options.has 'u' && !whole.isEmpty)
    isReversed := options.has 'r' }

end LineOrder

namespace Filter

/-- Print lines in order, or tell whether they are. Nothing is printed if a file
cannot be read. -/
def sort : Filter where
  form :=
    { plain := "nrufbdgsmcCiz"
      valued := "kto"
      long :=
        [("numeric-sort", 'n'), ("reverse", 'r'), ("unique", 'u'),
          ("ignore-case", 'f'), ("ignore-leading-blanks", 'b'),
          ("dictionary-order", 'd'), ("stable", 's'), ("check", 'c'),
          ("merge", 'm'), ("key", 'k'), ("field-separator", 't'),
          ("output", 'o')] }
  failing := 2
  target? options := options.value? 'o'
  print supply options :=
    match LineOrder.ofOptions options with
    | .error message => .failing "sort" message 2
    | .ok order =>
        let operands := inputs options
        let (found, complaints) := contents "sort" supply operands
        let lines := found.flatMap fun (_, content) => Bytes.lines content
        if !complaints.isEmpty then
          .keeping [] (complaints.takeWhile (· != '\n') ++ ['\n']) 2
        else if options.has 'c' || options.has 'C' then
          match order.disorder? (options.has 'u') 1 lines with
          | none => {}
          | some (number, line) =>
              if options.has 'C' then
                { status := 1 }
              else
                .failing "sort" ((operands.head?.getD []) ++
                  ':' :: Bytes.ofNat number ++ ": disorder: ".toList ++ line) 1
        else
          let sorted := order.sorted lines
          .only (Bytes.unlines
            (if options.has 'u' then order.dropEqual sorted else sorted))

/-- Runs of lines with equal keys, each as its lines. -/
def runsBy (key : Bytes → Bytes) : List Bytes → List (List Bytes)
  | [] => []
  | line :: others =>
      match runsBy key others with
      | (next :: run) :: runs =>
          if key line == key next then
            (line :: next :: run) :: runs
          else
            [line] :: (next :: run) :: runs
      | runs => [line] :: runs

/-- A number, filled up with blanks in front. -/
def column (width value : Nat) : Bytes :=
  let digits := Bytes.ofNat value
  List.replicate (width - digits.length) ' ' ++ digits

/-- The part of a line that `uniq` compares. -/
def uniqueKey (options : Options) (line : Bytes) : Bytes :=
  let number := fun letter =>
    ((options.value? letter).bind Bytes.toNat?)
  let rest := LineOrder.behindFields none ((number 'f').getD 0) line
  let rest := rest.drop ((number 's').getD 0)
  let rest :=
    match number 'w' with
    | some count => rest.take count
    | none => rest
  if options.has 'i' then rest.map (·.toLower) else rest

/-- Print every run of equal lines once. A second operand is where that goes. -/
def uniq : Filter where
  form :=
    { plain := "cduiDz"
      valued := "fsw"
      long :=
        [("count", 'c'), ("repeated", 'd'), ("unique", 'u'), ("ignore-case", 'i'),
          ("skip-fields", 'f'), ("skip-chars", 's'), ("check-chars", 'w')] }
  reads options := readsOperands (options.operands.take 1)
  target? options := if options.operands.length = 2 then options.operands[1]? else none
  print supply options :=
    match options.operands[2]? with
    | some extra => .usage "uniq" ("extra operand ".toList ++ inQuotes extra) 1
    | none =>
        overOne "uniq" supply (options.operands.head?.getD ['-']) fun content =>
          let runs := runsBy (uniqueKey options) (Bytes.lines content)
          let runs := runs.filter fun run =>
            (!options.has 'u' || run.length = 1) &&
              (!(options.has 'd' || options.has 'D') || 1 < run.length)
          Bytes.unlines (runs.flatMap fun run =>
            if options.has 'D' then run
            else if options.has 'c' then
              [column 7 run.length ++ ' ' :: run.head?.getD []]
            else run.take 1)

/-- The lines of two files in order, each with the files that it is in: only in the
first, only in the second, or in both. -/
def merged : Nat → List Bytes → List Bytes → List (Bytes × Nat)
  | 0, _, _ => []
  | fuel + 1, left, right =>
      match left, right with
      | [], right => right.map fun line => (line, 2)
      | left, [] => left.map fun line => (line, 1)
      | first :: left, second :: right =>
          match Collation.compareBytes first second with
          | .lt => (first, 1) :: merged fuel left (second :: right)
          | .gt => (second, 2) :: merged fuel (first :: left) right
          | .eq => (first, 3) :: merged fuel left right

/-- Print the lines of two files that are in order, in columns that tell which files
they are in. -/
def comm : Filter where
  form := { plain := "123" }
  print supply options :=
    match options.operands with
    | [] => .usage "comm" "missing operand".toList 1
    | [only] => .usage "comm" ("missing operand after ".toList ++ inQuotes only) 1
    | first :: second :: others =>
        match others, supply.content first, supply.content second with
        | third :: _, _, _ =>
            .usage "comm" ("extra operand ".toList ++ inQuotes third) 1
        | [], .error cause, _ => ⟨[(2, complaint "comm" first cause)], 1⟩
        | [], _, .error cause => ⟨[(2, complaint "comm" second cause)], 1⟩
        | [], .ok left, .ok right =>
            let left := Bytes.lines left
            let right := Bytes.lines right
            let shown := fun column : Nat =>
              !options.has (Char.ofNat ('0'.toNat + column))
            let indent := fun column : Nat =>
              ((List.range (column - 1)).filter fun before =>
                shown (before + 1)).map fun _ => '\t'
            .only (Bytes.unlines
              ((merged (left.length + right.length + 1) left right).filterMap
                fun (line, column) =>
                  if shown column then some (indent column ++ line) else none))

end Filter
end Shell
end NotePress
