import NotePress.Shell.Printed

/-!
# Bytes as text

Filters that spell bytes with letters and digits: `od` in rows of numbers or
characters, and `base64` with four characters for three bytes.
-/

namespace NotePress
namespace Shell
namespace Filter

/-! ## Rows of bytes -/

/-- How the bytes of a row are spelled: as characters, as names of characters, or as
numbers of some bytes each. -/
inductive Spelling
  | characters
  | names
  | digits (base size : Nat)
  | decimal (isSigned : Bool) (size : Nat)
  deriving DecidableEq, Repr, Inhabited

namespace Spelling

/-- How many bytes are spelled together. -/
def size : Spelling → Nat
  | characters | names => 1
  | digits _ size => size
  | decimal _ size => size

/-- How many characters a spelling takes. -/
def width : Spelling → Nat
  | characters | names => 3
  | digits base size => (Nat.toDigits base (Nat.pow 256 size - 1)).length
  | decimal isSigned size =>
      (Nat.toDigits 10 (if isSigned then Nat.pow 256 size / 2
        else Nat.pow 256 size - 1)).length + (if isSigned then 1 else 0)

/-- The number that bytes write, the lowest first. -/
def value (bytes : Bytes) : Nat :=
  bytes.foldr (fun byte value => byte.toNat + 256 * value) 0

/-- The names of the first characters, and of the blank. -/
def controls : List String :=
  ["nul", "soh", "stx", "etx", "eot", "enq", "ack", "bel", "bs", "ht", "nl", "vt",
    "ff", "cr", "so", "si", "dle", "dc1", "dc2", "dc3", "dc4", "nak", "syn", "etb",
    "can", "em", "sub", "esc", "fs", "gs", "rs", "us", "sp"]

/-- Digits with zeros in front. -/
def filled (width base value : Nat) : Bytes :=
  let digits := Nat.toDigits base value
  List.replicate (width - digits.length) '0' ++ digits

/-- A byte as a character. -/
def character (byte : Char) : Bytes :=
  match byte with
  | '\x00' => ['\\', '0']
  | '\x07' => ['\\', 'a']
  | '\x08' => ['\\', 'b']
  | '\t' => ['\\', 't']
  | '\n' => ['\\', 'n']
  | '\x0B' => ['\\', 'v']
  | '\x0C' => ['\\', 'f']
  | '\r' => ['\\', 'r']
  | byte => if ' ' ≤ byte && byte ≤ '~' then [byte] else filled 3 8 byte.toNat

/-- How bytes that belong together are spelled. -/
def spell (spelling : Spelling) (bytes : Bytes) : Bytes :=
  match spelling with
  | characters => bytes.flatMap character
  | names =>
      bytes.flatMap fun byte =>
        let code := byte.toNat % 128
        match controls[code]? with
        | some name => name.toList
        | none => if code = 127 then "del".toList else [Char.ofNat code]
  | digits base size => filled (digits base size).width base (value bytes)
  | decimal isSigned size =>
      let number : Int := (value bytes : Nat)
      let whole : Int := (Nat.pow 256 size : Nat)
      Bytes.ofInt
        (if isSigned && whole ≤ 2 * number then number - whole else number)

/-- The size that letters or digits behind a type tell. -/
def sizeOf? (text : Bytes) : Option (Nat × Bytes) :=
  match text with
  | 'C' :: rest => some (1, rest)
  | 'S' :: rest => some (2, rest)
  | 'I' :: rest => some (4, rest)
  | 'L' :: rest => some (8, rest)
  | text =>
      let digits := text.takeWhile (·.isDigit)
      match Bytes.toNat? digits with
      | none => some (4, text)
      | some size =>
          if [1, 2, 4, 8].contains size then some (size, text.drop digits.length)
          else none

/-- The spellings that a text such as `x1c` asks for. -/
def ofText? (fuel : Nat) (text : Bytes) : Option (List Spelling) :=
  match fuel with
  | 0 => some []
  | fuel + 1 =>
      let numbers := fun (spelling : Nat → Spelling) (rest : Bytes) =>
        match sizeOf? rest with
        | none => none
        | some (size, rest) => (ofText? fuel rest).map (spelling size :: ·)
      match text with
      | [] => some []
      | 'c' :: rest => (ofText? fuel rest).map (characters :: ·)
      | 'a' :: rest => (ofText? fuel rest).map (names :: ·)
      | 'o' :: rest => numbers (digits 8) rest
      | 'x' :: rest => numbers (digits 16) rest
      | 'u' :: rest => numbers (decimal false) rest
      | 'd' :: rest => numbers (decimal true) rest
      | _ => none

/-- The spellings that an option asks for. -/
def ofOption? : Char × Bytes → Option (List Spelling)
  | ('t', text) => ofText? (text.length + 1) text
  | ('a', _) => some [names]
  | ('b', _) => some [digits 8 1]
  | ('c', _) => some [characters]
  | ('d', _) => some [decimal false 2]
  | ('i', _) => some [decimal true 4]
  | ('o', _) => some [digits 8 2]
  | ('s', _) => some [decimal true 2]
  | ('x', _) => some [digits 16 2]
  | _ => some []

end Spelling

/-- Bytes in groups of one size. -/
def groupsBy (size : Nat) : Nat → Bytes → List Bytes
  | 0, _ => []
  | fuel + 1, bytes =>
      if bytes.isEmpty then []
      else bytes.take size :: groupsBy size fuel (bytes.drop size)

/-- A row in one spelling, as wide as the widest spelling makes whole rows. -/
def spelledRow
    (rowWidth rowSize : Nat)
    (spelling : Spelling)
    (row : Bytes) : Bytes :=
  let fields := rowSize / spelling.size
  let padding := rowWidth - fields * (spelling.width + 1)
  let groups := (groupsBy spelling.size row.length row).map fun group =>
    group ++ List.replicate (spelling.size - group.length) '\x00'
  groups.zipIdx.flatMap fun (group, index) =>
    let before := padding * (fields - index) / fields
    let behind := padding * (fields - index - 1) / fields
    let text := spelling.spell group
    List.replicate (before - behind + spelling.width + 1 - text.length) ' ' ++ text

/-- The place of a row, as `od` is asked to write it. -/
def rowPlace (options : Options) (place : Nat) : Bytes :=
  match options.value? 'A' with
  | some ['n'] => []
  | some ['x'] => Spelling.filled 6 16 place
  | some ['d'] => Spelling.filled 7 10 place
  | _ => Spelling.filled 7 8 place

/-- Rows with their places. Of equal rows one after the other, only the first is
written, and a star for the others. -/
def rowsFrom
    (options : Options)
    (rowSize : Nat)
    (spellings : List Spelling) :
    Nat → Option Bytes → Bool → List Bytes → List Bytes
  | place, _, _, [] =>
      let last := rowPlace options place
      if last.isEmpty then [] else [last]
  | place, before, isStarred, row :: others =>
      if before = some row && !options.has 'v' && row.length = rowSize then
        (if isStarred then [] else [['*']]) ++
          rowsFrom options rowSize spellings (place + row.length) before true others
      else
        let widths := spellings.map fun spelling =>
          rowSize / spelling.size * (spelling.width + 1)
        let rowWidth := widths.foldl max 0
        let head := rowPlace options place
        (spellings.zipIdx.map fun (spelling, index) =>
          (if index = 0 then head else List.replicate head.length ' ') ++
            spelledRow rowWidth rowSize spelling row) ++
          rowsFrom options rowSize spellings (place + row.length) (some row) false
            others

/-- Print bytes in rows. -/
def od : Filter where
  form :=
    { plain := "abcdiosxv"
      valued := "AtjNw"
      long :=
        [("address-radix", 'A'), ("format", 't'), ("skip-bytes", 'j'),
          ("read-bytes", 'N'), ("output-duplicates", 'v')] }
  print supply options :=
    let number? := fun letter => (options.value? letter).bind amount?
    match options.given.mapM Spelling.ofOption? with
    | none =>
        .failing "od"
          ("invalid type string ".toList ++
            inQuotes ((options.value? 't').getD [])) 1
    | some asked =>
        let spellings :=
          if asked.flatten.isEmpty then [Spelling.digits 8 2] else asked.flatten
        let rowSize := max ((number? 'w').getD 16) 1
        let skipped := (number? 'j').getD 0
        overEach "od" supply options fun contents =>
          let content := contents.flatten.drop skipped
          let content :=
            match number? 'N' with
            | some count => content.take count
            | none => content
          let rows := rowsFrom options rowSize spellings skipped none false
            (groupsBy rowSize content.length content)
          if contents.isEmpty then [] else Bytes.unlines rows

/-! ## Four characters for three bytes -/

/-- The characters that stand for the numbers below 64, in order. -/
def alphabet : Bytes :=
  "ABCDEFGHIJKLMNOPQRSTUVWXYZabcdefghijklmnopqrstuvwxyz0123456789+/".toList

/-- Bytes spelled with four characters for three of them. -/
def encode64 : Bytes → Bytes
  | [] => []
  | [first] =>
      let bits := first.toNat * 16
      [bits / 64, bits % 64].map (alphabet.getD · '=') ++ ['=', '=']
  | [first, second] =>
      let bits := (first.toNat * 256 + second.toNat) * 4
      [bits / 4096, bits / 64 % 64, bits % 64].map (alphabet.getD · '=') ++ ['=']
  | first :: second :: third :: rest =>
      let bits := (first.toNat * 256 + second.toNat) * 256 + third.toNat
      [bits / 262144, bits / 4096 % 64, bits / 64 % 64, bits % 64].map
        (alphabet.getD · '=') ++ encode64 rest

/-- The bytes that numbers below 64 write together. -/
def bytesOf64 : List Nat → Bytes
  | [first, second] => [Char.ofNat (first * 4 + second / 16)]
  | [first, second, third] =>
      [Char.ofNat (first * 4 + second / 16),
        Char.ofNat (second % 16 * 16 + third / 4)]
  | [first, second, third, fourth] =>
      [Char.ofNat (first * 4 + second / 16),
        Char.ofNat (second % 16 * 16 + third / 4),
        Char.ofNat (third % 4 * 64 + fourth)]
  | _ => []

/-- The bytes that characters spell, and whether all characters were understood. -/
def decode64 (fuel : Nat) (text : Bytes) : Bytes × Bool :=
  match fuel with
  | 0 => ([], true)
  | fuel + 1 =>
      let group := text.take 4
      let known := group.takeWhile alphabet.contains
      let bytes := bytesOf64 (known.map (alphabet.idxOf ·))
      let isWhole :=
        group.isEmpty || known.length = 4 ||
          (group.length = 4 && 2 ≤ known.length &&
            (group.drop known.length).all (· == '='))
      if group.isEmpty then
        ([], true)
      else if isWhole then
        let (others, understood) := decode64 fuel (text.drop 4)
        (bytes ++ others, understood)
      else
        (bytes, false)

/-- Spell bytes with letters and digits, or read what was spelled so. -/
def base64 : Filter where
  form :=
    { plain := "di"
      valued := "w"
      long := [("decode", 'd'), ("ignore-garbage", 'i'), ("wrap", 'w')] }
  print supply options :=
    match options.operands with
    | _ :: extra :: _ =>
        .usage "base64" ("extra operand ".toList ++ inQuotes extra) 1
    | operands =>
        let operand := operands.head?.getD ['-']
        if options.has 'd' then
          match supply.content operand with
          | .error cause => ⟨[(2, complaint "base64" operand cause)], 1⟩
          | .ok content =>
              let text := content.filter fun byte =>
                byte != '\n' &&
                  (!options.has 'i' || alphabet.contains byte || byte == '=')
              let (bytes, understood) := decode64 (text.length + 1) text
              if understood then
                .only bytes
              else
                ⟨[(1, bytes), (2, "base64: invalid input\n".toList)], 1⟩
        else
          overOne "base64" supply operand fun content =>
            let text := encode64 content
            match ((options.value? 'w').bind Bytes.toNat?).getD 76 with
            | 0 => text
            | width => Bytes.unlines (groupsBy width text.length text)

end Filter
end Shell
end NotePress
