import NotePress.Shell.Format
import NotePress.Shell.Printed

/-!
# Translating bytes

`tr` replaces bytes of a set by those at the same places of another, deletes them,
or squeezes runs of equal ones.
-/

namespace NotePress
namespace Shell

/-- A part of the spelling of a set of bytes. -/
inductive SetPart
  | bytes (bytes : Bytes)
  /-- One byte, as often as the set needs it. -/
  | filling (byte : Char)
  deriving DecidableEq, Repr, Inhabited

namespace SetPart

/-- The bytes of a class; `none` if there is no class of that name. -/
def classOf? (name : Bytes) : Option Bytes :=
  let all := (List.range 256).map Char.ofNat
  match String.ofList name with
  | "digit" => some (all.filter (·.isDigit))
  | "xdigit" =>
      some (all.filter fun byte =>
        byte.isDigit || ('A' ≤ byte && byte ≤ 'F') || ('a' ≤ byte && byte ≤ 'f'))
  | "alpha" => some (all.filter (·.isAlpha))
  | "alnum" => some (all.filter (·.isAlphanum))
  | "upper" => some (all.filter (·.isUpper))
  | "lower" => some (all.filter (·.isLower))
  | "space" => some ['\t', '\n', '\x0B', '\x0C', '\r', ' ']
  | "blank" => some ['\t', ' ']
  | "punct" =>
      some (all.filter fun byte => '!' ≤ byte && byte ≤ '~' && !byte.isAlphanum)
  | "graph" => some (all.filter fun byte => '!' ≤ byte && byte ≤ '~')
  | "print" => some (all.filter fun byte => ' ' ≤ byte && byte ≤ '~')
  | "cntrl" => some (all.filter fun byte => byte < ' ' || byte = '\x7F')
  | _ => none

/-- How often a text such as `3` or, in base eight, `03` says to repeat a byte. -/
def repetitions? (text : Bytes) : Option Nat :=
  match text with
  | '0' :: digits =>
      if digits.all fun byte => '0' ≤ byte && byte ≤ '7' then
        some (digits.foldl
          (fun value digit => 8 * value + (digit.toNat - '0'.toNat)) 0)
      else
        none
  | digits => Bytes.toNat? digits

/-- A byte at the start of a text, and the text behind it. -/
def byteOf : Bytes → Char × Bytes
  | [] => ('\\', [])
  | ['\\'] => ('\\', [])
  | '\\' :: rest =>
      match Format.escape false rest with
      | ([byte], rest) => (byte, rest)
      | _ => (rest.head?.getD '\\', rest.tail)
  | byte :: rest => (byte, rest)

/-- The parts of a set, or what is wrong with its spelling. -/
def ofText (fuel : Nat) (text : Bytes) : Except Bytes (List SetPart) :=
  match fuel with
  | 0 => .ok []
  | fuel + 1 => do
      match text with
      | [] => return []
      | '[' :: ':' :: rest =>
          let name := rest.takeWhile (· != ':')
          match rest.drop name.length, classOf? name with
          | ':' :: ']' :: rest, some members =>
              return .bytes members :: (← ofText fuel rest)
          | ':' :: ']' :: _, none =>
              throw ("invalid character class '".toList ++ name ++ ['\''])
          | _, _ => return .bytes ['['] :: (← ofText fuel (':' :: rest))
      | text =>
          let (low, rest) := byteOf text
          let (next, behind) := byteOf rest.tail
          match low, rest, behind with
          | '[', _, _ =>
              let (byte, rest) := byteOf rest
              let count := (rest.drop 1).takeWhile (·.isDigit)
              match rest, (rest.drop 1).drop count.length with
              | '*' :: _, ']' :: others =>
                  if count.isEmpty || repetitions? count = some 0 then
                    return .filling byte :: (← ofText fuel others)
                  else
                    return .bytes (List.replicate ((repetitions? count).getD 0) byte)
                      :: (← ofText fuel others)
              | _, _ => return .bytes ['['] :: (← ofText fuel text.tail)
          | _, '-' :: _ :: _, _ =>
              if next < low then
                throw ("range-endpoints of '".toList ++ [low, '-', next] ++
                  "' are in reverse collating sequence order".toList)
              else
                return .bytes ((List.range (next.toNat + 1 - low.toNat)).map
                  fun step => Char.ofNat (low.toNat + step)) ::
                  (← ofText fuel behind)
          | _, _, _ => return .bytes [low] :: (← ofText fuel rest)

/-- The bytes of a set that has to have some length. -/
def all (length : Nat) (parts : List SetPart) : Bytes :=
  let given := parts.foldl
    (fun count part =>
      match part with
      | bytes members => count + members.length
      | filling _ => count) 0
  parts.flatMap fun
    | bytes members => members
    | filling byte => List.replicate (length - given) byte

end SetPart

namespace Filter

/-- Bytes without repetitions of neighbours that are in a set. -/
def squeeze (set : Char → Bool) : Bytes → Bytes
  | first :: second :: rest =>
      if first == second && set first then
        squeeze set (second :: rest)
      else
        first :: squeeze set (second :: rest)
  | bytes => bytes

/-- What is wrong with the number of sets that are given. -/
def translateFailure? (options : Options) : Option Bytes :=
  let deletes := options.has 'd'
  let squeezes := options.has 's'
  match options.operands with
  | [] => some "missing operand".toList
  | [first] =>
      if deletes && squeezes then
        some ("missing operand after ".toList ++ inQuotes first ++
          ("\nTwo strings must be given when both deleting and squeezing " ++
            "repeats.").toList)
      else if deletes || squeezes then
        none
      else
        some ("missing operand after ".toList ++ inQuotes first ++
          "\nTwo strings must be given when translating.".toList)
  | [_, second] =>
      if deletes && !squeezes then
        some ("extra operand ".toList ++ inQuotes second ++
          ("\nOnly one string may be given when deleting without squeezing " ++
            "repeats.").toList)
      else
        none
  | _ :: _ :: third :: _ => some ("extra operand ".toList ++ inQuotes third)

/-- Bytes translated, deleted and squeezed as options ask for. -/
def translated
    (options : Options)
    (first second : List SetPart)
    (input : Bytes) : Bytes :=
  let members := SetPart.all 0 first
  let complemented := options.has 'c' || options.has 'C'
  let isFirst := fun byte => members.contains byte != complemented
  let sources :=
    if complemented then
      ((List.range 256).map Char.ofNat).filter isFirst
    else
      members
  let targets := SetPart.all sources.length second
  let sources := if options.has 't' then sources.take targets.length else sources
  let pairs := (sources.zipIdx.map fun (source, index) =>
    (source, targets[index]?.getD (targets.getLast?.getD source))).reverse
  let changed :=
    if options.has 'd' then
      input.filter fun byte => !isFirst byte
    else if second.isEmpty then
      input
    else
      input.map fun byte => (pairs.lookup byte).getD byte
  if options.has 's' then
    squeeze (if second.isEmpty then isFirst else targets.contains) changed
  else
    changed

/-- Replace, delete or squeeze bytes. -/
def tr : Filter where
  form :=
    { plain := "cCdst"
      long :=
        [("complement", 'c'), ("delete", 'd'), ("squeeze-repeats", 's'),
          ("truncate-set1", 't')] }
  reads options := (translateFailure? options).isNone
  print supply options :=
    match translateFailure? options with
    | some message => .usage "tr" message 1
    | none =>
        let set := fun index : Nat =>
          let text := (options.operands[index]?).getD []
          SetPart.ofText (text.length + 1) text
        match set 0, set 1, supply.input with
        | .error message, _, _ => .failing "tr" message 1
        | _, .error message, _ => .failing "tr" message 1
        | _, _, .error cause => .failing "tr" ("read error: ".toList ++ cause.toList) 1
        | .ok first, .ok second, .ok input =>
            if !options.has 'd' && !options.operands.tail.isEmpty &&
                second.isEmpty && !options.has 't' then
              .failing "tr" ("when not truncating set1, " ++
                "string2 must be non-empty").toList 1
            else
              .only (translated options first second input)

end Filter
end Shell
end NotePress
