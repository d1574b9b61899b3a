import NotePress.Shell.Pattern
import NotePress.Shell.Start

/-!
# Finding files

`find` walks through directories and does what criteria say with every file on its
way. A criterion holds of a file or not; one that does something, such as printing
the path or running a program, holds if that worked.
-/

namespace NotePress
namespace Shell

/-- What can be asked of a file, or be done with it. -/
inductive Criterion
  | always
  | named (ignoresCase : Bool) (pattern : Bytes)
  | placed (ignoresCase : Bool) (pattern : Bytes)
  /-- The file is of one of the kinds that letters name. -/
  | ofKind (letters : Bytes)
  | isEmpty
  | isExecutable
  /-- The size in some unit, rounded up, compares with a number in some way. -/
  | sized (order : Ordering) (count unit : Nat)
  | show (ending : Char)
  | delete
  /-- Nothing below the file is looked at. -/
  | prune
  | run (words : List Bytes)
  /-- A program is run in the end, for all files together. -/
  | gather (words : List Bytes)
  | negated (criterion : Criterion)
  | both (first second : Criterion)
  | either (first second : Criterion)
  deriving Repr, Inhabited

namespace Find

open Act

/-- A walk through directories. -/
structure Walk where
  starts : List Bytes := []
  criterion : Criterion := .always
  minDepth : Nat := 0
  maxDepth : Option Nat := none
  /-- What is in a directory is visited before it. -/
  isDeepFirst : Bool := false
  followsLinks : Bool := false
  deriving Repr, Inhabited

/-- Why no walk is made. -/
inductive Failure
  | unknownTest (word : Bytes)
  | noArgument (word : Bytes)
  | badArgument (word argument : Bytes)
  | badKind (argument : Bytes)
  | lateStart (word : Bytes)
  | notClosed
  | unexpectedEnd
  deriving DecidableEq, Repr, Inhabited

/-- What is said if no walk is made. -/
def Failure.message : Failure → Bytes
  | unknownTest word => "unknown predicate \u0060".toList ++ word ++ ['\'']
  | noArgument word => "missing argument to \u0060".toList ++ word ++ ['\'']
  | badArgument word argument =>
      "invalid argument \u0060".toList ++ argument ++ "' to \u0060".toList ++ word ++
        ['\'']
  | badKind argument => "Unknown argument to -type: ".toList ++ argument
  | lateStart word =>
      "paths must precede expression: \u0060".toList ++ word ++ ['\'']
  | notClosed =>
      ("invalid expression; I was expecting to find a ')' somewhere but " ++
        "did not see one.").toList
  | unexpectedEnd =>
      ("invalid expression; you have used a binary operator or a '!' with " ++
        "nothing after it.").toList

/-! ## Reading criteria -/

/-- The words of a program to run, whether it runs for all files together, and the
words behind. -/
def programWords (word : Bytes) :
    List Bytes → Except Failure (List Bytes × Bool × List Bytes)
  | [] => .error (.noArgument word)
  | [';'] :: others => .ok ([], false, others)
  | ['\x7b', '\x7d'] :: ['+'] :: others => .ok ([], true, others)
  | argument :: others => do
      let (words, together, others) ← programWords word others
      return (argument :: words, together, others)

/-- The criterion of a size such as `+3k`. -/
def sizeCriterion? (text : Bytes) : Option Criterion :=
  let (order, text) :=
    match text with
    | '+' :: text => (Ordering.gt, text)
    | '-' :: text => (Ordering.lt, text)
    | text => (Ordering.eq, text)
  let digits := text.takeWhile (·.isDigit)
  let unit? :=
    match String.ofList (text.drop digits.length) with
    | "" | "b" => some 512
    | "c" => some 1
    | "w" => some 2
    | "k" => some 1024
    | "M" => some 1048576
    | _ => none
  match Bytes.toNat? digits, unit? with
  | some count, some unit => some (.sized order count unit)
  | _, _ => none

/-- A criterion and the words behind it, and the walk with the options that stood
among the words. -/
abbrev Answer := Except Failure (Criterion × Walk × List Bytes)

mutual

/-- Criteria of which one has to hold. -/
def anyOf (fuel : Nat) (walk : Walk) (words : List Bytes) : Answer :=
  match fuel with
  | 0 => .ok (.always, walk, [])
  | fuel + 1 => do
      let (first, walk, rest) ← allOf fuel walk words
      match rest with
      | word :: others =>
          if word == "-o".toList || word == "-or".toList then
            let (second, walk, rest) ← anyOf fuel walk others
            return (.either first second, walk, rest)
          else
            return (first, walk, rest)
      | [] => return (first, walk, [])

/-- Criteria that all have to hold. -/
def allOf (fuel : Nat) (walk : Walk) (words : List Bytes) : Answer :=
  match fuel with
  | 0 => .ok (.always, walk, [])
  | fuel + 1 => do
      let (first, walk, rest) ← single fuel walk words
      match rest with
      | [] => return (first, walk, [])
      | word :: others =>
          if word == [')'] || word == "-o".toList || word == "-or".toList then
            return (first, walk, rest)
          else
            let isAnd := word == "-a".toList || word == "-and".toList
            let (second, walk, rest) ←
              allOf fuel walk (if isAnd then others else rest)
            return (.both first second, walk, rest)

/-- One criterion, or the opposite of one. -/
def single (fuel : Nat) (walk : Walk) (words : List Bytes) : Answer :=
  match fuel, words with
  | 0, _ => .ok (.always, walk, [])
  | _, [] => .error .unexpectedEnd
  | fuel + 1, word :: others =>
      let simple := fun criterion : Criterion => .ok (criterion, walk, others)
      let valued := fun criterion : Bytes → Except Failure (Criterion × Walk) =>
        match others with
        | [] => .error (.noArgument word)
        | value :: others => do
            let (criterion, walk) ← criterion value
            return (criterion, walk, others)
      let depth := fun (change : Nat → Walk) (value : Bytes) =>
        match Bytes.toNat? value with
        | some count => .ok (.always, change count)
        | none => .error (.badArgument word value)
      match String.ofList word with
      | "(" => do
          let (criterion, walk, rest) ← anyOf fuel walk others
          match rest with
          | [')'] :: others => return (criterion, walk, others)
          | _ => throw .notClosed
      | "!" | "-not" => do
          let (criterion, walk, rest) ← single fuel walk others
          return (.negated criterion, walk, rest)
      | "-name" => valued fun value => .ok (.named false value, walk)
      | "-iname" => valued fun value => .ok (.named true value, walk)
      | "-path" | "-wholename" => valued fun value => .ok (.placed false value, walk)
      | "-ipath" => valued fun value => .ok (.placed true value, walk)
      | "-type" =>
          valued fun value =>
            if value.all ",bcdpfls".toList.contains then .ok (.ofKind value, walk)
            else .error (.badKind value)
      | "-size" =>
          valued fun value =>
            match sizeCriterion? value with
            | some criterion => .ok (criterion, walk)
            | none => .error (.badArgument word value)
      | "-newer" | "-mtime" | "-mmin" | "-perm" | "-user" | "-group" =>
          valued fun _ => .ok (.always, walk)
      | "-maxdepth" =>
          valued (depth fun count => { walk with maxDepth := some count })
      | "-mindepth" => valued (depth fun count => { walk with minDepth := count })
      | "-depth" => .ok (.always, { walk with isDeepFirst := true }, others)
      | "-empty" => simple .isEmpty
      | "-executable" => simple .isExecutable
      | "-true" | "-readable" | "-writable" | "-mount" | "-xdev" => simple .always
      | "-false" => simple (.negated .always)
      | "-print" => simple (.show '\n')
      | "-print0" => simple (.show '\x00')
      | "-prune" => simple .prune
      | "-delete" => .ok (.delete, { walk with isDeepFirst := true }, others)
      | "-exec" | "-execdir" => do
          let (words, together, others) ← programWords word others
          if words.isEmpty then
            throw (.noArgument word)
          return (if together then .gather words else .run words, walk, others)
      | _ =>
          if word.head? = some '-' then .error (.unknownTest word)
          else .error (.lateStart word)

end

/-- Whether a criterion does something with files. -/
def acts : Criterion → Bool
  | .show _ | .delete | .run _ | .gather _ => true
  | .negated criterion => acts criterion
  | .both first second => acts first || acts second
  | .either first second => acts first || acts second
  | _ => false

/-- The walk that arguments ask for. Paths are printed if nothing else is to be
done. -/
def Walk.ofArguments (arguments : List Bytes) : Except Failure Walk := do
  let follows := arguments.head? = some "-L".toList
  let options := arguments.takeWhile fun argument =>
    argument == "-L".toList || argument == "-P".toList || argument == "-H".toList
  let arguments := arguments.drop options.length
  let starts := arguments.takeWhile fun argument =>
    argument.head? != some '-' && argument != ['('] && argument != ['!']
  let words := arguments.drop starts.length
  let walk : Walk :=
    { starts := if starts.isEmpty then [['.']] else starts
      followsLinks := follows }
  if words.isEmpty then
    return { walk with criterion := .show '\n' }
  else
    let (criterion, walk, rest) ← anyOf (4 * words.length + 4) walk words
    match rest with
    | [] =>
        return { walk with
          criterion :=
            if acts criterion then criterion else .both criterion (.show '\n') }
    | word :: _ => throw (.lateStart word)

/-! ## Walking -/

/-- A file on the way: the path by which it was reached, and what is there. -/
structure Place where
  path : Bytes
  location : Location
  entry : Entry
  depth : Nat
  deriving Inhabited

/-- Whether a criterion held, whether nothing below is looked at, and the paths that
programs are to be run for in the end. -/
structure Verdict where
  holds : Bool := true
  isPruned : Bool := false
  gathered : List (List Bytes × Bytes) := []
  deriving Inhabited

/-- The letter of a kind of file. -/
def kindOf : Entry → Char
  | .directory => 'd'
  | .link _ => 'l'
  | .device => 'c'
  | .file _ => 'f'

/-- Whether a pattern matches a text. -/
def isMatch (ignoresCase : Bool) (pattern text : Bytes) : Bool :=
  let turned := fun bytes : Bytes =>
    if ignoresCase then bytes.map (·.toLower) else bytes
  Pattern.isMatch (Pattern.ofText (turned pattern)) (turned text)

/-- The size of what is at a place. -/
def sizeOf (disk : Disk) (place : Place) : Nat :=
  match place.entry with
  | .directory => 4096
  | .link target => target.utf8ByteSize
  | _ => ((disk.nodeAt? place.location).map (·.content.bytes.size)).getD 0

section

variable (start : Bytes → List Bytes → Act Unit)

/-- Apply a criterion to a file. -/
def judge (place : Place) : Criterion → Act Verdict
  | .always => return {}
  | .named ignoresCase pattern =>
      return { holds := isMatch ignoresCase pattern (Housekeeping.lastName place.path) }
  | .placed ignoresCase pattern =>
      return { holds := isMatch ignoresCase pattern place.path }
  | .ofKind letters => return { holds := letters.contains (kindOf place.entry) }
  | .isEmpty => do
      let disk ← disk
      return { holds :=
        match place.entry with
        | .directory => (disk.namesIn place.location).isEmpty
        | .file _ => sizeOf disk place == 0
        | _ => false }
  | .isExecutable => do
      let node? := (← disk).nodeAt? place.location
      return { holds :=
        place.entry == .directory || (node?.map FileNode.isExecutable).getD false }
  | .sized order count unit => do
      let size := (sizeOf (← disk) place + unit - 1) / unit
      return { holds := compare size count == order }
  | .show ending => do
      print (place.path ++ [ending])
      return {}
  | .delete => do
      if place.path == ['.'] then
        return {}
      else if place.entry == .directory &&
          !((← disk).namesIn place.location).isEmpty then
        Housekeeping.failAt "find" "cannot delete" place.path .notEmpty
        return { holds := false }
      else
        changeDisk (·.erase place.location)
        return {}
  | .prune => return { isPruned := true }
  | .run words => do
      let before := (← process).status
      let filled := words.map (Start.fillIn ['\x7b', '\x7d'] place.path)
      start (filled.head?.getD []) filled.tail
      let holds := (← process).status == 0
      setStatus before
      return { holds := holds }
  | .gather words => return { gathered := [(words, place.path)] }
  | .negated criterion => do
      let verdict ← judge place criterion
      return { verdict with holds := !verdict.holds }
  | .both first second => do
      let left ← judge place first
      if left.holds then
        let right ← judge place second
        return ⟨right.holds, left.isPruned || right.isPruned,
          left.gathered ++ right.gathered⟩
      else
        return left
  | .either first second => do
      let left ← judge place first
      if left.holds then
        return left
      else
        let right ← judge place second
        return ⟨right.holds, left.isPruned || right.isPruned,
          left.gathered ++ right.gathered⟩

/-- Visit a file and what is below it, and tell the paths that programs are to be
run for in the end. -/
def visit (walk : Walk) (fuel : Nat) (place : Place) :
    Act (List (List Bytes × Bytes)) :=
  match fuel with
  | 0 => return []
  | fuel + 1 => do
      let applied : Act Verdict :=
        if place.depth < walk.minDepth then return {}
        else judge start place walk.criterion
      let below : Act (List (List Bytes × Bytes)) := do
        let mut gathered := []
        if place.entry == .directory &&
            walk.maxDepth.all (place.depth < ·) then
          for name in Housekeeping.namesIn (← disk) place.location do
            let path := Housekeeping.within place.path name
            let found ←
              if walk.followsLinks then Housekeeping.found? path
              else Housekeeping.named? path
            match found with
            | .ok (location, entry) =>
                gathered := gathered ++
                  (← visit walk fuel ⟨path, location, entry, place.depth + 1⟩)
            | .error _ => pure ()
        return gathered
      if walk.isDeepFirst then
        let others ← below
        let verdict ← applied
        return others ++ verdict.gathered
      else
        let verdict ← applied
        if verdict.isPruned then
          return verdict.gathered
        else
          return verdict.gathered ++ (← below)

/-- Look for files, given how programs are run. -/
def run (arguments : List Bytes) : Act Unit := do
  setStatus 0
  match Walk.ofArguments arguments with
  | .error failure => Housekeeping.fail "find" failure.message
  | .ok walk =>
      let mut gathered := []
      for path in walk.starts do
        let found ←
          if walk.followsLinks then Housekeeping.found? path
          else Housekeeping.named? path
        match found with
        | .error failure =>
            Housekeeping.fail "find" (Filter.inQuotes path ++
              ": ".toList ++ failure.description.toList)
        | .ok (location, entry) =>
            let fuel := (← disk).entries.length + 1
            gathered := gathered ++ (← visit start walk fuel ⟨path, location, entry, 0⟩)
      let programs := gathered.map Prod.fst
      for (words, index) in programs.zipIdx do
        if programs.idxOf words == index then
          let paths := (gathered.filter (·.1 == words)).map Prod.snd
          let before := (← process).status
          start (words.head?.getD []) (words.tail ++ paths)
          setStatus (if (← process).status == 0 then before else 1)

end

end Find
end Shell
end NotePress
