import NotePress.Shell.Housekeeping

/-!
# Differences of files

`cmp` tells where two files begin to differ. `diff` tells which lines of one file to
remove and which of the other to add, so that as many lines as possible stay.
-/

namespace NotePress
namespace Shell

namespace Difference

open Act

/-! ## Bytes -/

/-- Where two contents differ: the place of the byte and of its line. -/
def byteAndLine? (left right : Bytes) : Option (Nat × Nat) :=
  let same := ((left.zip right).takeWhile fun (first, second) => first == second)
  if same.length == left.length && same.length == right.length then
    none
  else
    some (same.length + 1, (same.map Prod.fst).count '\n' + 1)

/-- What is said about a file that ends before the other one differs. -/
def endedMessage (file content : Bytes) (byte line : Nat) : Bytes :=
  "EOF on ".toList ++ file ++
    if byte = 1 then
      " which is empty".toList
    else if content.getLast? = some '\n' then
      " after byte ".toList ++ Bytes.ofNat (byte - 1) ++ ", line ".toList ++
        Bytes.ofNat (line - 1)
    else
      " after byte ".toList ++ Bytes.ofNat (byte - 1) ++ ", in line ".toList ++
        Bytes.ofNat line

/-- Say that a program that compares was called in a wrong way. -/
def failUsage (program : String) (message : Bytes) : Act Unit := do
  Housekeeping.fail program message
  Housekeeping.fail program
    ("Try '".toList ++ program.toList ++ " --help' for more information.".toList)
  setStatus 2

/-- The contents of two files, one of which may be what is read; `none` after a
complaint. -/
def contentsOf
    (program : String)
    (first second : Bytes) : Act (Option (Bytes × Bytes)) := do
  let files ← files
  let input ← if isInput first || isInput second then takeAll 0 else pure []
  let contentOf := fun file =>
    if isInput file then .ok input else files file
  let refused := fun (file : Bytes) (cause : String) => do
    Housekeeping.fail program (file ++ ": ".toList ++ cause.toList)
    setStatus 2
  match contentOf first, contentOf second with
  | .ok left, .ok right => return some (left, right)
  | .error cause, .ok _ =>
      refused first cause
      return none
  | .ok _, .error cause =>
      refused second cause
      return none
  | .error cause, .error other =>
      refused first cause
      if program == "diff" then
        refused second other
      return none

/-- Tell about every byte in which two files differ. -/
def tellAll (first left second right : Bytes) : Act Unit := do
  let width := (Bytes.ofNat (max left.length right.length)).length
  let octal := fun byte : Char =>
    let digits := Nat.toDigits 8 byte.toNat
    List.replicate (3 - digits.length) ' ' ++ digits
  for ((one, other), index) in (left.zip right).zipIdx do
    if one != other then
      print (Filter.column width (index + 1) ++ ' ' :: octal one ++
        ' ' :: octal other ++ ['\n'])
  if left.length != right.length then
    let ended := if left.length < right.length then first else second
    let size := min left.length right.length
    Housekeeping.fail "cmp" ("EOF on ".toList ++ ended ++
      (if size = 0 then " which is empty".toList
      else " after byte ".toList ++ Bytes.ofNat size))

/-- Tell where two files differ first. -/
def compare (arguments : List Bytes) : Act Unit := do
  let form : OptionForm :=
    { plain := "slb", long := [("silent", 's'), ("quiet", 's'), ("verbose", 'l')] }
  match Options.read form arguments with
  | .error failure => failUsage "cmp" failure.message
  | .ok options =>
      match options.operands with
      | [] => failUsage "cmp" "missing operand after 'cmp'".toList
      | first :: others =>
          let second := others.head?.getD ['-']
          match ← contentsOf "cmp" first second with
          | none => pure ()
          | some (left, right) =>
              match byteAndLine? left right with
              | none => setStatus 0
              | some (byte, line) =>
                  if options.has 's' then
                    pure ()
                  else if options.has 'l' then
                    tellAll first left second right
                  else if left.length < byte then
                    Housekeeping.fail "cmp" (endedMessage first left byte line)
                  else if right.length < byte then
                    Housekeeping.fail "cmp" (endedMessage second right byte line)
                  else
                    print (first ++ ' ' :: second ++ " differ: char ".toList ++
                      Bytes.ofNat byte ++ ", line ".toList ++ Bytes.ofNat line ++
                      ['\n'])
                  setStatus 1

/-! ## Lines -/

/-- What becomes of lines, one after the other. -/
inductive Step
  | keep (line : Bytes)
  | remove (line : Bytes)
  | add (line : Bytes)
  deriving DecidableEq, Repr, Inhabited

/-- How many lines of a list and of every end of another can stay, given those
counts for the list without its first line. -/
def countsWith
    (isSame : Bytes → Bytes → Bool)
    (line : Bytes) : List Bytes → List Nat → List Nat
  | [], _ => [0]
  | other :: others, counts =>
      let rest := countsWith isSame line others counts.tail
      (if isSame line other then (counts.tail.head?).getD 0 + 1
      else max ((counts.head?).getD 0) ((rest.head?).getD 0)) :: rest

/-- For every end of a list, how many of its lines and of every end of another can
stay. -/
def table
    (isSame : Bytes → Bytes → Bool)
    (right : List Bytes) : List Bytes → List (List Nat)
  | [] => [(0 : Nat) :: right.map fun _ => 0]
  | line :: others =>
      let rest := table isSame right others
      countsWith isSame line right ((rest.head?).getD []) :: rest

/-- The steps that make a list out of another. Equal lines stay as early as
possible. -/
def steps
    (isSame : Bytes → Bytes → Bool)
    (fuel : Nat)
    (left right : List Bytes)
    (counts : List (List Nat)) : List Step :=
  match fuel with
  | 0 => []
  | fuel + 1 =>
      let below := counts.tail
      let beside := counts.map List.tail
      match left, right with
      | [], right => right.map .add
      | left, [] => left.map .remove
      | first :: left, second :: right =>
          if isSame first second then
            .keep first :: steps isSame fuel left right (beside.drop 1)
          else if ((beside.head?.getD []).head?).getD 0 ≤
              ((below.head?.getD []).head?).getD 0 then
            .remove first :: steps isSame fuel left (second :: right) below
          else
            .add second :: steps isSame fuel (first :: left) right beside

/-- A change: the lines before it in either file, the lines to remove, and those to
add. -/
structure Change where
  left : Nat
  right : Nat
  removed : List Bytes
  added : List Bytes
  deriving DecidableEq, Repr, Inhabited

/-- The changes that steps make, given how many lines come before. -/
def changesFrom (left right : Nat) : List Step → List Change
  | [] => []
  | .keep _ :: others => changesFrom (left + 1) (right + 1) others
  | .remove line :: others =>
      match changesFrom (left + 1) right others with
      | change :: changes =>
          if change.left = left + 1 && change.right = right then
            ⟨left, right, line :: change.removed, change.added⟩ :: changes
          else
            ⟨left, right, [line], []⟩ :: change :: changes
      | [] => [⟨left, right, [line], []⟩]
  | .add line :: others =>
      match changesFrom left (right + 1) others with
      | change :: changes =>
          if change.left = left && change.right = right + 1 then
            ⟨left, right, change.removed, line :: change.added⟩ :: changes
          else
            ⟨left, right, [], [line]⟩ :: change :: changes
      | [] => [⟨left, right, [], [line]⟩]

/-- A line behind a mark. The last line of a file says so if it is not ended. -/
def marked (mark : String) (line : Bytes) : Bytes :=
  mark.toList ++ line ++
    if line.getLast? = some '\n' then []
    else "\n\\ No newline at end of file\n".toList

/-- The numbers of lines, given how many come before. -/
def range (before count : Nat) : Bytes :=
  if count ≤ 1 then Bytes.ofNat (before + count)
  else Bytes.ofNat (before + 1) ++ ',' :: Bytes.ofNat (before + count)

/-- A change as it is usually printed. -/
def Change.text (change : Change) : Bytes :=
  let letter :=
    if change.removed.isEmpty then 'a'
    else if change.added.isEmpty then 'd'
    else 'c'
  range change.left change.removed.length ++ letter ::
    range change.right change.added.length ++ ['\n'] ++
    change.removed.flatMap (marked "< ") ++
    (if letter = 'c' then "---\n".toList else []) ++
    change.added.flatMap (marked "> ")

/-- How many lines are shown around changes. -/
def around : Nat := 3

/-- Changes in groups, with few enough lines between those of a group. -/
def groups : List Change → List (List Change)
  | [] => []
  | change :: others =>
      match groups others with
      | (next :: group) :: more =>
          if next.left ≤ change.left + change.removed.length + 2 * around then
            (change :: next :: group) :: more
          else
            [change] :: (next :: group) :: more
      | more => [change] :: more

/-- The numbers of the lines of a group. -/
def unifiedRange (before count : Nat) : Bytes :=
  if count = 1 then Bytes.ofNat (before + 1)
  else Bytes.ofNat (if count = 0 then before else before + 1) ++
    ',' :: Bytes.ofNat count

/-- A group of changes with the lines around them, given the lines of the first
file. -/
def groupText (lines : List Bytes) (group : List Change) : Bytes :=
  let first := group.head?.getD default
  let last := group.getLast?.getD default
  let lead := min around first.left
  let finish := last.left + last.removed.length
  let trail := min around (lines.length - finish)
  let start := first.left - lead
  let count := finish + trail - start
  let kept := fun (low high : Nat) =>
    ((lines.drop low).take (high - low)).flatMap (marked " ")
  let (body, place) := group.foldl
    (fun (text, place) change =>
      (text ++ kept place change.left ++ change.removed.flatMap (marked "-") ++
        change.added.flatMap (marked "+"), change.left + change.removed.length))
    (([] : Bytes), start)
  let (removed, added) := group.foldl
    (fun (removed, added) change =>
      (removed + change.removed.length, added + change.added.length)) (0, 0)
  "@@ -".toList ++ unifiedRange start count ++ " +".toList ++
    unifiedRange (first.right - lead) (count + added - removed) ++ " @@\n".toList ++
    body ++ kept place (finish + trail)

/-- The options of `diff`. -/
def form : OptionForm where
  plain := "qsuiwbBadNrt"
  valued := "LU"
  long :=
    [("brief", 'q'), ("report-identical-files", 's'), ("unified", 'u'),
      ("ignore-case", 'i'), ("ignore-all-space", 'w'),
      ("ignore-space-change", 'b'), ("label", 'L'), ("text", 'a'),
      ("minimal", 'd')]

/-- Whether two lines count as equal. -/
def isSame (options : Options) (left right : Bytes) : Bool :=
  let isBlank := fun byte : Char => byte == ' ' || byte == '\t' || byte == '\n'
  let key := fun line : Bytes =>
    let line := if options.has 'i' then line.map (·.toLower) else line
    if options.has 'w' then line.filter fun byte => !isBlank byte
    else if options.has 'b' then
      Filter.squeeze (· == ' ') (((line.reverse.dropWhile isBlank).reverse).map
        fun byte => if isBlank byte then ' ' else byte)
    else line
  key left == key right

/-- Tell how two files differ. -/
def tell (options : Options) (first second : Bytes) : Act Unit := do
  match ← contentsOf "diff" first second with
  | none => pure ()
  | some (left, right) =>
      let lines := Filter.linesWithEnds left
      let others := Filter.linesWithEnds right
      let isSame := isSame options
      let changes := changesFrom 0 0
        (steps isSame (lines.length + others.length + 1) lines others
          (table isSame others lines))
      setStatus (if changes.isEmpty then 0 else 1)
      if changes.isEmpty then
        if options.has 's' then
          print ("Files ".toList ++ first ++ " and ".toList ++ second ++
            " are identical\n".toList)
      else if options.has 'q' then
        print ("Files ".toList ++ first ++ " and ".toList ++ second ++
          " differ\n".toList)
      else if left.contains '\x00' || right.contains '\x00' then
        print ("Binary files ".toList ++ first ++ " and ".toList ++ second ++
          " differ\n".toList)
        setStatus 2
      else if options.has 'u' || options.has 'U' then
        let stamp := "\t1970-01-01 00:00:00.000000000 +0000".toList
        let labels := options.values 'L'
        print ("--- ".toList ++ labels.head?.getD (first ++ stamp) ++
          "\n+++ ".toList ++ labels[1]?.getD (second ++ stamp) ++ ['\n'] ++
          (groups changes).flatMap (groupText lines))
      else
        print (changes.flatMap Change.text)

/-- Tell how two files differ. A directory stands for the file in it that has the
name of the other one. -/
def tellOf (arguments : List Bytes) : Act Unit := do
  match Options.read form arguments with
  | .error failure => failUsage "diff" failure.message
  | .ok options =>
      match options.operands with
      | [] => failUsage "diff" "missing operand after 'diff'".toList
      | [only] =>
          failUsage "diff" ("missing operand after ".toList ++ Filter.inQuotes only)
      | [first, second] =>
          let inFirst ← Housekeeping.isDirectory first
          let inSecond ← Housekeeping.isDirectory second
          if inFirst && !inSecond then
            tell options (Housekeeping.within first (Housekeeping.lastName second))
              second
          else if inSecond && !inFirst then
            tell options first
              (Housekeeping.within second (Housekeeping.lastName first))
          else
            tell options first second
      | _ :: _ :: third :: _ =>
          failUsage "diff" ("extra operand ".toList ++ Filter.inQuotes third)

end Difference
end Shell
end NotePress
