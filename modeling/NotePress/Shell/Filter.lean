import NotePress.Shell.Calculation
import NotePress.Shell.Dump
import NotePress.Shell.Edit
import NotePress.Shell.Layout
import NotePress.Shell.Order
import NotePress.Shell.Search
import NotePress.Shell.Translate

/-!
# Filters

The filters by name: those that other modules describe, `wc`, and some that look at
their arguments alone.
-/

namespace NotePress
namespace Shell
namespace Filter

/-! ## Counting -/

/-- The number of words in bytes. -/
def wordCount (bytes : Bytes) : Nat :=
  let isBlank := fun byte : Char =>
    byte == ' ' || ('\t' ≤ byte && byte ≤ '\r')
  (bytes.foldl
    (fun (count, inWord) byte =>
      if isBlank byte then (count, false)
      else if inWord then (count, true)
      else (count + 1, true))
    (0, false)).1

/-- The width of the widest line. -/
def lineWidth (bytes : Bytes) : Nat :=
  (Bytes.lines bytes).foldl
    (fun width line => max width (columnBehind false line)) 0

/-- The counts that options ask for: lines, words, bytes and the widest line. -/
def counts (options : Options) (content : Bytes) : List Nat :=
  let asksFor := fun letter : Char => options.given.isEmpty || options.has letter
  (if asksFor 'l' then [content.count '\n'] else []) ++
    (if asksFor 'w' then [wordCount content] else []) ++
    (if options.has 'm' then [content.length] else []) ++
    (if asksFor 'c' then [content.length] else []) ++
    (if options.has 'L' then [lineWidth content] else [])

/-- How wide the columns of counts are. One count alone is as wide as it is. Else
the width is that of the size of all files, and at least seven if not all that is
read is files. -/
def countWidth (supply : Supply) (options : Options) (operands : List Bytes) : Nat :=
  if operands.length ≤ 1 && (counts options []).length ≤ 1 then
    1
  else
    let sizes := operands.map fun operand =>
      match supply.content operand with
      | .ok content =>
          if isInput operand && !supply.isFile then (0, 7) else (content.length, 1)
      | .error cause => if cause == "Is a directory" then (0, 7) else (0, 1)
    let total := sizes.foldl (fun total size => total + size.1) 0
    sizes.foldl (fun width size => max width size.2) (Bytes.ofNat total).length

/-- Count lines, words and bytes. -/
def wc : Filter where
  form :=
    { plain := "clwmL"
      long :=
        [("bytes", 'c'), ("chars", 'm'), ("lines", 'l'), ("words", 'w'),
          ("max-line-length", 'L')] }
  print supply options :=
    let operands := inputs options
    let (found, complaints) := contents "wc" supply operands
    let width := countWidth supply options operands
    let line := fun (name : Bytes) (values : List Nat) =>
      [' '].intercalate (values.map (column width) ++
        (if name.isEmpty then [] else [name]))
    let rows := operands.filterMap fun operand =>
      let name := if options.operands.isEmpty then [] else operand
      match supply.content operand with
      | .ok content => some (line name (counts options content))
      | .error cause =>
          if cause == "Is a directory" then some (line name (counts options []))
          else none
    let total := counts options (found.flatMap Prod.snd)
    let widest := found.foldl
      (fun widest found => max widest (lineWidth found.2)) 0
    let total := if options.has 'L' then total.dropLast ++ [widest] else total
    .keeping
      (Bytes.unlines
        (if 1 < operands.length then rows ++ [line "total".toList total] else rows))
      complaints (if complaints.isEmpty then 0 else 1)

/-! ## Looking at arguments alone -/

/-- The last segment of a path, without an ending if it has one. -/
def lastSegment (path ending : Bytes) : Bytes :=
  let body := (path.reverse.dropWhile (· == '/')).reverse
  let name := (body.reverse.takeWhile (· != '/')).reverse
  if body.isEmpty then
    (if path.isEmpty then [] else ['/'])
  else if ending.isSuffixOf name && name != ending then
    name.take (name.length - ending.length)
  else
    name

/-- The path of the directory around a path. -/
def parentOf (path : Bytes) : Bytes :=
  let body := path.reverse.dropWhile (· == '/')
  let around := (body.dropWhile (· != '/')).dropWhile (· == '/')
  if around.isEmpty then
    (if path.head? = some '/' then ['/'] else ['.'])
  else
    around.reverse

/-- Lines, or texts that end with a zero byte if asked for. -/
def ended (options : Options) (texts : List Bytes) : Bytes :=
  texts.flatMap (· ++ [if options.has 'z' then '\x00' else '\n'])

/-- Print the last segments of paths. -/
def basename : Filter where
  form :=
    { plain := "az"
      valued := "s"
      long := [("multiple", 'a'), ("suffix", 's'), ("zero", 'z')] }
  reads _ := false
  print _ options :=
    let ending := (options.value? 's').getD []
    match options.operands with
    | [] => .usage "basename" "missing operand".toList 1
    | [path] => .only (ended options [lastSegment path ending])
    | path :: second :: others =>
        if options.has 'a' || options.has 's' then
          .only (ended options (options.operands.map (lastSegment · ending)))
        else
          match others with
          | [] => .only (ended options [lastSegment path second])
          | third :: _ =>
              .usage "basename" ("extra operand ".toList ++ inQuotes third) 1

/-- Print the directories around paths. -/
def dirname : Filter where
  form := { plain := "z", long := [("zero", 'z')] }
  reads _ := false
  print _ options :=
    if options.operands.isEmpty then
      .usage "dirname" "missing operand".toList 1
    else
      .only (ended options (options.operands.map parentOf))

/-- Print what kind of system this is. -/
def uname : Filter where
  form := { plain := "snrvmopia" }
  reads _ := false
  print _ _ := .only "Linux\n".toList

/-- Print who runs the program. -/
def id : Filter where
  form :=
    { plain := "ugGnr"
      long := [("user", 'u'), ("group", 'g'), ("groups", 'G'), ("name", 'n')] }
  reads _ := false
  print _ options :=
    .only (if options.has 'n' then "root\n".toList
      else if options.given.isEmpty then "uid=0(root) gid=0(root) groups=0(root)\n".toList
      else "0\n".toList)

/-- A filter that looks at nothing and prints a text. -/
def constant (text : Bytes) (status : Nat) : Filter where
  spell _ := []
  reads _ := false
  print _ _ := ⟨if text.isEmpty then [] else [(1, text)], status⟩

/-! ## All of them -/

/-- The filters with their names. -/
def all : List (String × Filter) :=
  [("cat", cat), ("wc", wc), ("head", head), ("tail", tail), ("tr", tr),
    ("sort", sort), ("uniq", uniq), ("comm", comm), ("cut", cut), ("grep", grep),
    ("sed", sed), ("seq", seq), ("expr", expr), ("nl", nl), ("paste", paste),
    ("fold", fold), ("rev", rev), ("tac", tac), ("od", od), ("base64", base64),
    ("basename", basename), ("dirname", dirname), ("uname", uname),
    ("true", constant [] 0), ("sync", constant [] 0),
    ("date", constant "Thu Jan  1 00:00:00 UTC 1970\n".toList 0),
    ("tty", constant "not a tty\n".toList 1), ("id", id), ("false", constant [] 1),
    ("whoami", constant "root\n".toList 0)]

/-- The names of the filters. -/
def names : List String :=
  all.map Prod.fst

/-- The filter of a name with the options that arguments give it, or what it says
about arguments that it does not understand; `none` when there is no such filter. -/
def prepare?
    (name : String)
    (arguments : List Bytes) : Option (Except Printed (Filter × Options)) :=
  (all.lookup name).map fun filter =>
    match Options.read filter.form (filter.spell arguments) with
    | .ok options => .ok (filter, options)
    | .error failure => .error (.usage name failure.message filter.failing)

end Filter
end Shell
end NotePress
