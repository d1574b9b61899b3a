import NotePress.Shell.Program

/-!
# Starting commands

What the name of a command stands for, which processes a signal reaches, and what
the arguments of the programs ask for that start other programs.
-/

namespace NotePress
namespace Shell
namespace Start

open Act

/-! ## Names of commands -/

/-- The directories in which programs are looked for. -/
def places : Act Bytes :=
  return (← valueOf? "PATH".toList).getD Program.usualPlaces.toList

/-- What a name stands for as a command, in words, and the file if it is one. -/
def meaningOf (name : Bytes) : Act (Option (String × Option Bytes)) := do
  let process ← process
  let text := String.ofList name
  if Builtin.keywords.contains text then
    return some ("a shell keyword", none)
  else if (process.functions.lookup name).isSome then
    return some ("a shell function", none)
  else if Builtin.specials.contains text then
    return some ("a special shell builtin", none)
  else if Builtin.ordinaries.contains text then
    return some ("a shell builtin", none)
  else
    match Program.search (← disk) process.directory (← places) name [] with
    | .ok (file, _) => return some (String.ofList file, some file)
    | .error _ => return none

/-- Tell what names stand for as commands. -/
def tellMeanings (names : List Bytes) : Act Unit := do
  setStatus 0
  for name in names do
    match ← meaningOf name with
    | some (meaning, _) => print (name ++ " is ".toList ++ meaning.toList ++ ['\n'])
    | none =>
        print (name ++ ": not found\n".toList)
        setStatus 127

/-- Tell what a name would start as a command. -/
def tellCommand (name : Bytes) : Act Unit := do
  match ← meaningOf name with
  | some (_, file?) =>
      setStatus 0
      print (file?.getD name ++ ['\n'])
  | none => setStatus 127

/-- Say that a command cannot be started. -/
def failStart (name : Bytes) (failure : Disk.Failure) : Act Unit := do
  let isMissing := failure == .notFound || failure == .notDirectory
  complain (name ++ ": ".toList ++
    (if isMissing then "not found" else failure.description).toList)
  setStatus
    (if isMissing || !name.contains '/' || failure == .tooManyLinks ||
      failure == .nameTooLong then 127 else 126)

/-! ## Signals -/

/-- The names of signals by their numbers. -/
def signalList : Bytes :=
  Bytes.unlines (['0'] :: Signal.all.map fun signal =>
    if signal.number = 16 then ['1', '6'] else signal.name.toList)

/-- Tell the names of signals. -/
def tellSignals (arguments : List Bytes) : Act Unit := do
  setStatus 0
  match arguments with
  | [] => print signalList
  | text :: _ =>
      match Bytes.toNat? text with
      | none => giveUp ("Illegal number: ".toList ++ text)
      | some number =>
          match Signal.all.find? fun signal =>
              signal.number == (if 128 < number then number - 128 else number) with
          | some signal => print (signal.name.toList ++ ['\n'])
          | none => giveUp ("Illegal number: ".toList ++ text)

/-- The signal that arguments name and the processes that they name; or what is
wrong with them. No signal asks only whether a process is there. -/
def signalTargets (arguments : List Bytes) :
    Except Bytes (Option Signal × List Bytes) :=
  let named := fun (name : Bytes) (wrong : Bytes) (targets : List Bytes) =>
    if name == ['0'] || name == "EXIT".toList then
      .ok (none, targets)
    else
      match Signal.find? (String.ofList name) with
      | some signal => .ok (some signal, targets)
      | none => .error wrong
  match arguments with
  | ['-', '-'] :: targets => .ok (some Signal.terminate, targets)
  | ['-', 's'] :: name :: targets =>
      named name ("invalid signal number or name: ".toList ++ name) targets
  | ('-' :: letter :: letters) :: targets =>
      named (letter :: letters) ("Illegal option -".toList ++ [letter]) targets
  | targets => .ok (some Signal.terminate, targets)

/-- Whether a process is there to get a signal. -/
def isAlive (target : Nat) : Act Bool := do
  let world ← world
  return target == (← process).number || target == world.firstProcess ||
    world.jobs.any fun job => job.process == target && world.clock < job.finish

/-- Let a signal reach another process. -/
def deliverTo (signal : Signal) (target : Nat) : Act Unit :=
  changeWorld fun world =>
    { world with jobs := world.jobs.map fun job =>
        if job.process == target && signal.effect == .ends then
          { job with
            finish := min job.finish world.clock
            status := 128 + signal.number
            signal := some signal }
        else
          job }

/-- Let a signal have its usual effect on the process. -/
def suffer (signal : Signal) : Act Unit := do
  let target := (← process).number
  match signal.effect with
  | .passes => pure ()
  | .stops => changeWorld World.runOut
  | .ends =>
      if target == (← world).firstProcess then
        changeWorld fun world => { world with killed := some signal }
      else
        setStatus (128 + signal.number)
        setFlow .leaving
        changeProcess fun process => { process with killed := some signal }

/-! ## Other shells -/

/-- What a shell is asked to run. -/
inductive Source
  | text
  | file
  | input
  deriving DecidableEq, Repr, Inhabited

/-- Set the options in front of the arguments of a shell; gives what it is asked to
run, and the arguments that are left. -/
def readShellOptions (source : Source) :
    List Bytes → Act (Source × List Bytes)
  | [] => return (if source == .file then .input else source, [])
  | ['-', '-'] :: others =>
      return (if source == .file && others.isEmpty then .input else source, others)
  | ['-'] :: others =>
      return (if source == .file && others.isEmpty then .input else source, others)
  | (sign :: letter :: letters) :: others => do
      if sign == '-' || sign == '+' then
        let letters := letter :: letters
        for letter in letters do
          if letter != 'c' && letter != 's' && letter != 'o' then
            Builtin.setLetters (sign == '-') [letter]
        if letters.contains 'o' then
          match others with
          | name :: others =>
              match Builtin.optionNames.lookup (String.ofList name) with
              | some option => Builtin.setOption (sign == '-') option
              | none => giveUp ("Illegal option -o ".toList ++ name)
              readShellOptions source others
          | [] => return (.input, [])
        else
          readShellOptions
            (if letters.contains 'c' then .text
            else if letters.contains 's' then .input else source) others
      else
        return (source, (sign :: letter :: letters) :: others)
  | arguments => return (source, arguments)

/-- Forget what another program does not get to know. -/
def forgetPrivate : Act Unit :=
  changeProcess fun process =>
    { process with
      bindings := process.bindings.filter fun binding =>
        process.exported.contains binding.1
      constants := []
      shadowed := none
      functions := []
      options := []
      loops := 0
      optionPlace := 0
      speaker := []
      line := 0
      guarded := false
      lastJob := none }

/-- The variables that a shell sets when it starts. -/
def setUp : Act Unit := do
  let directory := (← process).directory
  bind "PWD".toList (Bytes.ofText directory.text)
  expose "PWD".toList
  bind "OPTIND".toList ['1']
  bind "IFS".toList [' ', '\t', '\n']
  bind "PS4".toList ['+', ' ']
  if (← valueOf? "PATH".toList).isNone then
    bind "PATH".toList Program.usualPlaces.toList

/-- Read the assignments and the command that follow `env`. -/
def readBindings : List Bytes → Act (List Bytes)
  | [] => return []
  | ['-', 'u'] :: name :: others => do
      forget name
      readBindings others
  | ['-', 'i'] :: others => do
      changeProcess fun process => { process with bindings := [], exported := [] }
      readBindings others
  | word :: others => do
      match Grammar.assignedName? word with
      | some (name, value) =>
          bind name value
          expose name
          readBindings others
      | none => return word :: others

/-- The options of `timeout`. -/
def timeoutForm : OptionForm where
  plain := "vfp"
  valued := "sk"
  long :=
    [("foreground", 'f'), ("preserve-status", 'p'), ("signal", 's'),
      ("kill-after", 'k'), ("verbose", 'v')]
  leads := true

/-- The options of `xargs`. -/
def groupForm : OptionForm where
  plain := "r0tpx"
  valued := "nILdPsE"
  long :=
    [("null", '0'), ("no-run-if-empty", 'r'), ("max-args", 'n'), ("max-lines", 'L'),
      ("delimiter", 'd'), ("verbose", 't'), ("max-procs", 'P')]
  leads := true

/-- The lines of words in a text, given the word that was begun. Quotes and
backslashes take from bytes their meaning; what is wrong is a quote that is not
closed. -/
def quotedLines (fuel : Nat) (begun : Option Bytes) (text : Bytes) :
    Except String (List (List Bytes)) :=
  let ended := fun (lines : List (List Bytes)) =>
    match begun, lines with
    | none, lines => lines
    | some word, line :: lines => (word :: line) :: lines
    | some word, [] => [[word]]
  match fuel with
  | 0 => .ok (ended [])
  | fuel + 1 =>
      match text with
      | [] => .ok (ended [[]])
      | '\n' :: rest => do
          let lines ← quotedLines fuel none rest
          return ended ([] :: lines)
      | '\\' :: byte :: rest =>
          quotedLines fuel (some (begun.getD [] ++ [byte])) rest
      | byte :: rest =>
          if byte = ' ' || byte = '\t' then do
            let lines ← quotedLines fuel none rest
            return ended lines
          else if byte = '\'' || byte = '"' then
            let inside := rest.takeWhile fun other => other != byte && other != '\n'
            match rest.drop inside.length with
            | [] | '\n' :: _ =>
                .error (if byte = '"' then "double" else "single")
            | _ :: rest => quotedLines fuel (some (begun.getD [] ++ inside)) rest
          else
            quotedLines fuel (some (begun.getD [] ++ [byte])) rest

/-- The parts of a text that end with a separator; what is left at the end is one,
too. -/
def partsAt (separator : Char) (text : Bytes) : List Bytes :=
  let parts := Text.splitAt separator text
  if parts.getLast? = some [] then parts.dropLast else parts

/-- The words that a text gives to `xargs`, line by line. -/
def wordsOf (options : Options) (text : Bytes) : Except String (List (List Bytes)) :=
  if options.has '0' then
    .ok [partsAt '\x00' text]
  else
    match options.value? 'd' with
    | some separator =>
        .ok [partsAt (((Format.unescape separator).1.head?).getD '\x00') text]
    | none =>
        if options.has 'I' then
          .ok ((((Bytes.lines text).map fun line =>
            line.dropWhile fun byte => byte == ' ' || byte == '\t').filter
              (!·.isEmpty)).map fun line => [line])
        else
          (quotedLines (text.length + 1) none text).map fun lines =>
            lines.filter fun line => !line.isEmpty

/-- Lists of at most some words each. -/
def groupsOf (size : Nat) (words : List Bytes) : List (List Bytes) :=
  (List.range ((words.length + size - 1) / size)).map fun index =>
    (words.drop (index * size)).take size

/-- The lists of arguments that `xargs` adds to its command, given the words line by
line. -/
def groupedWords (options : Options) (lines : List (List Bytes)) :
    List (List Bytes) :=
  let words := lines.flatten
  let number? := fun letter => (options.value? letter).bind Bytes.toNat?
  let groups :=
    match number? 'n', number? 'L' with
    | some size, _ => groupsOf size words
    | none, some size =>
        (List.range ((lines.length + size - 1) / size)).map fun index =>
          ((lines.drop (index * size)).take size).flatten
    | none, none => groupsOf words.length words
  if words.isEmpty then (if options.has 'r' then [] else [[]]) else groups

/-- A text with a word put in the place of a mark. -/
def fillIn (mark word : Bytes) : Bytes → Bytes
  | [] => []
  | byte :: rest =>
      if !mark.isEmpty && mark.isPrefixOf (byte :: rest) then
        word ++ fillIn mark word (rest.drop (mark.length - 1))
      else
        byte :: fillIn mark word rest
termination_by text => text.length
decreasing_by
  all_goals simp only [List.length_drop, List.length_cons]; omega

end Start
end Shell
end NotePress
