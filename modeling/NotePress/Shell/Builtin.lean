import NotePress.Shell.Act
import NotePress.Shell.Condition
import NotePress.Shell.Field
import NotePress.Shell.Format

/-!
# The commands of a shell

The commands that are part of the shell and run no other command.
-/

namespace NotePress
namespace Shell
namespace Builtin

open Act

/-- The words that build commands. -/
def keywords : List String :=
  ["!", "case", "do", "done", "elif", "else", "esac", "fi", "for", "if", "then",
    "until", "while", "\x7b", "\x7d"]

/-- The commands whose failures end a script, and whose assignments stay. -/
def specials : List String :=
  [".", ":", "break", "continue", "eval", "exec", "exit", "export", "readonly",
    "return", "set", "shift", "times", "trap", "unset"]

/-- The other commands that are part of the shell. -/
def ordinaries : List String :=
  ["[", "alias", "bg", "cd", "chdir", "command", "echo", "false", "fg", "getopts",
    "hash", "jobs", "kill", "local", "printf", "pwd", "read", "test", "true",
    "type", "ulimit", "umask", "unalias", "wait"]

/-- Whether bytes are the name of a variable. -/
def isName (name : Bytes) : Bool :=
  match name with
  | first :: _ => Grammar.startsName first && name.all Grammar.isNameByte
  | [] => false

/-- Read the characters of a line, given what can be read. A backslash quotes the
character behind it, unless backslashes are to be kept. The answer tells how many
bytes were read, and whether the line was ended. -/
def lineOf (keepsBackslashes : Bool) : Bytes → List ReadByte × Nat × Bool
  | [] => ([], 0, false)
  | '\n' :: _ => ([], 1, true)
  | '\\' :: byte :: rest =>
      if keepsBackslashes then
        let (line, count, ended) := lineOf keepsBackslashes (byte :: rest)
        (('\\', false) :: line, count + 1, ended)
      else
        let (line, count, ended) := lineOf keepsBackslashes rest
        (if byte == '\n' then line else (byte, true) :: line, count + 2, ended)
  | byte :: rest =>
      let (line, count, ended) := lineOf keepsBackslashes rest
      ((byte, false) :: line, count + 1, ended)

/-- The options in front of arguments, and the operands. A dash alone is an
operand. -/
def splitOptions : List Bytes → List Bytes × List Bytes
  | ('-' :: letter :: letters) :: others =>
      if letter = '-' ∧ letters.isEmpty then
        ([], others)
      else
        let (options, operands) := splitOptions others
        (('-' :: letter :: letters) :: options, operands)
  | arguments => ([], arguments)

/-- Read a line into variables. -/
def readLine (arguments : List Bytes) : Act Unit := do
  let (options, names) := splitOptions arguments
  let names :=
    if options.contains ['-', 'p'] then names.tail else names
  if names.isEmpty then
    complain "arg count".toList
    setStatus 2
  else
    let bytes ← readable 0
    let (line, count, ended) := lineOf (options.contains ['-', 'r']) bytes
    consume 0 bytes count
    setStatus (if ended then 0 else 1)
    let values := valuesOf (← separators) names.length line
    for (name, value) in names.zip values do
      assign name (value.filter (· != '\x00'))

/-- The directory that a path leads to by its text, seen from a directory. -/
def stepInto (directory : Path) (target : Bytes) : Path :=
  let start :=
    if target.head? = some '/' then [] else Path.segmentsOf directory.text.toList
  let names := (start ++ Path.segmentsOf target.toText.toList).foldl
    (fun names segment =>
      if Path.isIdle segment then names
      else if segment = ['.', '.'] then names.tail
      else segment :: names)
    ([] : List (List Char))
  ⟨String.ofList ('/' :: Path.textOf names.reverse)⟩

/-- Change the directory of the process. -/
def changeDirectory (arguments : List Bytes) : Act Unit := do
  let (options, operands) :=
    if arguments.head? == some ['-'] then ([], arguments)
    else splitOptions arguments
  let home := (← valueOf? "HOME".toList).getD []
  let former := (← valueOf? "OLDPWD".toList).getD []
  let target := operands.head?.getD home
  let directory := (← process).directory
  let isReturn := target == ['-']
  let target := if isReturn then former else target
  let logical := stepInto directory target
  match (← disk).locate logical with
  | .ok location =>
      if (← disk).entryAt? location == some .directory then
        let reached :=
          if options.getLast? == some ['-', 'P'] then location.path else logical
        changeProcess fun process => { process with directory := reached }
        bind "OLDPWD".toList (Bytes.ofText directory.text)
        bind "PWD".toList (Bytes.ofText reached.text)
        expose "OLDPWD".toList
        expose "PWD".toList
        setStatus 0
        if isReturn then
          print (Bytes.ofText reached.text ++ ['\n'])
      else
        complain ("can't cd to ".toList ++ target)
        setStatus 2
  | .error _ =>
      complain ("can't cd to ".toList ++ target)
      setStatus 2

/-- Print the directory of the process. -/
def printDirectory (arguments : List Bytes) : Act Unit := do
  let directory := (← process).directory
  let disk ← disk
  setStatus 0
  let text :=
    if arguments.contains ['-', 'P'] then
      match disk.locate directory with
      | .ok location => location.path.text
      | .error _ => directory.text
    else
      directory.text
  print (Bytes.ofText text ++ ['\n'])

/-- A value between quotes, as a shell prints it. -/
def quoted (value : Bytes) : Bytes :=
  '\'' :: value.flatMap (fun byte =>
    if byte == '\'' then "'\"'\"'".toList else [byte]) ++ ['\'']

/-- Assign to variables and mark them, or print the marked ones. -/
def declare
    (command : String)
    (marked : Process → List Bytes)
    (mark : Bytes → Act Unit)
    (arguments : List Bytes) : Act Unit := do
  setStatus 0
  let process ← process
  let (_, operands) := splitOptions arguments
  if operands.isEmpty then
    for name in (marked process).mergeSort Bytes.notAfter do
      print (command.toList ++ ' ' :: name ++
        (match process.bindings.lookup name with
        | some value => '=' :: quoted value
        | none => []) ++ ['\n'])
  else
    for operand in operands do
      if (← isStopped) then
        break
      let (name, value?) :=
        match Grammar.assignedName? operand with
        | some (name, value) => (name, some value)
        | none => (operand.takeWhile (· != '='), none)
      if isName name && (value?.isSome || !operand.contains '=') then
        match value? with
        | some value => assign name value
        | none => pure ()
        mark name
      else
        giveUp (name ++ ": bad variable name".toList)

/-- Keep a variable from changing. -/
def protect (name : Bytes) : Act Unit :=
  changeProcess fun process =>
    { process with constants := name :: process.constants }

/-- Put variables back to what they were before a function made them its own. -/
def restore (before : Option (List (Bytes × Option Bytes))) : Act Unit := do
  for (name, value) in (← process).shadowed.getD [] do
    putBack name value
  changeProcess fun process => { process with shadowed := before }

/-- Make variables the running function's own. -/
def declareLocal (arguments : List Bytes) : Act Unit := do
  setStatus 0
  match (← process).shadowed with
  | none => giveUp "not in a function".toList
  | some _ =>
      for argument in arguments do
        let (name, assigned) :=
          match Grammar.assignedName? argument with
          | some (name, value) => (name, some value)
          | none => (argument, none)
        let before := (name, ← valueOf? name)
        changeProcess fun process =>
          { process with
            shadowed := process.shadowed.map fun others => others ++ [before] }
        match assigned with
        | some value => assign name value
        | none => pure ()

/-- Leave a process, function or script with the status that arguments give, or
with the last one. -/
def leave (flow : Flow) (arguments : List Bytes) : Act Unit := do
  match arguments with
  | [] => setFlow flow
  | number :: _ =>
      match number.toNat? with
      | some status =>
          setStatus status
          setFlow flow
      | none => giveUp ("Illegal number: ".toList ++ number)

/-- Leave as many of the loops around a command as arguments tell, or one. -/
def leaveLoops (flow : Nat → Flow) (arguments : List Bytes) : Act Unit := do
  let loops := (← process).loops
  match arguments.head?.map Bytes.toNat? with
  | some none | some (some 0) =>
      giveUp ("Illegal number: ".toList ++ arguments.head?.getD [])
  | count? =>
      let levels := (count?.getD (some 1)).getD 1
      setStatus 0
      if 0 < loops then
        setFlow (flow (min levels loops))

/-- Print arguments in a format. -/
def printFormat (arguments : List Bytes) : Act Unit := do
  match if arguments.head? = some ['-', '-'] then arguments.tail else arguments with
  | [] =>
      complain "usage: printf format [arg ...]".toList
      setStatus 2
  | format :: others =>
      let printing := Format.printf format others
      setStatus (if printing.misread.isEmpty then 0 else 1)
      for argument in printing.misread do
        complain (argument ++
          (if (Format.wholeNumber argument).1 = 0 then ": expected numeric value"
          else ": not completely converted").toList)
      print printing.text

/-- The options that have names, with their letters. -/
def optionNames : List (String × Char) :=
  [("errexit", 'e'), ("noglob", 'f'), ("noexec", 'n'), ("xtrace", 'x'),
    ("verbose", 'v'), ("vi", 'V'), ("emacs", 'E'), ("noclobber", 'C'),
    ("allexport", 'a'), ("notify", 'b'), ("nounset", 'u')]

/-- Turn an option of the process on or off. -/
def setOption (value : Bool) (letter : Char) : Act Unit :=
  changeProcess fun process =>
    let others := process.options.filter (· != letter)
    { process with options := if value then letter :: others else others }

/-- Turn options on or off that letters name. -/
def setLetters (value : Bool) (letters : Bytes) : Act Unit := do
  for letter in letters do
    if (optionNames.map Prod.snd).contains letter || letter == 'm' then
      setOption value letter
    else if letter != 'o' then
      giveUp ("Illegal option ".toList ++ [if value then '-' else '+', letter])

/-- Set options and arguments. -/
def setOptions (arguments : List Bytes) : Act Unit := do
  match arguments with
  | ['-', '-'] :: others =>
      changeProcess fun process => { process with arguments := others }
  | ['-'] :: others =>
      if !others.isEmpty then
        changeProcess fun process => { process with arguments := others }
  | (sign :: letters) :: others =>
      if sign == '-' || sign == '+' then
        setLetters (sign == '-') letters
        if letters.contains 'o' then
          match others with
          | name :: others =>
              match optionNames.lookup (String.ofList name) with
              | some letter => setOption (sign == '-') letter
              | none => giveUp ("Illegal option -o ".toList ++ name)
              setOptions others
          | [] => pure ()
        else
          setOptions others
      else
        changeProcess fun process => { process with arguments := arguments }
  | [] :: _ => changeProcess fun process => { process with arguments := arguments }
  | [] => pure ()

/-- Forget variables or functions. -/
def unset (arguments : List Bytes) : Act Unit := do
  setStatus 0
  let dropFunctions := fun names : List Bytes =>
    changeProcess fun process =>
      { process with functions :=
          process.functions.filter fun function =>
            !names.contains function.1 }
  let dropVariables := fun names : List Bytes => do
    for name in names do
      if (← process).constants.contains name then
        giveUp (name ++ ": is read only".toList)
      else
        forget name
  match arguments with
  | ['-', 'f'] :: names => dropFunctions names
  | ['-', 'v'] :: names => dropVariables names
  | names => dropVariables names

/-- Drop the first arguments. -/
def shift (arguments : List Bytes) : Act Unit := do
  let count := ((arguments.head?).bind Bytes.toNat?).getD 1
  if count ≤ (← process).arguments.length then
    changeProcess fun process =>
      { process with arguments := process.arguments.drop count }
    setStatus 0
  else
    giveUp "can't shift that many".toList

/-- The name of a signal, or of the exit. -/
def trapName? (text : Bytes) : Option String :=
  match String.ofList text with
  | "0" | "EXIT" => some "EXIT"
  | name => (Signal.find? name).map Signal.name

/-- Say what is to be done on signals, or print that. -/
def setTraps (arguments : List Bytes) : Act Unit := do
  let arguments :=
    if arguments.head? == some ['-', '-'] then arguments.tail else arguments
  setStatus 0
  let (script?, names) :=
    match arguments with
    | [name] => (none, [name])
    | ['-'] :: names => (none, names)
    | script :: names =>
        if (Bytes.toNat? script).isSome then (none, arguments)
        else (some script, names)
    | [] => (none, [])
  if arguments.isEmpty then
    for (name, script) in (← process).traps.reverse do
      print ("trap -- ".toList ++ quoted script ++ ' ' :: name.toList ++ ['\n'])
  for text in names do
    match trapName? text with
    | none =>
        write 2 ("trap: ".toList ++ text ++ ": bad trap\n".toList)
        setStatus 1
    | some name =>
        changeProcess fun process =>
          let others := process.traps.filter fun trap => trap.1 != name
          { process with traps :=
              match script? with
              | some script => (name, script) :: others
              | none => others }

/-- Wait for background jobs. -/
def waitForJobs (arguments : List Bytes) : Act Unit := do
  let jobs := (← world).jobs
  let chosen := if arguments.isEmpty then jobs else
    jobs.filter fun job => arguments.contains (Bytes.ofNat job.process)
  for job in chosen do
    waitUntil job.finish
    match job.signal with
    | some signal =>
        if !arguments.isEmpty && !signal.isQuiet then
          write 2 (signal.description.toList ++ ['\n'])
    | none => pure ()
  if arguments.isEmpty then
    setStatus 0
  else
    setStatus ((chosen.getLast?.map Job.status).getD 127)

/-- What is left of an argument that holds option letters, from a place on. -/
def lettersFrom? (argument : Bytes) (place : Nat) : Option Bytes :=
  if place != 0 then
    some (argument.drop place)
  else
    match argument with
    | '-' :: first :: rest => if argument == ['-', '-'] then none else some (first :: rest)
    | _ => none

/-- Read the next option of arguments. -/
def readOption (arguments : List Bytes) : Act Unit := do
  match arguments with
  | letters :: name :: given =>
      let given ← if given.isEmpty then pure (← process).arguments else pure given
      let isQuiet := letters.head? == some ':'
      let index := (((← valueOf? "OPTIND".toList).bind Bytes.toNat?).getD 1) - 1
      let place := (← process).optionPlace
      let finish := fun (index place : Nat) => do
        bind "OPTIND".toList (Bytes.ofNat (index + 1))
        changeProcess fun process => { process with optionPlace := place }
      let argument := given[index]?.getD []
      match lettersFrom? argument place with
      | some (letter :: rest) =>
          let next := if rest.isEmpty then (index + 1, 0)
            else (index, argument.length - rest.length)
          let known := letters.dropWhile (· != letter)
          setStatus 0
          if letter == ':' || known.isEmpty then
            assign name ['?']
            if isQuiet then
              bind "OPTARG".toList [letter]
            else
              forget "OPTARG".toList
              write 2 ("Illegal option -".toList ++ [letter, '\n'])
            finish next.1 next.2
          else if known[1]? == some ':' then
            let value? := if rest.isEmpty then given[index + 1]? else some rest
            match value? with
            | some value =>
                bind "OPTARG".toList value
                assign name [letter]
                finish (if rest.isEmpty then index + 2 else index + 1) 0
            | none =>
                if isQuiet then
                  bind "OPTARG".toList [letter]
                  assign name [':']
                else
                  forget "OPTARG".toList
                  write 2 ("No arg for -".toList ++ letter :: " option\n".toList)
                  assign name ['?']
                finish (index + 1) 0
          else
            bind "OPTARG".toList []
            assign name [letter]
            finish next.1 next.2
      | _ =>
          assign name ['?']
          forget "OPTARG".toList
          finish (if argument == ['-', '-'] then index + 1 else index) 0
          setStatus 1
  | _ =>
      complain "Usage: getopts optstring var [arg...]".toList
      setStatus 2

/-- Answer a question about texts, numbers and files. -/
def answer (isBracket : Bool) (arguments : List Bytes) : Act Unit := do
  if isBracket && arguments.getLast? != some [']'] then
    complain "missing ]".toList
    setStatus 2
  else
    let arguments := if isBracket then arguments.dropLast else arguments
    match Condition.holds (← disk) (← process).directory arguments with
    | .ok holds => setStatus (if holds then 0 else 1)
    | .error failure =>
        complain failure.message
        setStatus 2

/-- A command with its arguments that is part of the shell and runs no other
command; tells whether there is one. -/
def run (name : String) (arguments : List Bytes) : Act Bool := do
  match name with
  | ":" | "true" | "ulimit" | "hash" | "alias" | "unalias" | "jobs" | "fg" | "bg" =>
      setStatus 0
  | "false" => setStatus 1
  | "echo" => setStatus 0; print (Format.echo arguments)
  | "printf" => printFormat arguments
  | "read" => readLine arguments
  | "cd" | "chdir" => changeDirectory arguments
  | "pwd" => printDirectory arguments
  | "exit" => leave .leaving arguments
  | "return" => leave .returning arguments
  | "break" => leaveLoops .breaking arguments
  | "continue" => leaveLoops .continuing arguments
  | "export" => declare name Process.exported expose arguments
  | "readonly" => declare name Process.constants protect arguments
  | "local" => declareLocal arguments
  | "set" => setStatus 0; setOptions arguments
  | "unset" => unset arguments
  | "shift" => shift arguments
  | "trap" => setTraps arguments
  | "wait" => waitForJobs arguments
  | "getopts" => readOption arguments
  | "umask" =>
      setStatus 0
      if arguments.isEmpty then
        print "0022\n".toList
  | "times" =>
      setStatus 0
      print "0m0.000000s 0m0.000000s\n0m0.000000s 0m0.000000s\n".toList
  | "test" => answer false arguments
  | "[" => answer true arguments
  | _ => return false
  return true

end Builtin
end Shell
end NotePress
