import NotePress.Shell.Builtin
import NotePress.Shell.Difference
import NotePress.Shell.Redirect

/-!
# Programs

Which programs there are, in which directories they are, what is started when a
file is executed, and what the programs do that start no others.
-/

namespace NotePress
namespace Shell
namespace Program

open Act

/-! ## Where programs are -/

/-- The programs that run scripts. -/
def shells : List String := ["sh", "dash", "bash"]

/-- All programs. -/
def names : List String :=
  shells ++ Filter.names ++ Housekeeping.names ++
    ["[", "cmp", "dd", "diff", "echo", "env", "find", "kill", "nice", "nohup", "printenv",
      "printf", "pwd", "setsid", "sleep", "test", "timeout", "which", "xargs", "yes"]

/-- The directory with the programs. -/
def home : Location := ["usr", "bin"]

/-- The directories, links and devices that every system has. -/
def system : List (Location × Entry) :=
  [["dev"], ["etc"], ["home"], ["opt"], ["root"], ["tmp"], ["usr"], home,
      ["usr", "local"], ["usr", "local", "bin"], ["usr", "local", "sbin"],
      ["usr", "sbin"], ["var"], ["var", "tmp"]].map (fun location =>
    (location, .directory)) ++
  [(["bin"], .link "usr/bin"), (["sbin"], .link "usr/sbin")] ++
  ["null", "zero", "full", "random", "urandom", "tty"].map fun name =>
    (["dev", name], .device)

/-- The disk with the programs, and with what every system has. -/
def install (disk : Disk) : Disk :=
  let furnished : Disk :=
    { disk with
      entries := disk.entries ++ system.filter fun (location, _) =>
        (disk.entries.lookup location).isNone }
  names.foldl
    (fun disk name =>
      disk.addFile (home ++ [name]) { mode := 0o755, program := some name })
    furnished

/-- Where programs are looked for if nothing else is said. -/
def usualPlaces : String :=
  "/usr/local/sbin:/usr/local/bin:/usr/sbin:/usr/bin:/sbin:/bin"

/-- What starts when a file is executed: a program with arguments. -/
structure Launch where
  program : String
  arguments : List Bytes
  deriving DecidableEq, Repr, Inhabited

/-- The program that the first line of a script names, with an argument if there
is one. -/
def interpreterOf? (script : Bytes) : Option (Bytes × Option Bytes) :=
  match script with
  | '#' :: '!' :: rest =>
      let isBlank := fun byte : Char => byte == ' ' || byte == '\t'
      let line := (rest.takeWhile (· != '\n')).dropWhile isBlank
      let file := line.takeWhile fun byte => !isBlank byte
      let argument := (line.drop file.length).dropWhile isBlank
      let argument := (argument.reverse.dropWhile isBlank).reverse
      if file.isEmpty then none
      else some (file, if argument.isEmpty then none else some argument)
  | _ => none

/-- How many scripts may run one another. -/
def maximalScripts : Nat := 5

/-- What starts when a file is executed. -/
def launch
    (disk : Disk)
    (directory : Path)
    (depth : Nat)
    (file : Bytes)
    (arguments : List Bytes) : Except Disk.Failure Launch :=
  match depth with
  | 0 => .error .tooManyLinks
  | depth + 1 =>
      let path : Path :=
        if file.isEmpty then ⟨""⟩ else Path.join directory ⟨file.toText⟩
      match disk.locate path with
      | .error failure => .error failure
      | .ok location =>
          match disk.entryAt? location with
          | none => .error .notFound
          | some (.file index) =>
              let node := disk.node index
              if !node.isExecutable then
                .error .denied
              else
                match node.program with
                | some program => .ok ⟨program, arguments⟩
                | none =>
                    match interpreterOf? (Bytes.ofContent node.content.bytes) with
                    | none => .error .noProgram
                    | some (interpreter, argument?) =>
                        launch disk directory depth interpreter
                          (argument?.toList ++ file :: arguments)
          | some _ => .error .denied

/-- The places in which a name is looked for: it names a file itself if it has a
slash, and is a name in some directories otherwise. -/
def candidates (places name : Bytes) : List Bytes :=
  if name.contains '/' then
    [name]
  else
    (Text.splitAt ':' places).map fun place =>
      if place.isEmpty then name else Housekeeping.within place name

/-- Look for a file to execute in places, one after the other. A file that nobody
may execute is passed over; it is told about if there is no other. -/
def choose
    (disk : Disk)
    (directory : Path)
    (arguments : List Bytes)
    (failure : Disk.Failure) :
    List Bytes → Except (Bytes × Disk.Failure) (Bytes × Launch)
  | [] => .error ([], failure)
  | place :: others =>
      match launch disk directory maximalScripts place arguments with
      | .ok launched => .ok (place, launched)
      | .error found =>
          if found == .denied then
            choose disk directory arguments found others
          else if found == .notFound || found == .notDirectory then
            choose disk directory arguments
              (if failure == .denied then failure else found) others
          else
            .error (place, found)

/-- Look for the file to execute that a name stands for. -/
def search
    (disk : Disk)
    (directory : Path)
    (places name : Bytes)
    (arguments : List Bytes) :
    Except (Bytes × Disk.Failure) (Bytes × Launch) :=
  if name.isEmpty then
    .error ([], .notFound)
  else
    choose disk directory arguments .notFound (candidates places name)

/-! ## What programs do -/

/-- The number of milliseconds that a time tells. -/
def milliseconds? (time : Bytes) : Option Nat :=
  let whole := time.takeWhile (·.isDigit)
  let rest := time.drop whole.length
  let (fraction, unit) :=
    match rest with
    | '.' :: rest => (rest.takeWhile Char.isDigit, rest.dropWhile Char.isDigit)
    | rest => ([], rest)
  let scale? :=
    match unit with
    | [] | ['s'] => some 1
    | ['m'] => some 60
    | ['h'] => some 3600
    | ['d'] => some 86400
    | _ => none
  if whole.isEmpty && fraction.isEmpty then
    none
  else
    scale?.map fun scale =>
      scale * (1000 * (Bytes.toNat? whole).getD 0 +
        (Bytes.toNat? ((fraction ++ ['0', '0', '0']).take 3)).getD 0)

/-- Wait. -/
def sleep (arguments : List Bytes) : Act Unit := do
  setStatus 0
  if arguments.isEmpty then
    Housekeeping.failUsage "sleep" "missing operand".toList
  else if arguments.any (· == "infinity".toList) then
    changeWorld World.runOut
  else
    match arguments.find? fun time => (milliseconds? time).isNone with
    | some time =>
        Housekeeping.failUsage "sleep"
          ("invalid time interval ".toList ++ Filter.inQuotes time)
    | none =>
        let time := arguments.foldl
          (fun sum time => sum + (milliseconds? time).getD 0) 0
        waitUntil ((← world).clock + time)

/-- Whether what is printed goes to a reader that can end. -/
def hasReader : Act Bool := do
  match ← stream? 1 with
  | some (.channel index) => return index != World.output && index != World.errors
  | _ => return false

/-- Print a line for ever. That ends only where the reader ends. -/
def printForEver (arguments : List Bytes) : Act Unit := do
  let line :=
    (if arguments.isEmpty then ['y'] else [' '].intercalate arguments) ++ ['\n']
  if (← stream? 1).isNone then
    setStatus 1
  else if ← hasReader then
    write 1 (List.replicate (endlessSize / line.length + 1) line).flatten
    setStatus 141
  else
    changeWorld World.runOut

/-- Print arguments with blanks between them. Escapes count only if asked for. -/
def echo (arguments : List Bytes) : Act Unit := do
  let isOption := fun argument : Bytes =>
    match argument with
    | '-' :: letter :: letters => (letter :: letters).all "neE".toList.contains
    | _ => false
  let options := (arguments.takeWhile isOption).flatten
  let text := [' '].intercalate (arguments.dropWhile isOption)
  setStatus 0
  if options.contains 'e' then
    print (Format.echo ((if options.contains 'n' then [['-', 'n']] else []) ++ [text]))
  else
    print (text ++ (if options.contains 'n' then [] else ['\n']))

/-- What a filter can read, given whether it asks for its input. -/
def supply (readsInput : Bool) : Act Supply := do
  let files ← files
  let input : Except String Bytes ←
    match ← stream? 0 with
    | none => pure (.error "Bad file descriptor")
    | some .directory => pure (.error Disk.Failure.isDirectory.description)
    | some _ => do
        let bytes ← if readsInput then readable 0 else pure []
        pure (.ok bytes)
  let isFile :=
    match ← stream? 0 with
    | some (.opening _) => true
    | _ => false
  let directory := (← process).directory
  let disk ← disk
  let below? := fun file : Bytes =>
    match disk.locate (Path.join directory ⟨Bytes.toText file⟩) with
    | .ok location =>
        if disk.entryAt? location = some .directory then
          some (Housekeeping.filesBelow (disk.entries.length + 1) disk file location)
        else
          none
    | .error _ => none
  return ⟨input, isFile, files, below?⟩

/-- Write what a program printed. The output goes to a file instead if one is
named. -/
def deliver
    (name : String)
    (target? : Option Bytes)
    (printed : Printed) : Act Unit := do
  setStatus printed.status
  match target? with
  | some target =>
      write 2 (printed.textOf 2)
      match ← openFile target false with
      | .ok stream => changeWorld (·.write stream (printed.textOf 1))
      | .error failure =>
          Housekeeping.fail name ((if name == "sort" then "open failed: ".toList
            else []) ++ target ++ ": ".toList ++ failure.description.toList)
          if name == "sort" then
            setStatus 2
  | none =>
      for (descriptor, text) in printed.texts do
        write descriptor text

/-- Run a filter; tells whether there is one of that name. What it reads is taken
from its input, but `head` leaves what it does not print. What has no end is printed
only to who does not want it all. -/
def runFilter (name : String) (arguments : List Bytes) : Act Bool := do
  match Filter.prepare? name arguments with
  | none => return false
  | some (.error printed) =>
      deliver name none printed
      return true
  | some (.ok (filter, options)) =>
      let supply ← supply (filter.reads options)
      let printed := filter.print supply options
      let size := (printed.textOf 1).length
      match supply.input with
      | .ok input =>
          consume 0 input
            (if supply.isFile && name == "head" then min size input.length
            else input.length)
      | .error _ => pure ()
      let target? := filter.target? options
      if endlessSize ≤ size && target?.isNone && !(← hasReader) then
        changeWorld World.runOut
      else
        deliver name target? printed
      return true

/-- Edit files in their places. A file with what was there before stays if an ending
for its name is given. -/
def editInPlace (arguments : List Bytes) : Act Unit := do
  let isSign := fun argument : Bytes => "-i".toList.isPrefixOf argument
  let ending := ((arguments.find? isSign).getD []).drop 2
  let arguments := arguments.filter fun argument => !isSign argument
  match Filter.prepare? "sed" arguments with
  | some (.ok (filter, options)) =>
      setStatus 0
      let (script, operands) := Filter.editScript options
      for operand in operands do
        let printed := filter.print (← supply false)
          ⟨('e', script) :: options.given.filter (·.1 != 'e'), [operand]⟩
        write 2 (printed.textOf 2)
        if (printed.textOf 2).isEmpty then
          match ← locate operand, ← locate (operand ++ ending) with
          | .ok location, .ok kept =>
              let node := ((← disk).nodeAt? location).getD {}
              if !ending.isEmpty then
                changeDisk (Housekeeping.placeCopy node kept)
              changeDisk fun disk =>
                disk.addFile location
                  { node with content := ⟨(printed.textOf 1).toByteArray⟩ }
          | _, _ => pure ()
        else
          setStatus printed.status
  | some (.error printed) => deliver "sed" none printed
  | none => pure ()

/-- Take the steps of a program. Without a place for its output, the program goes on,
and says in the end that it could not write. -/
def checkingOutput (name : String) (step : Act α) : Act α := do
  match ← outputFailure? with
  | none => step
  | some cause =>
      let before ← stream? 1
      let (index, opened) := (← world).newChannel []
      changeWorld fun _ => opened
      Redirect.setStream 1 (some (.channel index))
      let answer ← step
      Redirect.setStream 1 before
      if !((← world).content index).isEmpty then
        let isUnbuffered := name == "yes" || (name == "cat" && before.isNone)
        Housekeeping.fail name
          ((if isUnbuffered then "standard output: " else "write error: ").toList ++
            cause.toList)
        if name == "grep" then
          setStatus 2
        else if name == "sed" then
          setStatus 4
      return answer

/-- Copy some blocks of bytes to a place, and tell how many. -/
def copyBlocks (arguments : List Bytes) : Act Unit := do
  let settings := arguments.map fun argument =>
    (String.ofList (argument.takeWhile (· != '=')),
      (argument.dropWhile (· != '=')).drop 1)
  let known := ["if", "of", "bs", "ibs", "obs", "count", "skip", "seek", "conv", "status"]
  let number := fun (name : String) (usual : Nat) =>
    ((settings.lookup name).bind Filter.amount?).getD usual
  match settings.find? fun (name, _) => !known.contains name with
  | some (name, _) =>
      Housekeeping.failUsage "dd"
        ("unrecognized operand ".toList ++ Filter.inQuotes name.toList)
  | none =>
      let size := max (number "bs" (number "ibs" 512)) 1
      let skipped := number "skip" 0 * size
      let content ←
        match settings.lookup "if" with
        | some file => pure ((← files) file)
        | none => pure (.ok (← readable 0))
      match content with
      | .error cause =>
          Housekeeping.fail "dd" ("failed to open ".toList ++
            Filter.inQuotes ((settings.lookup "if").getD []) ++ ": ".toList ++
            cause.toList)
      | .ok content =>
          let rest := content.drop skipped
          let bytes :=
            match (settings.lookup "count").bind Filter.amount? with
            | some count => rest.take (count * size)
            | none => rest
          if (settings.lookup "if").isNone then
            consume 0 content (skipped + bytes.length)
          setStatus 0
          match settings.lookup "of" with
          | none => print bytes
          | some file =>
              let before :=
                match (← files) file with
                | .ok before => before
                | .error _ => []
              let start := number "seek" 0 * size
              let kept := before.take start
              let kept := kept ++ List.replicate (start - kept.length) '\x00'
              let behind :=
                if settings.lookup "conv" == some "notrunc".toList then
                  before.drop (start + bytes.length)
                else
                  []
              match ← openFile file false with
              | .ok stream => changeWorld (·.write stream (kept ++ bytes ++ behind))
              | .error failure => Housekeeping.failAt "dd" "failed to open" file failure
          let records :=
            Bytes.ofNat (bytes.length / size) ++
              (if bytes.length % size = 0 then "+0" else "+1").toList
          let status := settings.lookup "status"
          if status != some "none".toList then
            write 2 (records ++ " records in\n".toList ++ records ++
              " records out\n".toList)
            if status != some "noxfer".toList then
              write 2 (Bytes.ofNat bytes.length ++ " bytes copied, 0 s\n".toList)

/-- Print the values of variables that programs see. -/
def printVariables (names : List Bytes) : Act Unit := do
  let process ← process
  let seen := process.bindings.reverse.filter fun (name, _) =>
    process.exported.contains name
  let chosen := names.map fun name => seen.lookup name
  setStatus (if chosen.all Option.isSome then 0 else 1)
  if names.isEmpty then
    print (Bytes.unlines (seen.map fun (name, value) => name ++ '=' :: value))
  else
    print (Bytes.unlines (chosen.filterMap id))

/-- Print where programs are. -/
def printPlaces (names : List Bytes) : Act Unit := do
  let names := names.filter fun name => name.head? != some '-'
  let places := (← valueOf? "PATH".toList).getD usualPlaces.toList
  let mut status := if names.isEmpty then 1 else 0
  for name in names do
    match search (← disk) (← process).directory places name [] with
    | .ok (place, _) => print (place ++ ['\n'])
    | .error _ => status := 1
  setStatus status

/-- Take the steps of a program that starts no others; tells whether there is
one. -/
def perform (name : String) (arguments : List Bytes) : Act Bool := do
  match name with
  | "sleep" => sleep arguments
  | "yes" => printForEver arguments
  | "echo" => echo arguments
  | "dd" => copyBlocks arguments
  | "cmp" => Difference.compare arguments
  | "diff" => Difference.tellOf arguments
  | "printenv" => printVariables arguments
  | "which" => printPlaces arguments
  | "printf" | "pwd" | "test" | "[" =>
      discard (Builtin.run name arguments)
  | "sed" =>
      if arguments.any ("-i".toList.isPrefixOf ·) then
        editInPlace arguments
      else
        discard (runFilter name arguments)
  | _ =>
      if ← Housekeeping.run name arguments then
        return true
      else
        return ← runFilter name arguments
  return true

/-- Run a program that starts no others; tells whether there is one. -/
def run (name : String) (arguments : List Bytes) : Act Bool :=
  checkingOutput name (perform name arguments)

end Program
end Shell
end NotePress
