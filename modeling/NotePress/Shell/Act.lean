import NotePress.Shell.Grammar
import NotePress.Shell.Printed
import NotePress.Shell.World

/-!
# The steps of a script

A step looks at what a script can see and changes it. Here are the steps that all
commands are made of: reading and writing streams, finding files, looking up and
assigning parameters, and complaining.
-/

namespace NotePress
namespace Shell

/-- A step of a script. -/
abbrev Act := StateM State

namespace Act

/-- Look at the process. -/
def process : Act Process :=
  return (← get).process

/-- Look at the world. -/
def world : Act World :=
  return (← get).world

/-- Change the process. -/
def changeProcess (change : Process → Process) : Act Unit :=
  modify fun state => { state with process := change state.process }

/-- Change the world. -/
def changeWorld (change : World → World) : Act Unit :=
  modify fun state => { state with world := change state.world }

/-- Look at the disk. -/
def disk : Act Disk :=
  return (← world).disk

/-- Change the disk. -/
def changeDisk (change : Disk → Disk) : Act Unit :=
  changeWorld fun world => { world with disk := change world.disk }

/-- Remember the status of a command. -/
def setStatus (status : Nat) : Act Unit :=
  changeProcess fun process => { process with status := status % 256 }

/-- Go on somewhere else. -/
def setFlow (flow : Flow) : Act Unit :=
  changeProcess fun process => { process with flow := flow }

/-- Whether the next command does not run. -/
def isStopped : Act Bool := do
  return (← world).isOver || (← process).flow != .going

/-- Whether an option is on. -/
def hasOption (letter : Char) : Act Bool :=
  return (← process).options.contains letter

/-- Where a stream leads. -/
def stream? (descriptor : Nat) : Act (Option Stream) :=
  return (← process).streams.lookup descriptor

/-- Write bytes to a stream, if it is open. -/
def write (descriptor : Nat) (bytes : Bytes) : Act Unit := do
  match ← stream? descriptor with
  | some stream => changeWorld (·.write stream bytes)
  | none => pure ()

/-- Complain about something in the script, in the name of the command that
speaks. -/
def complain (message : Bytes) : Act Unit := do
  let process ← process
  let speaker :=
    if process.speaker.isEmpty then [] else process.speaker ++ [':', ' ']
  write 2 (process.script ++ [':', ' '] ++ Bytes.ofNat process.line ++ [':', ' '] ++
    speaker ++ message ++ ['\n'])

/-- Why nothing can be printed. -/
def outputFailure? : Act (Option String) := do
  match ← stream? 1 with
  | none => return some "Bad file descriptor"
  | some .full => return some "No space left on device"
  | some _ => return none

/-- Print bytes. A command that has nowhere to print to fails. -/
def print (bytes : Bytes) : Act Unit := do
  write 1 bytes
  if (← outputFailure?).isSome && !bytes.isEmpty then
    let speaker := (← process).speaker
    complain (speaker ++ ": I/O error".toList)
    setStatus 1

/-- Take a step in the name of a command. -/
def speakingAs (name : Bytes) (step : Act α) : Act α := do
  let before := (← process).speaker
  changeProcess fun process => { process with speaker := name }
  let answer ← step
  changeProcess fun process => { process with speaker := before }
  return answer

/-- End the process after something that a script must not do. -/
def giveUp (message : Bytes) : Act Unit := do
  complain message
  setStatus 2
  setFlow .failing

/-- Jump to a time, and let nothing happen before it. -/
def waitUntil (time : Nat) : Act Unit :=
  changeWorld (·.wait time)

/-- Wait until no job holds a channel. -/
def waitForChannel (index : Nat) : Act Unit := do
  waitUntil ((← world).openUntil index)

/-- What can be read from a stream. -/
def readable (descriptor : Nat) : Act Bytes := do
  match ← stream? descriptor with
  | some (.channel index) =>
      waitUntil ((← world).lastWriting index)
      return (← world).content index
  | some (.opening index) => return (← world).remaining index
  | _ => return []

/-- Take some of the bytes that can be read from a stream, given all of them. -/
def consume (descriptor : Nat) (all : Bytes) (count : Nat) : Act Unit := do
  match ← stream? descriptor with
  | some (.channel index) => changeWorld (·.setContent index (all.drop count))
  | some (.opening index) =>
      let offset := ((← world).openings[index]?.map Opening.offset).getD 0
      changeWorld (·.seek index (offset + count))
  | _ => pure ()

/-- Take everything from a stream. -/
def takeAll (descriptor : Nat) : Act Bytes := do
  let bytes ← readable descriptor
  consume descriptor bytes bytes.length
  return bytes

/-- The path of a file, as seen from the directory of the process. The empty path
stays empty. -/
def pathOf (file : Bytes) : Act Path := do
  if file.isEmpty then
    return ⟨""⟩
  else
    return Path.join (← process).directory ⟨Bytes.toText file⟩

/-- The location of a file, behind links. -/
def locate (file : Bytes) : Act (Except Disk.Failure Location) := do
  return (← disk).locate (← pathOf file)

/-- The location of a name, which may be that of a link. -/
def locateName (file : Bytes) : Act (Except Disk.Failure Location) := do
  return (← disk).locateName (← pathOf file)

/-- What is at a path, behind links. -/
def lookup? (file : Bytes) : Act (Option Entry) := do
  return (← disk).lookup? (← pathOf file)

/-- How much a program that prints for ever can print before its reader ends. -/
def endlessSize : Nat := Nat.pow 2 20

/-- The file that holds zero bytes without end. -/
def zeros : Bytes := "/dev/zero".toList

/-- The number of the stream that a file stands for. -/
def descriptorOf? (file : Bytes) : Option Nat :=
  match String.ofList file with
  | "/dev/stdin" => some 0
  | "/dev/stdout" => some 1
  | "/dev/stderr" => some 2
  | _ =>
      if "/dev/fd/".toList.isPrefixOf file then
        Bytes.toNat? (file.drop "/dev/fd/".length)
      else
        none

/-- Open a file for writing, as a stream. -/
def openFile (file : Bytes) (appends : Bool) : Act (Except Disk.Failure Stream) := do
  match ← locate file with
  | .error failure => return .error failure
  | .ok location =>
      match (← disk).openAt location with
      | .error failure => return .error failure
      | .ok (opened, disk) =>
          changeDisk fun _ => if appends then disk else disk.clear opened
          let (index, world) :=
            (← world).newOpening { file := opened, appends := appends }
          changeWorld fun _ => world
          return .ok (.opening index)

/-- The contents of files, as programs see them. -/
def files : Act Files := do
  let directory := (← process).directory
  let disk ← disk
  return fun file =>
    if file = zeros then
      .ok (List.replicate endlessSize '\x00')
    else
      let path :=
        if file.isEmpty then ⟨""⟩ else Path.join directory ⟨Bytes.toText file⟩
      match disk.locate path with
      | .error failure => .error failure.description
      | .ok location =>
          match disk.entryAt? location with
          | none => .error Disk.Failure.notFound.description
          | some .directory => .error Disk.Failure.isDirectory.description
          | some (.file node) =>
              .ok (Bytes.ofContent (disk.node node).content.bytes)
          | some _ => .ok []

/-- The value of a variable. -/
def valueOf? (name : Bytes) : Act (Option Bytes) :=
  return (← process).bindings.lookup name

/-- Give a variable a value, even if it may not change. -/
def bind (name value : Bytes) : Act Unit := do
  let exports ← hasOption 'a'
  changeProcess fun process =>
    { process with
      bindings := (name, value) :: process.bindings.filter (·.1 != name)
      exported :=
        if exports && !process.exported.contains name then
          name :: process.exported
        else
          process.exported
      optionPlace :=
        if name == "OPTIND".toList then 0 else process.optionPlace }

/-- Assign to a variable, unless it may not change. -/
def assign (name value : Bytes) : Act Unit := do
  if (← process).constants.contains name then
    giveUp (name ++ ": is read only".toList)
  else
    bind name value

/-- Forget a variable. -/
def forget (name : Bytes) : Act Unit :=
  changeProcess fun process =>
    { process with
      bindings := process.bindings.filter (·.1 != name)
      exported := process.exported.filter (· != name) }

/-- Let programs see a variable. -/
def expose (name : Bytes) : Act Unit :=
  changeProcess fun process =>
    { process with
      exported :=
        if process.exported.contains name then process.exported
        else name :: process.exported }

/-- Give a variable the value that it had, and forget it if it had none. -/
def putBack (name : Bytes) : Option Bytes → Act Unit
  | some value => bind name value
  | none => forget name

/-- The separators of fields. -/
def separators : Act Bytes :=
  return (← valueOf? "IFS".toList).getD [' ', '\t', '\n']

/-- The value of a parameter that stands for one text. -/
def parameter? (name : Bytes) : Act (Option Bytes) := do
  let process ← process
  match name with
  | ['#'] => return some (Bytes.ofNat process.arguments.length)
  | ['?'] => return some (Bytes.ofNat process.status)
  | ['$'] => return some (Bytes.ofNat process.number)
  | ['!'] => return process.lastJob.map Bytes.ofNat
  | ['-'] =>
      return some ("ubaCEVvxnfe".toList.filter process.options.contains)
  | ['0'] => return some process.script
  | _ =>
      match name.toNat? with
      | some index => return process.arguments[index - 1]?
      | none => return process.bindings.lookup name

end Act
end Shell
end NotePress
