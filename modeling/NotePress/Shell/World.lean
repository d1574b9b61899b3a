import NotePress.Disk
import NotePress.Shell.Script
import NotePress.Shell.Signal

/-!
# What a script can see

All processes of a script share a world: the disk, the files that were opened, the
channels between them and a clock. Nothing takes time but waiting, so that what is
written at one time stands in the order in which it was written. A background job runs at once; the
clock is set back afterwards, and the job is remembered with the time of its end
and the channels that stay open until then.

The world comes to an end at a given time, or when too much was done without
waiting.
-/

namespace NotePress
namespace Shell

/-- What was written to a channel, newest first, with the times of writing. -/
abbrev Channel := List (Nat × Bytes)

/-- A file that was opened, with the place from which it is read and written on.
What is appended is written at the end, wherever that place is. -/
structure Opening where
  file : OpenFile
  offset : Nat := 0
  appends : Bool := false
  deriving DecidableEq, Repr, Inhabited

/-- Where a stream of a process leads. -/
inductive Stream
  | channel (index : Nat)
  | opening (index : Nat)
  | nothing
  /-- A directory, which can be opened but not read. -/
  | directory
  /-- The device that has no place for what is written. -/
  | full
  deriving DecidableEq, Repr, Inhabited

/-- A process in the background. -/
structure Job where
  process : Nat
  finish : Nat
  status : Nat
  /-- The signal that ended the process before its time. -/
  signal : Option Signal := none
  /-- The channels that stay open until the job is done. -/
  holds : List Nat
  deriving DecidableEq, Repr, Inhabited

/-- What all processes share. Times are in milliseconds. -/
structure World where
  disk : Disk
  openings : Array Opening := #[]
  channels : Array Channel
  clock : Nat := 0
  limit : Nat
  /-- How many more commands may run. -/
  patience : Nat
  jobs : List Job := []
  firstProcess : Nat
  nextProcess : Nat
  /-- The signal that ended the first process. -/
  killed : Option Signal := none
  deriving Inhabited

namespace World

/-- The first process reads from this channel. -/
def input : Nat := 0

/-- The first process prints to this channel. -/
def output : Nat := 1

/-- The first process complains to this channel. -/
def errors : Nat := 2

/-- Whether nothing more happens. -/
def isOver (world : World) : Bool :=
  world.limit ≤ world.clock || world.killed.isSome

/-- The world after its time ran out. -/
def runOut (world : World) : World :=
  { world with clock := max world.clock world.limit }

/-- The world at a later time. -/
def wait (world : World) (time : Nat) : World :=
  { world with clock := max world.clock time }

/-- The world with a new channel that holds some bytes, and its index. -/
def newChannel (world : World) (bytes : Bytes) : Nat × World :=
  (world.channels.size,
    { world with channels := world.channels.push [(0, bytes)] })

/-- What was written to a channel, in the order of the times of writing. -/
def content (world : World) (index : Nat) : Bytes :=
  ((world.channels.getD index []).reverse.mergeSort
    fun left right => left.1 ≤ right.1).flatMap Prod.snd

/-- The time of the last writing to a channel. -/
def lastWriting (world : World) (index : Nat) : Nat :=
  (world.channels.getD index []).foldl
    (fun time chunk => max time chunk.1) 0

/-- The world with a channel emptied but for some bytes. -/
def setContent (world : World) (index : Nat) (bytes : Bytes) : World :=
  { world with channels := world.channels.set! index [(0, bytes)] }

/-- The world with a file opened, and the index of the opening. -/
def newOpening
    (world : World)
    (opening : Opening) : Nat × World :=
  (world.openings.size,
    { world with openings := world.openings.push opening })

/-- The bytes of an open file. -/
def bytesOf (world : World) (file : OpenFile) : ByteArray :=
  match file with
  | none => .empty
  | some index => (world.disk.node index).content.bytes

/-- The world with the place of an opening moved. -/
def seek (world : World) (index offset : Nat) : World :=
  { world with openings :=
      world.openings.modify index fun opening =>
        { opening with offset := offset } }

/-- The bytes of an opening from its place on. -/
def remaining (world : World) (index : Nat) : Bytes :=
  let opening := world.openings.getD index {file := none}
  let bytes := world.bytesOf opening.file
  Bytes.ofContent (bytes.extract opening.offset bytes.size)

/-- The world after bytes are written to a stream. -/
def write (world : World) (stream : Stream) (bytes : Bytes) : World :=
  match stream with
  | .channel index =>
      { world with channels :=
          world.channels.modify index ((world.clock, bytes) :: ·) }
  | .opening index =>
      if bytes.isEmpty then
        world
      else
        let opening := world.openings.getD index {file := none}
        let offset :=
          if opening.appends then (world.bytesOf opening.file).size
          else opening.offset
        let written := bytes.toByteArray
        { world with
          disk := world.disk.writeAt opening.file offset written }.seek index
            (offset + written.size)
  | .nothing | .directory | .full => world

/-- The time at which the last job that holds a channel is done. -/
def openUntil (world : World) (index : Nat) : Nat :=
  world.jobs.foldl
    (fun time job => if job.holds.contains index then max time job.finish else time)
    0

end World

/-- Where a script goes on after a command. -/
inductive Flow
  | going
  | leaving
  /-- Nowhere, after something that a script must not do. -/
  | failing
  | returning
  | breaking (levels : Nat)
  | continuing (levels : Nat)
  deriving DecidableEq, Repr, Inhabited

/-- What one process of a script has for itself. -/
structure Process where
  number : Nat
  script : Bytes
  /-- The line of the script that runs. -/
  line : Nat := 1
  /-- The command of the shell in whose name complaints are made. -/
  speaker : Bytes := []
  bindings : List (Bytes × Bytes) := []
  /-- The names of the variables that programs get to see. -/
  exported : List Bytes := []
  /-- The names of the variables that may not change any more. -/
  constants : List Bytes := []
  /-- What the variables that are local to the running function were before;
  `none` outside functions. -/
  shadowed : Option (List (Bytes × Option Bytes)) := none
  functions : List (Bytes × Command) := []
  arguments : List Bytes := []
  streams : List (Nat × Stream)
  directory : Path
  status : Nat := 0
  /-- The status of the last command whose output was put into a word. -/
  outputStatus : Option Nat := none
  flow : Flow := .going
  /-- How many loops the running command stands in. -/
  loops : Nat := 0
  /-- How many functions run one another. -/
  calls : Nat := 0
  /-- The signal that ended the process. -/
  killed : Option Signal := none
  /-- The letters of the options that are on. -/
  options : List Char := []
  /-- Whether the command that runs is a condition, and may fail. -/
  guarded : Bool := false
  lastJob : Option Nat := none
  /-- How far into the current argument `getopts` has read. -/
  optionPlace : Nat := 0
  /-- The commands to run on signals, by name, and at the exit. -/
  traps : List (String × Bytes) := []

instance : Inhabited Process := ⟨{
  number := 0
  script := []
  streams := []
  directory := ⟨"/"⟩ }⟩

/-- Everything that a command may change. -/
structure State where
  world : World
  process : Process
  deriving Inhabited

end Shell
end NotePress
