import NotePress.Shell.Act

/-!
# Redirecting streams

A redirection puts another stream in the place of a stream of a process: a file
that is opened, another stream of the process, or a text that stands in the
script.
-/

namespace NotePress
namespace Shell
namespace Redirect

open Act

/-- Put a stream in the place of another. -/
def setStream (descriptor : Nat) (stream : Option Stream) : Act Unit :=
  changeProcess fun process =>
    let others := process.streams.filter (·.1 != descriptor)
    { process with streams :=
        match stream with
        | some stream => (descriptor, stream) :: others
        | none => others }

/-- The channels that the printed and the complained text go to. -/
def heldChannels : Act (List Nat) := do
  let streams := (← process).streams
  return [1, 2].filterMap fun descriptor =>
    match streams.lookup descriptor with
    | some (.channel index) => some index
    | _ => none

/-- Put a new channel that holds some bytes in the place of a stream. -/
def feed (descriptor : Nat) (bytes : Bytes) : Act Unit := do
  let (index, world) := (← world).newChannel bytes
  changeWorld fun _ => world
  setStream descriptor (some (.channel index))

/-- Put an opened file in the place of a stream. -/
def setOpening (descriptor : Nat) (opening : Opening) : Act Unit := do
  let (index, world) := (← world).newOpening opening
  changeWorld fun _ => world
  setStream descriptor (some (.opening index))

/-- Say that a file cannot be opened or made, and why. -/
def refuse
    (doing : String)
    (file : Bytes)
    (missing : String)
    (failure : Disk.Failure) : Act Bool := do
  complain (doing.toList ++ ' ' :: file ++ ": ".toList ++
    (if failure == .notFound || failure == .notDirectory then missing
    else failure.description).toList)
  return false

/-- Open a file for reading; tells whether that worked. -/
def openInput (descriptor : Nat) (file : Bytes) : Act Bool := do
  if file == zeros then
    feed descriptor (List.replicate endlessSize '\x00')
    return true
  else
    let refused := refuse "cannot open" file "No such file"
    match ← locate file with
    | .error failure => refused failure
    | .ok location =>
        match (← disk).entryAt? location with
        | none => refused .notFound
        | some (.file index) =>
            setOpening descriptor { file := some index }
            return true
        | some .directory =>
            setStream descriptor (some .directory)
            return true
        | some _ =>
            setStream descriptor (some .nothing)
            return true

/-- Open a file for writing; tells whether that worked. A protected file is not
emptied. -/
def openOutput
    (descriptor : Nat)
    (kind : RedirectionKind)
    (file : Bytes) : Act Bool := do
  let refused := refuse "cannot create" file "Directory nonexistent"
  if file == "/dev/full".toList then
    setStream descriptor (some .full)
    return true
  match ← locate file with
  | .error failure => refused failure
  | .ok location =>
      let isFile := ((← disk).nodeAt? location).isSome
      if kind == .output && isFile && (← hasOption 'C') then
        refused .occupied
      else
        match (← disk).openAt location with
        | .error failure => refused failure
        | .ok (opened, disk) =>
            changeDisk fun _ =>
              if kind == .output || kind == .overwrite then disk.clear opened
              else disk
            setOpening descriptor { file := opened, appends := kind == .append }
            return true

/-- Open the stream that a redirection asks for; tells whether that worked. -/
def openStream
    (descriptor : Nat)
    (kind : RedirectionKind)
    (target : Bytes) : Act Bool := do
  match kind, descriptorOf? target with
  | .here, _ =>
      feed descriptor target
      return true
  | .duplicate, _ =>
      match target with
      | ['-'] =>
          setStream descriptor none
          return true
      | [digit] =>
          if digit.isDigit then
            match ← stream? (digit.toNat - '0'.toNat) with
            | none =>
                complain (target ++ ": Bad file descriptor".toList)
                return false
            | stream =>
                setStream descriptor stream
                return true
          else
            giveUp "Syntax error: Bad fd number".toList
            return false
      | _ =>
          giveUp "Syntax error: Bad fd number".toList
          return false
  | _, some source =>
      let stream ← stream? source
      setStream descriptor stream
      return stream.isSome
  | .input, none => openInput descriptor target
  | _, none => openOutput descriptor kind target

end Redirect
end Shell
end NotePress
