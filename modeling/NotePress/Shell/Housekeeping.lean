import NotePress.Shell.Act
import NotePress.Shell.Filter

/-!
# Looking after files

Programs that list, make, copy, move, link and remove files. A program goes on
after a file that it can do nothing with; it says why, and fails in the end.
-/

namespace NotePress
namespace Shell
namespace Housekeeping

open Act
open NotePress.Shell.Filter (inQuotes)

/-- What the arguments of a program ask for. -/
structure Request where
  letters : Bytes := []
  operands : List Bytes := []
  deriving DecidableEq, Repr, Inhabited

/-- The request that arguments make. Options may stand behind operands, and a long
one counts as its first letter. -/
def Request.ofArguments : List Bytes → Request
  | [] => {}
  | ['-', '-'] :: operands => { operands := operands }
  | ('-' :: '-' :: letter :: _) :: others =>
      let request := Request.ofArguments others
      { request with letters := letter :: request.letters }
  | ('-' :: letter :: letters) :: others =>
      let request := Request.ofArguments others
      { request with letters := letter :: letters ++ request.letters }
  | operand :: others =>
      let request := Request.ofArguments others
      { request with operands := operand :: request.operands }

/-- Whether a request has an option. -/
def Request.has (request : Request) (letter : Char) : Bool :=
  request.letters.contains letter

/-- Say something in the name of a program, which fails. -/
def fail (program : String) (message : Bytes) : Act Unit := do
  write 2 (program.toList ++ ": ".toList ++ message ++ ['\n'])
  setStatus 1

/-- Say that something cannot be done with a file, and why. -/
def failAt
    (program doing : String)
    (file : Bytes)
    (failure : Disk.Failure) : Act Unit :=
  fail program (doing.toList ++ ' ' :: inQuotes file ++ ": ".toList ++
    failure.description.toList)

/-- Say that a program was called in a wrong way. -/
def failUsage (program : String) (message : Bytes) : Act Unit := do
  fail program message
  write 2 ("Try '".toList ++ program.toList ++
    " --help' for more information.\n".toList)

/-- Whether a request has only options that a program knows; says so if not. -/
def knows (program : String) (known : String) (request : Request) : Act Bool := do
  match request.letters.find? fun letter => !known.toList.contains letter with
  | none => return true
  | some letter =>
      failUsage program ("invalid option -- ".toList ++ inQuotes [letter])
      return false

/-- The path of a name in a directory. -/
def within (directory name : Bytes) : Bytes :=
  if directory.getLast? = some '/' then directory ++ name
  else directory ++ '/' :: name

/-- The last segment of a path. -/
def lastName (file : Bytes) : Bytes :=
  Filter.lastSegment file []

/-- What is at the location of a name, which may be that of a link. -/
def named? (file : Bytes) : Act (Except Disk.Failure (Location × Entry)) := do
  match ← locateName file with
  | .error failure => return .error failure
  | .ok location =>
      match (← disk).entryAt? location with
      | none => return .error .notFound
      | some entry => return .ok (location, entry)

/-- What a path leads to behind links. -/
def found? (file : Bytes) : Act (Except Disk.Failure (Location × Entry)) := do
  match ← locate file with
  | .error failure => return .error failure
  | .ok location =>
      match (← disk).entryAt? location with
      | none => return .error .notFound
      | some entry => return .ok (location, entry)

/-- Whether a path leads to a directory. -/
def isDirectory (file : Bytes) : Act Bool :=
  return (← lookup? file) == some .directory

/-- The names of what is in a directory, in order. -/
def namesIn (disk : Disk) (location : Location) : List Bytes :=
  ((disk.namesIn location).map Bytes.ofText).mergeSort Bytes.notAfter

/-! ## Listing -/

/-- The letters that tell who may do what with a file. -/
def modeLetters (mode : Nat) : Bytes :=
  (List.range 9).map fun index =>
    if mode / Nat.pow 2 (8 - index) % 2 = 1 then ['r', 'w', 'x'].getD (index % 3) '-'
    else '-'

/-- What is told about an entry. -/
structure Facts where
  kind : Char
  kindName : String
  mode : Nat
  size : Nat
  /-- What a link stands for. -/
  target : Option Bytes := none
  deriving DecidableEq, Repr, Inhabited

/-- The facts about an entry. -/
def factsOf (disk : Disk) : Entry → Facts
  | .directory => ⟨'d', "directory", 0o755, 4096, none⟩
  | .link target =>
      ⟨'l', "symbolic link", 0o777, target.utf8ByteSize, some (Bytes.ofText target)⟩
  | .device => ⟨'c', "character special file", 0o666, 0, none⟩
  | .file index =>
      let node := disk.node index
      let size := node.content.bytes.size
      ⟨'-', if size = 0 then "regular empty file" else "regular file", node.mode,
        size, none⟩

/-- A line about what is at a location, in the form that a request asks for. -/
def describe
    (disk : Disk)
    (request : Request)
    (location : Location)
    (name : Bytes) : Bytes :=
  let entry := disk.entryAt? location
  let node := (disk.nodeAt? location).getD {}
  let mark : Bytes :=
    match entry with
    | some .directory =>
        if request.has 'F' || request.has 'p' then ['/'] else []
    | some (.link _) => if request.has 'F' && !request.has 'l' then ['@'] else []
    | some (.file _) => if request.has 'F' && node.isExecutable then ['*'] else []
    | _ => []
  if request.has 'l' then
    let facts := factsOf disk (entry.getD .device)
    let target :=
      match facts.target with
      | some target => " -> ".toList ++ target
      | none => []
    facts.kind :: modeLetters facts.mode ++ " 1 root root ".toList ++
      Bytes.ofNat facts.size ++ " Jan  1 00:00 ".toList ++ name ++ mark ++ target ++
      ['\n']
  else
    name ++ mark ++ ['\n']

/-- The listing of a directory, with its names or not. -/
def listing
    (disk : Disk)
    (request : Request)
    (location : Location) : Bytes :=
  let names := namesIn disk location
  let names :=
    if request.has 'a' then ['.'] :: ['.', '.'] :: names
    else if request.has 'A' then names
    else names.filter fun name => name.head? != some '.'
  let names := if request.has 'r' then names.reverse else names
  (if request.has 'l' then "total 0\n".toList else []) ++
    names.flatMap fun name =>
      describe disk request (location ++ [name.toText]) name

/-- The directories below a directory, with their paths, in the order of names. -/
def directoriesBelow
    (fuel : Nat)
    (disk : Disk)
    (file : Bytes)
    (location : Location) : List (Bytes × Location) :=
  match fuel with
  | 0 => []
  | fuel + 1 =>
      (file, location) :: (namesIn disk location).flatMap fun name =>
        let inside := location ++ [name.toText]
        if disk.entryAt? inside = some .directory && name.head? != some '.' then
          directoriesBelow fuel disk (within file name) inside
        else
          []

/-- The files below a directory, in the order of names. -/
def filesBelow
    (fuel : Nat)
    (disk : Disk)
    (file : Bytes)
    (location : Location) : List Bytes :=
  match fuel with
  | 0 => []
  | fuel + 1 =>
      (namesIn disk location).flatMap fun name =>
        let inside := location ++ [name.toText]
        match disk.entryAt? inside with
        | some .directory => filesBelow fuel disk (within file name) inside
        | some (.file _) => [within file name]
        | _ => []

/-- List files, and what is in directories. -/
def list (request : Request) : Act Unit := do
  setStatus 0
  if ← knows "ls" "1aAdlFpRrtSkhnicCxUufgoqQsNLH" request then
    let operands := if request.operands.isEmpty then [['.']] else request.operands
    let mut files := []
    let mut directories := []
    for operand in operands.mergeSort Bytes.notAfter do
      let place ←
        match ← found? operand with
        | .ok place => pure (.ok place)
        | .error _ => named? operand
      match place with
      | .error failure =>
          failAt "ls" "cannot access" operand failure
      | .ok (location, entry) =>
          if entry == .directory && !request.has 'd' then
            directories := directories ++ [(operand, location)]
          else
            files := files ++ [operand]
    let failed := (← process).status != 0
    let turned := fun names : List Bytes =>
      if request.has 'r' then names.reverse else names
    for file in turned files do
      match ← named? file with
      | .ok (location, _) => print (describe (← disk) request location file)
      | .error _ => pure ()
    let disk ← disk
    let shown :=
      if request.has 'R' then
        directories.flatMap fun (file, location) =>
          directoriesBelow (disk.entries.length + 1) disk file location
      else if request.has 'r' then
        directories.reverse
      else
        directories
    let withNames := 1 < operands.length || request.has 'R'
    let mut isFirst := files.isEmpty
    for (file, location) in shown do
      if !isFirst then
        print ['\n']
      if withNames then
        print (file ++ [':', '\n'])
      print (listing disk request location)
      isFirst := false
    setStatus (if failed then 2 else 0)
  else
    setStatus 2

/-- Print what links stand for, or the paths that names lead to. -/
def resolve (program : String) (request : Request) : Act Unit := do
  setStatus 0
  if request.operands.isEmpty then
    failUsage program "missing operand".toList
  for operand in request.operands do
    if program == "readlink" && !request.has 'f' && !request.has 'e' &&
        !request.has 'm' then
      match ← named? operand with
      | .ok (_, .link target) =>
          print (Bytes.ofText target ++ (if request.has 'n' then [] else ['\n']))
      | _ => setStatus 1
    else
      match ← locate operand with
      | .ok location =>
          if request.has 'e' && ((← disk).entryAt? location).isNone then
            setStatus 1
          else
            print (Bytes.ofText (Location.path location).text ++ ['\n'])
      | .error failure =>
          if program == "readlink" then
            setStatus 1
          else
            fail program (operand ++ ": ".toList ++ failure.description.toList)

/-! ## Making and removing -/

/-- Make directories. -/
def makeDirectories (request : Request) : Act Unit := do
  setStatus 0
  if ← knows "mkdir" "pmv" request then
    if request.operands.isEmpty then
      failUsage "mkdir" "missing operand".toList
    for operand in request.operands do
      let say := failAt "mkdir" "cannot create directory"
      let segments := Text.splitAt '/' operand
      let steps :=
        if request.has 'p' then
          (List.range segments.length).map fun index =>
            ['/'].intercalate (segments.take (index + 1))
        else
          [operand]
      for step in steps do
        if !step.isEmpty then
          match ← locate step with
          | .error failure =>
              if step == operand || failure != .notDirectory then
                say step failure
              break
          | .ok location =>
              match (← disk).entryAt? location with
              | none =>
                  changeDisk fun disk => disk.put location .directory
                  if request.has 'v' then
                    print ("mkdir: created directory ".toList ++ inQuotes step ++
                      ['\n'])
              | some entry =>
                  if entry != .directory && step != operand then
                    say step .notDirectory
                    break
                  else if entry != .directory || !request.has 'p' then
                    say step .occupied

/-- Make empty files where there are none. -/
def touch (request : Request) : Act Unit := do
  setStatus 0
  if request.operands.isEmpty then
    failUsage "touch" "missing file operand".toList
  for operand in request.operands do
    match ← locate operand with
    | .error failure =>
        if !request.has 'c' then
          failAt "touch" "cannot touch" operand failure
    | .ok location =>
        if ((← disk).entryAt? location).isNone && !request.has 'c' then
          changeDisk fun disk => disk.addFile location {}

/-- A size after a change such as `+3`, or a new one. -/
def newSize? (text : Bytes) (size : Nat) : Option Nat :=
  match text with
  | '+' :: text => (Filter.amount? text).map (size + ·)
  | '-' :: text => (Filter.amount? text).map (size - ·)
  | text => Filter.amount? text

/-- Give files a size, by cutting them or by adding zero bytes. -/
def truncate (arguments : List Bytes) : Act Unit := do
  let form : OptionForm :=
    { plain := "co", valued := "sr", long := [("size", 's'), ("no-create", 'c')] }
  setStatus 0
  match Options.read form arguments with
  | .error failure => failUsage "truncate" failure.message
  | .ok options =>
      match options.value? 's' with
      | none =>
          failUsage "truncate"
            "you must specify either '--size' or '--reference'".toList
      | some text =>
          if (newSize? text 0).isNone then
            fail "truncate" ("Invalid number: ".toList ++ inQuotes text)
          else if options.operands.isEmpty then
            failUsage "truncate" "missing file operand".toList
          else
            for operand in options.operands do
              if !options.has 'c' || (← lookup? operand).isSome then
                match ← openFile operand true with
                | .error failure =>
                    failAt "truncate" "cannot open" operand failure
                | .ok _ =>
                    let place ← locate operand
                    match place.toOption.bind (← disk).nodeAt? with
                    | none => pure ()
                    | some node =>
                        let bytes := node.content.bytes
                        let size := (newSize? text bytes.size).getD 0
                        let kept := bytes.extract 0 size
                        let content : Content :=
                          ⟨kept ++ Content.zeros (size - kept.size)⟩
                        match place.toOption.bind (← disk).entryAt? with
                        | some (.file index) =>
                            changeDisk fun disk =>
                              disk.changeNode index fun node =>
                                { node with content := content }
                        | _ => pure ()

/-- Remove files, and directories if asked for. -/
def remove (request : Request) : Act Unit := do
  setStatus 0
  if ← knows "rm" "rfRdvi" request then
    if request.operands.isEmpty && !request.has 'f' then
      failUsage "rm" "missing operand".toList
    let isDeep := request.has 'r' || request.has 'R'
    for operand in request.operands do
      let say := failAt "rm" "cannot remove" operand
      let name := lastName operand
      match ← named? operand with
      | .error failure =>
          if !request.has 'f' || (failure != .notFound && failure != .notDirectory) then
            say failure
      | .ok (location, .directory) =>
          if !isDeep && !request.has 'd' then
            say .isDirectory
          else if name == ['.'] || name == ['.', '.'] then
            fail "rm" ("refusing to remove '.' or '..' directory: skipping ".toList ++
              inQuotes operand)
          else if !isDeep && !((← disk).namesIn location).isEmpty then
            say .notEmpty
          else
            changeDisk fun disk => disk.eraseTree location
            if request.has 'v' then
              print ("removed directory ".toList ++ inQuotes operand ++ ['\n'])
      | .ok (location, _) =>
          changeDisk fun disk => disk.erase location
          if request.has 'v' then
            print ("removed ".toList ++ inQuotes operand ++ ['\n'])

/-- Remove empty directories. -/
def removeDirectories (request : Request) : Act Unit := do
  setStatus 0
  if request.operands.isEmpty then
    failUsage "rmdir" "missing operand".toList
  for operand in request.operands do
    let segments := Text.splitAt '/' operand
    let steps :=
      if request.has 'p' then
        ((List.range segments.length).map fun index =>
          ['/'].intercalate (segments.take (index + 1))).reverse
      else
        [operand]
    for step in steps do
      let say := failAt "rmdir" "failed to remove" step
      match ← named? step with
      | .error failure =>
          say failure
          break
      | .ok (location, .directory) =>
          if ((← disk).namesIn location).isEmpty then
            changeDisk fun disk => disk.erase location
          else
            say .notEmpty
            break
      | .ok _ =>
          say .notDirectory
          break

/-- Make an empty file or directory with a name that nothing has. -/
def makeTemporary (request : Request) : Act Unit := do
  setStatus 0
  let number := (← world).nextProcess
  changeWorld fun world => { world with nextProcess := number + 1 }
  let digits := Bytes.ofNat number
  let pattern := request.operands.head?.getD "/tmp/tmp.XXXXXXXXXX".toList
  let start := (pattern.reverse.dropWhile (· == 'X')).reverse
  let free := pattern.length - start.length
  let name := start ++ List.replicate (free - digits.length) '0' ++ digits
  match ← locate name with
  | .error failure =>
      fail "mktemp" ((if request.has 'd' then "failed to create directory"
        else "failed to create file").toList ++ " via template ".toList ++
        inQuotes pattern ++ ": ".toList ++ failure.description.toList)
  | .ok location =>
      changeDisk fun disk =>
        if request.has 'd' then disk.put location .directory
        else disk.addFile location { mode := 0o600 }
      print (name ++ ['\n'])

/-- Print what is read, and write it to files, too. -/
def tee (request : Request) : Act Unit := do
  setStatus 0
  if ← knows "tee" "aip" request then
    let mut streams : Array Stream := #[]
    for operand in request.operands do
      match descriptorOf? operand with
      | some descriptor =>
          match ← stream? descriptor with
          | some stream => streams := streams.push stream
          | none => pure ()
      | none =>
          match ← openFile operand (request.has 'a') with
          | .ok stream => streams := streams.push stream
          | .error failure =>
              fail "tee" (operand ++ ": ".toList ++ failure.description.toList)
    if (← stream? 0) == some .directory then
      fail "tee" "read error: Is a directory".toList
    let status := (← process).status
    let bytes ← takeAll 0
    print bytes
    for stream in streams do
      changeWorld (·.write stream bytes)
    setStatus (max status (← process).status)

/-! ## Copying, moving and linking -/

/-- The pairs of sources and targets that operands ask for: each source goes to a
name in the last one, if that is a directory. Says what is wrong, if anything. -/
def pairs
    (program : String)
    (operands : List Bytes)
    (intoDirectory : Bool) : Act (List (Bytes × Bytes)) := do
  match operands with
  | [] =>
      failUsage program "missing file operand".toList
      return []
  | [only] =>
      failUsage program
        ("missing destination file operand after ".toList ++ inQuotes only)
      return []
  | [source, target] =>
      if intoDirectory && (← isDirectory target) then
        return [(source, within target (lastName source))]
      else
        return [(source, target)]
  | operands =>
      let target := operands.getLast?.getD []
      let fails := fun failure : Disk.Failure => do
        fail program ("target ".toList ++ inQuotes target ++ ": ".toList ++
          failure.description.toList)
        return []
      match ← found? target with
      | .ok (_, .directory) =>
          return operands.dropLast.map fun source =>
            (source, within target (lastName source))
      | .ok _ => fails .notDirectory
      | .error failure => fails failure

/-- The file at a node written to a location: over the file that is there, or as a
new one. -/
def placeCopy (node : FileNode) (location : Location) (disk : Disk) : Disk :=
  match disk.entryAt? location with
  | some (.file index) =>
      disk.changeNode index fun target =>
        { target with content := node.content, program := node.program }
  | some .device => disk
  | _ => disk.addFile location node

/-- The disk with a copy of what is at a location and below it. -/
def copyTree (source target : Location) (disk : Disk) : Disk :=
  disk.entries.foldl
    (fun copied (location, entry) =>
      if source.isPrefixOf location then
        let place := target ++ location.drop source.length
        match entry with
        | .file index => placeCopy (disk.node index) place copied
        | .directory =>
            if copied.entryAt? place = some .directory then copied
            else copied.put place .directory
        | other => copied.put place other
      else
        copied)
    disk

/-- Copy a file or a directory to a path. -/
def copyOne (request : Request) (source target : Bytes) : Act Unit := do
  let isDeep := request.has 'r' || request.has 'R' || request.has 'a'
  let keepsLinks := isDeep || request.has 'P' || request.has 'd'
  let place ← if keepsLinks then named? source else found? source
  match place with
  | .error failure => failAt "cp" "cannot stat" source failure
  | .ok (origin, entry) =>
      match ← locate target with
      | .error failure =>
          failAt "cp" (if entry == .directory then "cannot create directory"
            else "cannot create regular file") target failure
      | .ok goal =>
          let there := (← disk).entryAt? goal
          let isDangling :=
            match ← named? target with
            | .ok (_, .link _) => there.isNone
            | _ => false
          match entry with
          | .directory =>
              if !isDeep then
                fail "cp" ("-r not specified; omitting directory ".toList ++
                  inQuotes source)
              else if origin.isPrefixOf goal then
                fail "cp" ("cannot copy a directory, ".toList ++ inQuotes source ++
                  ", into itself, ".toList ++ inQuotes target)
              else if there.isSome && there != some .directory then
                fail "cp" ("cannot overwrite non-directory ".toList ++
                  inQuotes target ++ " with directory ".toList ++ inQuotes source)
              else
                changeDisk (copyTree origin goal)
          | _ =>
              if there == some entry then
                fail "cp" (inQuotes source ++ " and ".toList ++ inQuotes target ++
                  " are the same file".toList)
              else if there == some .directory then
                fail "cp" ("cannot overwrite directory ".toList ++
                  inQuotes target ++ " with non-directory".toList)
              else if isDangling then
                fail "cp" ("not writing through dangling symlink ".toList ++
                  inQuotes target)
              else if there.isNone || !request.has 'n' then
                match entry with
                | .file index =>
                    let node := (← disk).node index
                    changeDisk (placeCopy node goal)
                | .device =>
                    changeDisk (placeCopy {} goal)
                | other => changeDisk fun disk => disk.put goal other
                if request.has 'v' then
                  print (inQuotes source ++ " -> ".toList ++ inQuotes target ++ ['\n'])

/-- Copy files. -/
def copy (request : Request) : Act Unit := do
  setStatus 0
  if ← knows "cp" "rRafpPdnvTLHui" request then
    for (source, target) in ← pairs "cp" request.operands (!request.has 'T') do
      copyOne request source target

/-- Move a file or a directory to a path. -/
def moveOne (request : Request) (source target : Bytes) : Act Unit := do
  match ← named? source with
  | .error failure => failAt "mv" "cannot stat" source failure
  | .ok (origin, entry) =>
      match ← locateName target with
      | .error failure =>
          fail "mv" ("cannot move ".toList ++ inQuotes source ++ " to ".toList ++
            inQuotes target ++ ": ".toList ++ failure.description.toList)
      | .ok goal =>
          let there := (← disk).entryAt? goal
          if origin == goal then
            fail "mv" (inQuotes source ++ " and ".toList ++ inQuotes target ++
              " are the same file".toList)
          else if origin.isPrefixOf goal then
            fail "mv" ("cannot move ".toList ++ inQuotes source ++
              " to a subdirectory of itself, ".toList ++ inQuotes target)
          else if entry == .directory && there.isSome && there != some .directory then
            fail "mv" ("cannot overwrite non-directory ".toList ++ inQuotes target ++
              " with directory ".toList ++ inQuotes source)
          else if entry != .directory && there == some .directory then
            fail "mv" ("cannot overwrite directory ".toList ++ inQuotes target ++
              " with non-directory".toList)
          else if there == some .directory && !((← disk).namesIn goal).isEmpty then
            failAt "mv" "cannot overwrite" target .notEmpty
          else if there.isNone || !request.has 'n' then
            changeDisk fun disk => disk.moveTree origin goal
            if request.has 'v' then
              print ("renamed ".toList ++ inQuotes source ++ " -> ".toList ++
                inQuotes target ++ ['\n'])

/-- Move files. -/
def move (request : Request) : Act Unit := do
  setStatus 0
  if ← knows "mv" "fnvTiu" request then
    for (source, target) in ← pairs "mv" request.operands (!request.has 'T') do
      moveOne request source target

/-- Give a file another name, or make a name that stands for a path. -/
def linkOne (request : Request) (source target : Bytes) : Act Unit := do
  let isSoft := request.has 's'
  let say := fun failure : Disk.Failure =>
    fail "ln" ((if isSoft then "failed to create symbolic link "
      else "failed to create hard link ").toList ++ inQuotes target ++
      (if isSoft || failure == .occupied then []
      else " => ".toList ++ inQuotes source) ++
      ": ".toList ++ failure.description.toList)
  let made ←
    if isSoft then
      pure (some (Entry.link source.toText))
    else
      match ← named? source with
      | .error failure =>
          failAt "ln" "failed to access" source failure
          pure none
      | .ok (_, .directory) =>
          fail "ln" (source ++ ": hard link not allowed for directory".toList)
          pure none
      | .ok (_, entry) => pure (some entry)
  match made with
  | none => pure ()
  | some entry =>
      match ← locateName target with
      | .error failure => say failure
      | .ok location =>
          match (← disk).entryAt? location with
          | none => changeDisk fun disk => disk.put location entry
          | some there =>
              if request.has 'f' && there == .directory then
                fail "ln" (target ++ ": cannot overwrite directory".toList)
              else if request.has 'f' then
                if there == entry && !isSoft then
                  fail "ln" (inQuotes source ++ " and ".toList ++ inQuotes target ++
                    " are the same file".toList)
                else
                  changeDisk fun disk => disk.put location entry
              else
                say .occupied

/-- Make links. -/
def link (request : Request) : Act Unit := do
  setStatus 0
  if ← knows "ln" "sfnvTrP" request then
    let operands :=
      match request.operands with
      | [only] => [only, ['.']]
      | operands => operands
    let entersLinks ←
      match operands.getLast? with
      | some target =>
          match ← named? target with
          | .ok (_, .link _) => pure (!request.has 'n')
          | _ => pure true
      | none => pure true
    for (source, target) in ← pairs "ln" operands
        (!request.has 'T' && entersLinks) do
      linkOne request source target

/-! ## Permissions -/

/-- The bits of the people that a letter names. -/
def maskOf (who : Char) : Nat :=
  match who with
  | 'u' => 0o700
  | 'g' => 0o070
  | 'o' => 0o007
  | _ => 0o777

/-- The bits of a permission for everybody. -/
def bitsOf (isExecutable : Bool) (permission : Char) : Nat :=
  match permission with
  | 'r' => 0o444
  | 'w' => 0o222
  | 'x' => 0o111
  | 'X' => if isExecutable then 0o111 else 0
  | _ => 0

/-- A mode after a change such as `u+x`; `none` if it is no change. -/
def changedMode? (change : Bytes) (mode : Nat) : Option Nat :=
  let isWho := fun byte : Char =>
    byte == 'u' || byte == 'g' || byte == 'o' || byte == 'a'
  let isSign := fun byte : Char => byte == '+' || byte == '-' || byte == '='
  let who := change.takeWhile isWho
  let mask :=
    if who.isEmpty then 0o755
    else who.foldl (fun mask letter => mask ||| maskOf letter) 0
  match change.drop who.length with
  | sign :: permissions =>
      if isSign sign && permissions.all "rwxXst".toList.contains then
        let bits := permissions.foldl
          (fun bits letter => bits ||| bitsOf (mode &&& 0o111 != 0) letter) 0
        let bits := bits &&& (if who.isEmpty && sign != '-' then 0o755 else mask)
        match sign with
        | '+' => some (mode ||| bits)
        | '-' => some (mode - (mode &&& bits))
        | _ => some (mode - (mode &&& mask) ||| bits)
      else
        none
  | [] => none

/-- A mode after what an operand asks for, which is a number or some changes. -/
def newMode? (operand : Bytes) (mode : Nat) : Option Nat :=
  if operand.isEmpty then
    none
  else if operand.all fun byte => '0' ≤ byte && byte ≤ '7' then
    some (operand.foldl
      (fun value digit => 8 * value + (digit.toNat - '0'.toNat)) 0 % 0o1000)
  else
    (Text.splitAt ',' operand).foldl
      (fun mode change => mode.bind (changedMode? change)) (some mode)

/-- The options in front of a mode, which may itself start with a dash. -/
def isModeChange (argument : Bytes) : Bool :=
  match argument with
  | '-' :: letter :: _ => "rwxXstugo".toList.contains letter
  | _ => false

/-- Change who may read, write and execute files. -/
def changeModes (arguments : List Bytes) : Act Unit := do
  setStatus 0
  let options := arguments.takeWhile fun argument =>
    argument.head? == some '-' && !isModeChange argument
  let isDeep := options.any fun option => option.contains 'R'
  match arguments.drop options.length with
  | [] => failUsage "chmod" "missing operand".toList
  | mode :: operands =>
      if (newMode? mode 0o644).isNone then
        failUsage "chmod" ("invalid mode: ".toList ++ inQuotes mode)
      else if operands.isEmpty then
        failUsage "chmod" ("missing operand after ".toList ++ inQuotes mode)
      else
        for operand in operands do
          match ← found? operand with
          | .error failure => failAt "chmod" "cannot access" operand failure
          | .ok (location, _) =>
              let disk ← disk
              for (place, entry) in disk.entries do
                if place == location || (isDeep && location.isPrefixOf place) then
                  match entry with
                  | .file index =>
                      changeDisk fun disk =>
                        disk.changeNode index fun node =>
                          { node with
                            mode := (newMode? mode node.mode).getD node.mode }
                  | _ => pure ()

/-! ## Telling about files -/

/-- A text in the form that is asked for, with what is known about a file in the
place of letters behind percent signs. -/
def filledIn (file : Bytes) (facts : Facts) : Bytes → Bytes
  | '%' :: letter :: rest =>
      let text : Bytes :=
        match letter with
        | 'n' => file
        | 'N' =>
            match facts.target with
            | some target => inQuotes file ++ " -> ".toList ++ inQuotes target
            | none => inQuotes file
        | 's' => Bytes.ofNat facts.size
        | 'F' => facts.kindName.toList
        | 'a' => Nat.toDigits 8 facts.mode
        | 'A' => facts.kind :: modeLetters facts.mode
        | 'U' | 'G' => "root".toList
        | 'u' | 'g' => ['0']
        | 'h' => ['1']
        | '%' => ['%']
        | letter => ['?', letter].take 1
      text ++ filledIn file facts rest
  | byte :: rest => byte :: filledIn file facts rest
  | [] => []

/-- Tell about files. -/
def tell (arguments : List Bytes) : Act Unit := do
  let form : OptionForm :=
    { plain := "Lt"
      valued := "cp"
      long := [("format", 'c'), ("printf", 'p'), ("dereference", 'L')] }
  setStatus 0
  match Options.read form arguments with
  | .error failure => failUsage "stat" failure.message
  | .ok options =>
      if options.operands.isEmpty then
        failUsage "stat" "missing operand".toList
      for operand in options.operands do
        let place ← if options.has 'L' then found? operand else named? operand
        match place with
        | .error failure => failAt "stat" "cannot statx" operand failure
        | .ok (_, entry) =>
            let facts := factsOf (← disk) entry
            match options.value? 'p', options.value? 'c' with
            | some format, _ =>
                print (filledIn operand facts (Format.unescape format).1)
            | _, some format => print (filledIn operand facts format ++ ['\n'])
            | none, none =>
                print (filledIn operand facts
                  "  File: %n\n  Size: %s\t%F\nAccess: (0%a/%A)\n".toList)

/-- Remove a name, or give a file another one. -/
def changeName (program : String) (operands : List Bytes) : Act Unit := do
  setStatus 0
  match operands with
  | [] => failUsage program "missing operand".toList
  | [only] =>
      if program == "unlink" then
        match ← named? only with
        | .error failure => failAt "unlink" "cannot unlink" only failure
        | .ok (_, .directory) => failAt "unlink" "cannot unlink" only .isDirectory
        | .ok (location, _) => changeDisk (·.erase location)
      else
        failUsage program ("missing operand after ".toList ++ inQuotes only)
  | source :: target :: _ =>
      if program == "unlink" then
        failUsage program ("extra operand ".toList ++ inQuotes target)
      else
        linkOne {} source target

/-- The programs that look after files. -/
def names : List String :=
  ["ls", "readlink", "realpath", "mkdir", "touch", "rm", "rmdir", "mktemp", "tee",
    "cp", "mv", "ln", "chmod", "truncate",
    "stat", "link", "unlink"]

/-- Run a program that looks after files; tells whether there is one of that
name. -/
def run (name : String) (arguments : List Bytes) : Act Bool := do
  let request := Request.ofArguments arguments
  match name with
  | "ls" => list request
  | "readlink" | "realpath" => resolve name request
  | "mkdir" => makeDirectories request
  | "touch" => touch request
  | "rm" => remove request
  | "rmdir" => removeDirectories request
  | "mktemp" => makeTemporary request
  | "tee" => tee request
  | "cp" => copy request
  | "mv" => move request
  | "ln" => link request
  | "chmod" => changeModes arguments
  | "truncate" => truncate arguments
  | "stat" => tell arguments
  | "link" | "unlink" => changeName name request.operands
  | _ => return false
  return true

end Housekeeping
end Shell
end NotePress
