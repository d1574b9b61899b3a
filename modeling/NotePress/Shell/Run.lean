import NotePress.Shell.Arithmetic
import NotePress.Shell.Find
import NotePress.Shell.Redirect
import NotePress.Shell.Start
import NotePress.Shell.Word

/-!
# Running scripts

Commands run one after the other. The stages of a pipeline, the commands whose
output is put into words, and background jobs run as processes of their own: they
get a copy of what the process has, and what they change in it is lost.

`fuel` bounds how deep commands stand in one another, and the world's patience
how many of them run.
-/

namespace NotePress
namespace Shell
namespace Run

open Act Redirect Word Start

/-- Let a process of its own take a step, and keep nothing of it but what it
answers and the status. Only the signals that the process passes over stay so. A
signal to the shell that the process belongs to ends that, too. -/
def apart (step : Act α) : Act α := do
  let before ← process
  changeProcess fun process =>
    { process with
      traps := process.traps.filter fun trap =>
        trap.2.isEmpty && trap.1 != "EXIT"
      flow := .going }
  let answer ← step
  let after ← process
  let isHit := after.killed.isSome && after.number == before.number
  changeProcess fun _ =>
    { before with
      status := after.status
      killed := if isHit then after.killed else before.killed
      flow := if isHit then .leaving else before.flow }
  return answer

/-- How many functions may run one another. -/
def maximalCalls : Nat := 1000

/-- Take a step as a condition, which may fail. -/
def asCondition (step : Act α) : Act α := do
  let before := (← process).guarded
  changeProcess fun process => { process with guarded := true }
  let answer ← step
  changeProcess fun process => { process with guarded := before }
  return answer

/-- End a strict process after a command that failed. -/
def checkStatus : Act Unit := do
  let process ← process
  if process.options.contains 'e' && !process.guarded && process.status != 0 &&
      process.flow == .going then
    setFlow .leaving

/-- Take a step as the body of a loop. -/
def inLoop (step : Act Unit) : Act Unit := do
  changeProcess fun process => { process with loops := process.loops + 1 }
  step
  changeProcess fun process => { process with loops := process.loops - 1 }

/-- Whether a loop is left after its body ran. -/
def leavesLoop : Act Bool := do
  match (← process).flow with
  | .going => return (← world).isOver
  | .breaking levels =>
      setFlow (if levels ≤ 1 then .going else .breaking (levels - 1))
      return true
  | .continuing levels =>
      setFlow (if levels ≤ 1 then .going else .continuing (levels - 1))
      return 1 < levels
  | _ => return true

/-- How often the body of a loop runs at most. -/
def maximalRounds : Nat := 1000000

/-- Show a command before it runs, if that is asked for, where the shell
complains. -/
def trace
    (streams : List (Nat × Stream))
    (assignments : List (Bytes × Bytes))
    (fields : List Bytes) : Act Unit := do
  if ← hasOption 'x' then
    let mark := (← valueOf? "PS4".toList).getD []
    let words := (assignments.map fun (name, value) => name ++ '=' :: value) ++ fields
    match streams.lookup 2 with
    | some stream =>
        changeWorld (·.write stream (mark ++ [' '].intercalate words ++ ['\n']))
    | none => pure ()

/-- A variable with its value, and whether programs see it. -/
def remember (name : Bytes) : Act (Bytes × Option Bytes × Bool) := do
  return (name, ← valueOf? name, (← process).exported.contains name)

/-- Put a variable back to what was remembered. -/
def putBackAll (remembered : List (Bytes × Option Bytes × Bool)) : Act Unit := do
  for (name, value, isExported) in remembered do
    putBack name value
    changeProcess fun process =>
      let others := process.exported.filter (· != name)
      { process with exported := if isExported then name :: others else others }

/-- The programs that start other programs. -/
def starters : List String :=
  Program.shells ++
    ["env", "find", "nice", "nohup", "setsid", "timeout", "xargs"]

mutual

/-- The glyphs of a word. -/
def expandPieces (fuel : Nat) (word : Word) : Act (List Glyph) :=
  match fuel with
  | 0 => do
      changeWorld World.runOut
      return []
  | fuel + 1 => do
      let mut glyphs := []
      for piece in word do
        glyphs := glyphs ++ (← expandPiece fuel piece)
      return glyphs

/-- The glyphs of a piece of a word. -/
def expandPiece (fuel : Nat) (piece : Piece) : Act (List Glyph) :=
  match fuel with
  | 0 => do
      changeWorld World.runOut
      return []
  | fuel + 1 =>
      match piece with
      | .plain text => return text.map .plain
      | .quoted text => return .here :: text.map .quoted
      | .group [.parameter _ ['@'] .value] =>
          return argumentGlyphs true (← process).arguments
      | .group pieces => return .here :: (← expandPieces fuel pieces)
      | .parameter quoted name use => expandParameter fuel quoted name use
      | .output quoted script => do
          if ← isStopped then
            return []
          let before := (← process).status
          let (index, opened) := (← world).newChannel []
          changeWorld fun _ => opened
          apart do
            setStream 1 (some (.channel index))
            run fuel script
            finish fuel
          waitForChannel index
          let status := (← process).status
          changeProcess fun process =>
            { process with status := before, outputStatus := some status }
          let bytes := (← world).content index
          return glyphsOf quoted (dropLineFeeds (bytes.filter (· != '\x00')))
      | .arithmetic quoted expression => do
          let text := Glyph.text (← expandPieces fuel expression)
          if ← isStopped then
            return []
          match Arithmetic.evaluate (← process).bindings text with
          | .ok (value, assigned) =>
              for (name, value) in assigned.reverse do
                assign name value
              return glyphsOf quoted (Bytes.ofInt value)
          | .error failure =>
              giveUp (failure.message text)
              return []

/-- The glyphs of a parameter. -/
def expandParameter
    (fuel : Nat)
    (quoted : Bool)
    (name : Bytes)
    (use : Use) : Act (List Glyph) :=
  match fuel with
  | 0 => do
      changeWorld World.runOut
      return []
  | fuel + 1 => do
      let process ← process
      let arguments := process.arguments
      let isList := name == ['@'] || name == ['*']
      let joined := [((← separators).head?.getD ' ')].intercalate arguments
      let value? ←
        if isList then
          pure (if arguments.isEmpty then none else some joined)
        else
          parameter? name
      let value := value?.getD []
      let isMissing := fun orEmpty : Bool =>
        value?.isNone || (orEmpty && value.isEmpty)
      let glyphs :=
        if name == ['@'] then argumentGlyphs quoted arguments
        else if isList && !quoted then argumentGlyphs false arguments
        else glyphsOf quoted value
      let expandWord := fun word => do
        let word :=
          if quoted then word else withHomes process.bindings false true word
        let glyphs ← expandPieces fuel word
        return if quoted then glyphs else glyphs.map Glyph.asExpanded
      let demandValue := do
        if (← hasOption 'u') && value?.isNone && !isList then
          giveUp (name ++ ": parameter not set".toList)
      match use with
      | .value =>
          demandValue
          return glyphs
      | .length =>
          demandValue
          return glyphsOf quoted
            (Bytes.ofNat (if isList then arguments.length else value.length))
      | .otherwise orEmpty word =>
          if isMissing orEmpty then expandWord word else return glyphs
      | .replace orEmpty word =>
          if isMissing orEmpty then return [] else expandWord word
      | .assign orEmpty word =>
          if isMissing orEmpty then
            let text := Glyph.text (← expandWord word)
            if Builtin.isName name then
              assign name text
            else
              giveUp (name ++ ": bad variable name".toList)
            return glyphsOf quoted text
          else
            return glyphs
      | .demand orEmpty word =>
          if isMissing orEmpty then
            let text := Glyph.text (← expandWord word)
            giveUp (name ++ ": ".toList ++
              (if !text.isEmpty then text
              else if orEmpty then "parameter not set or null".toList
              else "parameter not set".toList))
            return []
          else
            return glyphs
      | .strip atEnd longest pattern =>
          demandValue
          let pattern := Glyph.pattern (← expandPieces fuel pattern)
          return glyphsOf quoted
            (if atEnd then Pattern.stripEnd longest pattern value
            else Pattern.stripStart longest pattern value)

/-- The bytes of a word that is not cut into fields. -/
def expandText (fuel : Nat) (inAssignment : Bool) (word : Word) : Act Bytes :=
  match fuel with
  | 0 => do
      changeWorld World.runOut
      return []
  | fuel + 1 => do
      let word := withHomes (← process).bindings inAssignment true word
      return Glyph.text (← expandPieces fuel word)

/-- The fields of a word. -/
def expandWords (fuel : Nat) (word : Word) : Act (List Bytes) :=
  match fuel with
  | 0 => do
      changeWorld World.runOut
      return []
  | fuel + 1 => do
      let word := withHomes (← process).bindings false true word
      let glyphs ← expandPieces fuel word
      let mut fields := #[]
      for field in fieldsOf (← separators) glyphs do
        fields := fields ++ (← filesMatching field)
      return fields.toList

/-- The fields of words. -/
def expandFields (fuel : Nat) (words : List Word) : Act (List Bytes) :=
  match fuel with
  | 0 => do
      changeWorld World.runOut
      return []
  | fuel + 1 => do
      let mut fields := #[]
      for word in words do
        let isKept :=
          match fields[0]? with
          | some name => assigners.contains name && isAssignment word
          | none => false
        if isKept then
          fields := fields.push (← expandText fuel true word)
        else
          fields := fields ++ (← expandWords fuel word)
      return fields.toList

/-- Open the streams of redirections; tells whether that worked. -/
def redirect (fuel : Nat) (redirections : List Redirection) : Act Bool :=
  match fuel with
  | 0 => do
      changeWorld World.runOut
      return false
  | fuel + 1 => do
      for redirection in redirections do
        match redirection with
        | .mk descriptor kind target =>
            let text ←
              if kind == .here then pure (Glyph.text (← expandPieces fuel target))
              else expandText fuel false target
            if ← isStopped then
              return false
            if !(← openStream descriptor kind text) then
              setStatus 2
              return false
      return true

/-- Run a command. -/
def run (fuel : Nat) (command : Command) : Act Unit :=
  match fuel with
  | 0 => changeWorld World.runOut
  | fuel + 1 => do
      if ← isStopped then
        return
      match command with
      | .simple line assignments words => runSimple fuel line assignments words []
      | .redirected (.simple line assignments words) redirections =>
          runSimple fuel line assignments words redirections
      | .redirected inner redirections =>
          let before := (← process).streams
          if ← redirect fuel redirections then
            run fuel inner
          else
            checkStatus
          changeProcess fun process => { process with streams := before }
      | .sequence commands =>
          for inner in commands do
            run fuel inner
      | .both left right =>
          asCondition (run fuel left)
          if (← process).status == 0 then
            run fuel right
      | .either left right =>
          asCondition (run fuel left)
          if (← process).status != 0 then
            run fuel right
      | .negated inner =>
          asCondition (run fuel inner)
          if (← process).flow == .going then
            setStatus (if (← process).status == 0 then 1 else 0)
      | .pipeline stages => runPipeline fuel stages
      | .background inner => runBackground fuel inner
      | .subshell body =>
          apart do
            run fuel body
            finish fuel
          checkStatus
      | .conditional test body alternative =>
          asCondition (run fuel test)
          if (← process).flow == .going then
            if (← process).status == 0 then
              setStatus 0
              run fuel body
            else
              setStatus 0
              run fuel alternative
      | .loop whileFails test body => runLoop fuel whileFails test body
      | .each name words body =>
          let values ←
            match words with
            | some words => expandFields fuel words
            | none => pure (← process).arguments
          if ← isStopped then
            return
          setStatus 0
          for value in values do
            if ← isStopped then
              break
            assign name value
            inLoop (run fuel body)
            if ← leavesLoop then
              break
      | .choice word branches =>
          let text ← expandText fuel false word
          if ← isStopped then
            return
          setStatus 0
          for (patterns, body) in branches do
            if ← branchFits fuel text patterns then
              run fuel body
              break
      | .define name body =>
          changeProcess fun process =>
            { process with functions := (name, body) :: process.functions }
          setStatus 0

/-- Whether one of the patterns of a branch matches a text. -/
def branchFits
    (fuel : Nat)
    (text : Bytes)
    (patterns : List Word) : Act Bool :=
  match fuel with
  | 0 => return false
  | fuel + 1 => do
      for pattern in patterns do
        let pattern := withHomes (← process).bindings false true pattern
        let glyphs ← expandPieces fuel pattern
        if Pattern.isMatch (Glyph.pattern glyphs) text then
          return true
      return false

/-- Run the body of a loop as long as its test tells. -/
def runLoop
    (fuel : Nat)
    (whileFails : Bool)
    (test body : Command) : Act Unit :=
  match fuel with
  | 0 => changeWorld World.runOut
  | fuel + 1 => do
      let mut status := 0
      for _ in [0:maximalRounds] do
        inLoop (asCondition (run fuel test))
        if (← process).flow != .going then
          if ← leavesLoop then
            return
          continue
        if (← world).isOver then
          return
        if ((← process).status == 0) == whileFails then
          break
        inLoop (run fuel body)
        status := (← process).status
        if ← leavesLoop then
          break
      if (← process).flow == .going then
        setStatus status

/-- Run the stages of a pipeline, each reading what the one before printed. -/
def runPipeline (fuel : Nat) (stages : List Command) : Act Unit :=
  match fuel with
  | 0 => changeWorld World.runOut
  | fuel + 1 => do
      let start := (← world).clock
      let mut ending := start
      let mut input ← stream? 0
      let mut left := stages.length
      for stage in stages do
        left := left - 1
        let (index, opened) := (← world).newChannel []
        let printed ← if left == 0 then stream? 1 else pure (some (.channel index))
        changeWorld fun world => { opened with clock := min start world.clock }
        apart do
          setStream 0 input
          setStream 1 printed
          run fuel stage
          finish fuel
        waitForChannel index
        changeWorld (·.write (.channel index) [])
        ending := max ending (← world).clock
        input := some (.channel index)
      waitUntil ending
      checkStatus

/-- Run a command in the background: at once, with the clock set back after. -/
def runBackground (fuel : Nat) (command : Command) : Act Unit :=
  match fuel with
  | 0 => changeWorld World.runOut
  | fuel + 1 => do
      let start := (← world).clock
      let holds ← apart do
        setStream 0 (some .nothing)
        match command with
        | .redirected inner redirections =>
            if ← redirect fuel redirections then
              let holds ← heldChannels
              run fuel inner
              finish fuel
              return holds
            else
              return []
        | _ =>
            let holds ← heldChannels
            run fuel command
            finish fuel
            return holds
      let status := (← process).status
      changeWorld fun world =>
        { world with
          clock := start
          nextProcess := world.nextProcess + 1
          jobs := world.jobs ++
            [{ process := world.nextProcess
               finish := world.clock
               status := status
               holds := holds }] }
      let started := (← world).nextProcess - 1
      changeProcess fun process => { process with lastJob := some started }
      setStatus 0

/-- Run a command without parts that are commands. -/
def runSimple
    (fuel line : Nat)
    (assignments : List (Bytes × Word))
    (words : List Word)
    (redirections : List Redirection) : Act Unit :=
  match fuel with
  | 0 => changeWorld World.runOut
  | fuel + 1 => do
      if (← world).patience == 0 then
        changeWorld World.runOut
        return
      changeWorld fun world => { world with patience := world.patience - 1 }
      changeProcess fun process => { process with outputStatus := none, line := line }
      let fields ← expandFields fuel words
      if ← isStopped then
        return
      let name := fields.head?.getD []
      let isSpecial :=
        ((← process).functions.lookup name).isNone &&
          Builtin.specials.contains (String.ofList name)
      let streams := (← process).streams
      if ← redirect fuel redirections then
        let remembered ←
          if isSpecial || fields.isEmpty then pure []
          else assignments.mapM fun (name, _) => remember name
        let mut assigned := []
        for (name, word) in assignments do
          if !(← isStopped) then
            let value ← expandText fuel true word
            assigned := assigned ++ [(name, value)]
            if !(← isStopped) then
              assign name value
              if !isSpecial && !fields.isEmpty then
                expose name
        if !(← isStopped) then
          trace streams assigned fields
          match fields with
          | [] => setStatus ((← process).outputStatus.getD 0)
          | name :: arguments => runFields fuel false name arguments
        putBackAll remembered
      else if isSpecial then
        setFlow .failing
      let keepsStreams := isSpecial && name == "exec".toList
      if !keepsStreams then
        changeProcess fun process => { process with streams := streams }
      checkStatus

/-- Run the command that a first field names. Functions may be passed over; then
failures of the shell's own commands do not end the script. -/
def runFields
    (fuel : Nat)
    (isPlain : Bool)
    (name : Bytes)
    (arguments : List Bytes) : Act Unit :=
  match fuel with
  | 0 => changeWorld World.runOut
  | fuel + 1 => do
      let function? ←
        if isPlain then pure none
        else pure ((← process).functions.lookup name)
      let text := String.ofList name
      match function? with
      | some body => runFunction fuel body arguments
      | none =>
          if Builtin.specials.contains text || Builtin.ordinaries.contains text then
            let line := (← process).line
            speakingAs name (runBuiltin fuel text arguments)
            if (← process).flow == .failing &&
                (isPlain || !Builtin.specials.contains text) then
              setFlow .going
            changeProcess fun process => { process with line := line }
          else
            runProgram fuel false name arguments

/-- Run a function with arguments. -/
def runFunction
    (fuel : Nat)
    (body : Command)
    (arguments : List Bytes) : Act Unit :=
  match fuel with
  | 0 => changeWorld World.runOut
  | fuel + 1 => do
      let before ← process
      if maximalCalls ≤ before.calls then
        giveUp ("Maximum function recursion depth (".toList ++
          Bytes.ofNat maximalCalls ++ ") reached".toList)
        return
      changeProcess fun process =>
        { process with
          arguments := arguments
          shadowed := some []
          loops := 0
          calls := process.calls + 1 }
      run fuel body
      Builtin.restore before.shadowed
      changeProcess fun process =>
        { process with
          arguments := before.arguments
          loops := before.loops
          calls := before.calls }
      if (← process).flow == .returning then
        setFlow .going

/-- Run a command of the shell. -/
def runBuiltin
    (fuel : Nat)
    (name : String)
    (arguments : List Bytes) : Act Unit :=
  match fuel with
  | 0 => changeWorld World.runOut
  | fuel + 1 => do
      match name, arguments with
      | "eval", _ =>
          setStatus 0
          runText fuel ([' '].intercalate arguments)
      | "exec", [] => setStatus 0
      | "exec", program :: others =>
          runProgram fuel true program others
          setFlow .leaving
      | ".", file :: _ => source fuel file
      | ".", [] => setStatus 0
      | "command", ['-', 'v'] :: names => tellCommand (names.head?.getD [])
      | "command", ['-', 'V'] :: names => tellMeanings (names.take 1)
      | "command", ['-', 'p'] :: program :: others =>
          changeProcess fun process => { process with speaker := [] }
          runFields fuel true program others
      | "command", ['-', '-'] :: program :: others =>
          changeProcess fun process => { process with speaker := [] }
          runFields fuel true program others
      | "command", program :: others =>
          changeProcess fun process => { process with speaker := [] }
          runFields fuel true program others
      | "command", [] => setStatus 0
      | "type", _ => tellMeanings arguments
      | "kill", _ => sendSignals fuel arguments
      | _, _ => discard (Builtin.run name arguments)

/-- Run the commands of a file in the process. A name without a slash is looked for
in the directories of programs. -/
def source (fuel : Nat) (file : Bytes) : Act Unit :=
  match fuel with
  | 0 => changeWorld World.runOut
  | fuel + 1 => do
      let files ← files
      let isFile := fun file : Bytes => do
        match ← locate file with
        | .ok location => return ((← disk).nodeAt? location).isSome
        | .error _ => return false
      let mut found? := if file.contains '/' then some file else none
      for place in Program.candidates (← places) file do
        if found?.isNone then
          if ← isFile place then
            found? := some place
      match found? with
      | none => giveUp (file ++ ": not found".toList)
      | some place =>
          match files place with
          | .ok text =>
              speakingAs place (runText fuel text)
              if (← process).flow == .returning then
                setFlow .going
          | .error cause =>
              giveUp ("cannot open ".toList ++ place ++ ": ".toList ++
                (if cause == Disk.Failure.notFound.description ||
                    cause == Disk.Failure.notDirectory.description then
                  "No such file"
                else cause).toList)

/-- Run the program that a name stands for, as another process unless it takes the
place of the one that runs. -/
def runProgram
    (fuel : Nat)
    (replaces : Bool)
    (name : Bytes)
    (arguments : List Bytes) : Act Unit :=
  match fuel with
  | 0 => changeWorld World.runOut
  | fuel + 1 => do
      match Program.search (← disk) (← process).directory (← places) name
          arguments with
      | .ok (_, launched) => runLaunch fuel replaces name launched
      | .error (place, .noProgram) => runShell fuel replaces name (place :: arguments)
      | .error (_, failure) => failStart name failure

/-- Run what was started. -/
def runLaunch
    (fuel : Nat)
    (replaces : Bool)
    (name : Bytes)
    (launched : Program.Launch) : Act Unit :=
  match fuel with
  | 0 => changeWorld World.runOut
  | fuel + 1 => do
      if Program.shells.contains launched.program then
        runShell fuel replaces name launched.arguments
      else if starters.contains launched.program then
        runStarter fuel launched.program launched.arguments
      else
        discard (speakingAs launched.program.toList
          (Program.run launched.program launched.arguments))

/-- Run a program that starts other programs. -/
def runStarter
    (fuel : Nat)
    (program : String)
    (arguments : List Bytes) : Act Unit :=
  match fuel with
  | 0 => changeWorld World.runOut
  | fuel + 1 => apart do
      forgetPrivate
      changeProcess fun process => { process with script := program.toList }
      setStatus 0
      let start := fun (name : Bytes) (arguments : List Bytes) => do
        match Program.search (← disk) (← process).directory (← places) name
            arguments with
        | .ok (_, launched) => runLaunch fuel false name launched
        | .error (_, failure) =>
            Housekeeping.fail program ((if program == "xargs" then name
              else Filter.inQuotes name) ++ ": ".toList ++
              failure.description.toList)
            setStatus
              (if failure == .notFound || failure == .notDirectory then 127 else 126)
      match program with
      | "env" =>
          match ← readBindings arguments with
          | name :: others => start name others
          | [] =>
              for (name, value) in (← process).bindings.reverse do
                print (name ++ '=' :: value ++ ['\n'])
      | "timeout" =>
          match Options.read timeoutForm arguments with
          | .error failure =>
              Housekeeping.failUsage program failure.message
              setStatus 125
          | .ok ⟨given, time :: name :: others⟩ =>
              match Program.milliseconds? time with
              | none =>
                  Housekeeping.failUsage program
                    ("invalid time interval ".toList ++ Filter.inQuotes time)
                  setStatus 125
              | some 0 => start name others
              | some time =>
                  let limit := (← world).limit
                  let deadline := (← world).clock + time
                  changeWorld fun world => { world with limit := min limit deadline }
                  start name others
                  changeWorld fun world => { world with limit := limit }
                  if deadline ≤ (← world).clock && deadline < limit then
                    changeWorld fun world => { world with clock := deadline }
                    let signal := (given.lookup 's').getD []
                    if signal == "KILL".toList || signal == ['9'] then
                      setStatus 137
                      write 2 "Killed\n".toList
                    else
                      setStatus 124
          | .ok _ =>
              Housekeeping.failUsage program "missing operand".toList
              setStatus 125
      | "nice" =>
          match Options.read { valued := "n", leads := true } arguments with
          | .ok ⟨_, name :: others⟩ => start name others
          | .ok _ => print ['0', '\n']
          | .error failure =>
              Housekeeping.failUsage program failure.message
              setStatus 125
      | "find" => Find.run start arguments
      | "xargs" =>
          match Options.read groupForm arguments with
          | .error failure => Housekeeping.failUsage program failure.message
          | .ok options =>
              let command :=
                if options.operands.isEmpty then ["echo".toList]
                else options.operands
              let text ← takeAll 0
              setStream 0 (some .nothing)
              match wordsOf options text with
              | .error quote =>
                  Housekeeping.fail program ("unmatched ".toList ++ quote.toList ++
                    (" quote; by default quotes are special to xargs unless " ++
                      "you use the -0 option").toList)
              | .ok lines =>
                  let calls :=
                    match options.value? 'I' with
                    | some mark =>
                        lines.flatten.map fun word => command.map (fillIn mark word)
                    | none => (groupedWords options lines).map (command ++ ·)
                  let mut failed := 0
                  for call in calls do
                    if failed < 124 then
                      if options.has 't' then
                        write 2 ([' '].intercalate call ++ ['\n'])
                      start (call.head?.getD []) call.tail
                      let status := (← process).status
                      if status == 127 || status == 126 then
                        failed := status
                      else if status == 255 then
                        Housekeeping.fail program (command.head?.getD [] ++
                          ": exited with status 255; aborting".toList)
                        failed := 124
                      else if status != 0 then
                        failed := 123
                  setStatus failed
      | _ =>
          match arguments with
          | name :: others => start name others
          | [] => Housekeeping.failUsage program "missing operand".toList

/-- Run the script of another shell, as another process unless that shell takes
the place of the one that runs. -/
def runShell
    (fuel : Nat)
    (replaces : Bool)
    (name : Bytes)
    (arguments : List Bytes) : Act Unit :=
  match fuel with
  | 0 => changeWorld World.runOut
  | fuel + 1 => do
    let ending ← apart do
      if !replaces then
        let number := (← world).nextProcess
        changeWorld fun world => { world with nextProcess := number + 1 }
        changeProcess fun process => { process with number := number }
      forgetPrivate
      setUp
      changeProcess fun process => { process with script := name, status := 0 }
      let (wanted, operands) ← readShellOptions .file arguments
      let begin := fun (name : Bytes) (arguments : List Bytes) (text : Bytes) => do
        changeProcess fun process =>
          { process with script := name, arguments := arguments }
        runText fuel text
      if !(← isStopped) then
        match wanted, operands with
        | .text, text :: others => begin (others.head?.getD name) others.tail text
        | .text, [] => giveUp "-c requires an argument".toList
        | .input, others => begin name others (← takeAll 0)
        | .file, [] => pure ()
        | .file, file :: others =>
            match (← files) file with
            | .ok text => begin file others text
            | .error cause =>
                if cause == Disk.Failure.isDirectory.description then
                  setStatus 0
                else
                  giveUp ("cannot open ".toList ++ file ++ ": ".toList ++
                    (if cause == Disk.Failure.notFound.description ||
                        cause == Disk.Failure.notDirectory.description then
                      "No such file"
                    else cause).toList)
      finish fuel
      return (← process).killed
    match ending with
    | some signal =>
        if replaces then
          changeProcess fun process => { process with killed := some signal }
        else if !signal.isQuiet then
          write 2 (signal.description.toList ++ ['\n'])
    | none => pure ()

/-- Run a script that is given as text. -/
def runText (fuel : Nat) (text : Bytes) : Act Unit :=
  match fuel with
  | 0 => changeWorld World.runOut
  | fuel + 1 => do
      let reading := Reading.ofText text
      run fuel reading.command
      match reading.broken with
      | some (line, rest) =>
          if !(← isStopped) then
            changeProcess fun process => { process with line := line }
            giveUp ("Syntax error: ".toList ++ Grammar.syntaxError rest)
      | none => pure ()

/-- Do what is to be done at the exit of a process. -/
def finish (fuel : Nat) : Act Unit :=
  match fuel with
  | 0 => changeWorld World.runOut
  | fuel + 1 => do
      let process ← process
      match process.traps.lookup "EXIT" with
      | none => pure ()
      | some script =>
          if process.killed.isNone && !(← world).isOver then
            changeProcess fun process =>
              { process with
                flow := .going
                speaker := []
                traps := process.traps.filter fun trap => trap.1 != "EXIT" }
            runText fuel script
            if (← Act.process).flow == .going then
              setStatus process.status

/-- Send a signal to processes. -/
def sendSignals (fuel : Nat) (arguments : List Bytes) : Act Unit :=
  match fuel with
  | 0 => changeWorld World.runOut
  | fuel + 1 => do
      match arguments with
      | ['-', 'l'] :: others => tellSignals others
      | _ =>
          match signalTargets arguments with
          | .error wrong => giveUp wrong
          | .ok (_, []) =>
              giveUp ("Usage: kill [-s sigspec | -signum | -sigspec] [pid | job]... or\n" ++
                "kill -l [exitstatus]").toList
          | .ok (signal?, targets) =>
              setStatus 0
              for target in targets do
                match Bytes.toNat? target with
                | none => giveUp ("Illegal number: ".toList ++ target)
                | some number =>
                    if ← isAlive number then
                      match signal? with
                      | some signal => deliver fuel signal number
                      | none => pure ()
                    else
                      complain "No such process\n".toList
                      setStatus 1

/-- Let a signal reach a process. -/
def deliver (fuel : Nat) (signal : Signal) (target : Nat) : Act Unit :=
  match fuel with
  | 0 => changeWorld World.runOut
  | fuel + 1 => do
      let process ← process
      if target == process.number then
        match process.traps.lookup signal.name, signal.isCatchable with
        | some script, true =>
            runText fuel script
            if (← Act.process).flow == .going then
              setStatus process.status
        | _, _ => suffer signal
      else if target == (← world).firstProcess then
        match process.traps.lookup signal.name, signal.isCatchable with
        | some _, true => pure ()
        | _, _ =>
            match signal.effect with
            | .ends => changeWorld fun world => { world with killed := some signal }
            | .stops => changeWorld World.runOut
            | .passes => pure ()
      else
        deliverTo signal target

end

end Run
end Shell
end NotePress
