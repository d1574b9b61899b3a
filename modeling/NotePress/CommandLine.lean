import NotePress.Page.Render
import NotePress.Settings

/-!
# The command line

The program is given the path of a source document and makes its page. An option
names the settings file; the last one counts. What goes wrong is told on the error
output: a wrong command line with how to use the program and the exit status 2,
everything else with the exit status 1.
-/

namespace NotePress
namespace CommandLine

/-- What the program is asked for. -/
structure Arguments where
  source : Path
  settings : Option Path
  deriving DecidableEq, Repr, Inhabited

/-- Why a command line is not understood. -/
inductive ArgumentError
  | missingPath
  | unknownOption (argument : String)
  | unexpected (argument : String)
  | missingSource
  deriving DecidableEq, Repr, Inhabited

/-- The option before the path of a settings file. -/
def settingsOption : String := "--config"

/-- The message about a command line that is not understood. -/
def ArgumentError.message : ArgumentError → String
  | missingPath => settingsOption ++ " needs a path"
  | unknownOption argument => "Unknown option " ++ argument
  | unexpected argument => "Unexpected argument " ++ argument
  | missingSource => "No source file given"

/-- Whether an argument is written like an option. -/
def isOption (argument : String) : Bool :=
  ['-', '-'].isPrefixOf argument.toList

namespace Arguments

/-- What is asked for by arguments, given what those before them asked for. -/
def readAfter
    (source settings : Option Path) :
    List String → Except ArgumentError Arguments
  | [] =>
      match source with
      | some source => .ok ⟨source, settings⟩
      | none => .error .missingSource
  | argument :: others =>
      if argument = settingsOption then
        match others with
        | [] => .error .missingPath
        | path :: rest => readAfter source (some ⟨path⟩) rest
      else if isOption argument then
        .error (.unknownOption argument)
      else
        match source with
        | some _ => .error (.unexpected argument)
        | none => readAfter (some ⟨argument⟩) settings others

/-- What is asked for by arguments. -/
def ofList (arguments : List String) : Except ArgumentError Arguments :=
  readAfter none none arguments

end Arguments

/-- The choices that settings make, with the usual ones where they are silent. -/
def options (settings : Settings) : Page.Options :=
  let usual : Page.Options := {}
  { stylesheet := settings.stylesheet
    externalStylesheets :=
      settings.externalStylesheets.getD usual.externalStylesheets
    indexFileName := settings.indexFileName.getD usual.indexFileName
    escapeCodeOutput :=
      settings.escapeCodeOutput.getD usual.escapeCodeOutput }

/-- How many seconds code may run unless settings tell otherwise. -/
def usualTimeout : Nat := 30

/-- How many seconds code may run. -/
def timeoutSeconds (settings : Settings) : Nat :=
  settings.codeTimeoutSeconds.getD usualTimeout

/-- What is left when the program has ended. -/
structure Outcome where
  status : Nat
  errorOutput : String
  disk : Disk
  deriving Inhabited

/-- The name that the program gives itself when it was started without one. -/
def programName : String := "scrip"

/-- How to use the program. -/
def usage (program : String) : String :=
  "Usage: " ++ program ++ " [--config <config.toml>] <file.scrip>\n"

/-- A message about settings, with what caused it. -/
def settingsReport (failure : Settings.Failure) : String :=
  match failure with
  | .notFound _ => failure.message ++ "\n"
  | .unreadable _ cause => failure.message ++ ": " ++ cause.message ++ "\n"
  | .malformed _ => failure.message

/-- A message about a render, with what caused it. -/
def renderReport (error : Page.RenderError) : String :=
  match error with
  | .file (.failed cause) => error.message ++ ": " ++ cause.message ++ "\n"
  | _ => error.message ++ "\n"

/-- Make the page that is asked for. The machine that runs code is given how many
seconds it may run. -/
def compile
    (disk : Disk)
    (bindings : Variables)
    (machine : Nat → Machine)
    (arguments : Arguments) : Outcome :=
  match Settings.choose disk bindings arguments.settings with
  | .error failure =>
      let path := arguments.settings.getD (Settings.defaultPath bindings)
      ⟨1, "Error: Failed to load config file '" ++ path.text ++ "': " ++
        settingsReport failure, disk⟩
  | .ok settings =>
      let environment : Page.Environment :=
        ⟨options settings, machine (timeoutSeconds settings)⟩
      match Page.compileFile environment arguments.source { disk := disk } with
      | (.ok _, session) => ⟨0, "", session.disk⟩
      | (.error error, session) =>
          ⟨1, "Error: Failed to compile '" ++ arguments.source.text ++ "': " ++
            renderReport error, session.disk⟩

/-- Run the program on a command line, which starts with the name of the
program. -/
def run
    (disk : Disk)
    (bindings : Variables)
    (machine : Nat → Machine)
    (commandLine : List String) : Outcome :=
  match Arguments.ofList commandLine.tail with
  | .error error =>
      ⟨2, "Error: " ++ error.message ++ "\n" ++
        usage (commandLine.head?.getD programName), disk⟩
  | .ok arguments => compile disk bindings machine arguments

end CommandLine
end NotePress
