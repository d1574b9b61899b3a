import NotePress.Disk
import NotePress.Expansion
import NotePress.Toml.Read

/-!
# Settings

A user's settings are the values of a TOML file. What the file does not tell is
left open, and keys that name no setting are passed over. A setting of the wrong
type makes the whole file unusable.
-/

namespace NotePress

/-- What a settings file tells. -/
structure Settings where
  stylesheet : Option Path := none
  indexFileName : Option String := none
  codeTimeoutSeconds : Option Nat := none
  escapeCodeOutput : Option Bool := none
  externalStylesheets : Option (List String) := none
  deriving DecidableEq, Repr, Inhabited

namespace Settings

/-- Why settings cannot be had. -/
inductive Failure
  | notFound (path : Path)
  | unreadable (path : Path) (cause : Disk.Failure)
  | malformed (path : Path)
  deriving DecidableEq, Repr, Inhabited

/-- The message about settings that cannot be had. What is wrong in a malformed
file is not told. -/
def Failure.message : Failure → String
  | notFound path => "Config file not found at " ++ path.text
  | unreadable path cause =>
      "Failed to read config file at " ++ path.text ++ ": " ++ cause.message
  | malformed path => "Failed to parse config file at " ++ path.text ++ ":"

/-- The number of a timeout has to fit into 64 bits. -/
def maximalTimeout : Nat := Nat.pow 2 64 - 1

/-- The text that a value is. -/
def asText? : Toml.Value → Option String
  | .text text => some text
  | _ => none

/-- The truth value that a value is. -/
def asBoolean? : Toml.Value → Option Bool
  | .boolean value => some value
  | _ => none

/-- The number of seconds that a value is. -/
def asSeconds? : Toml.Value → Option Nat
  | .integer (.ofNat seconds) =>
      if seconds ≤ maximalTimeout then some seconds else none
  | _ => none

/-- The texts that a value lists. -/
def asTexts? : Toml.Value → Option (List String)
  | .list items => items.mapM asText?
  | _ => none

/-- The setting of a key: `some none` when the key is missing, and `none` when its
value is of the wrong type. -/
def entry?
    (read? : Toml.Value → Option α)
    (entries : Toml.Entries)
    (key : String) : Option (Option α) :=
  match entries.lookup key with
  | none => some none
  | some value => (read? value).map some

/-- The settings that a table holds. -/
def ofEntries? (entries : Toml.Entries) : Option Settings := do
  let stylesheet ← entry? asText? entries "stylesheet"
  let indexFileName ← entry? asText? entries "index_file_name"
  let codeTimeoutSeconds ← entry? asSeconds? entries "code_timeout_secs"
  let escapeCodeOutput ← entry? asBoolean? entries "escape_code_output"
  let externalStylesheets ← entry? asTexts? entries "external_stylesheets"
  some ⟨stylesheet.map Path.mk, indexFileName, codeTimeoutSeconds,
    escapeCodeOutput, externalStylesheets⟩

/-- The settings that the text of a file holds, with variables in the path of the
stylesheet replaced. -/
def ofSource?
    (bindings : Variables)
    (source : String) : Option Settings := do
  let settings ← ofEntries? (← Toml.read? source)
  some { settings with
    stylesheet := settings.stylesheet.map fun path =>
      ⟨Expansion.expand bindings path.text⟩ }

/-- The settings in the file at a path; `none` when nothing is there. -/
def load
    (disk : Disk)
    (bindings : Variables)
    (path : Path) : Except Failure (Option Settings) :=
  if disk.hasEntry path then
    match disk.readText path with
    | .error cause => .error (.unreadable path cause)
    | .ok source =>
        match ofSource? bindings source with
        | none => .error (.malformed path)
        | some settings => .ok (some settings)
  else
    .ok none

/-- The path of the settings file that is used when no other is asked for. -/
def defaultPath (bindings : Variables) : Path :=
  Path.join ⟨Expansion.home bindings ++ "/.config/scrip"⟩ ⟨"config.toml"⟩

/-- The settings in the default file; `none` when there is no such file. -/
def loadDefault
    (disk : Disk)
    (bindings : Variables) : Except Failure (Option Settings) :=
  load disk bindings (defaultPath bindings)

/-- The settings to work with: those in the file that is asked for, which has to
be there, or else those in the default file, if there is one. -/
def choose
    (disk : Disk)
    (bindings : Variables) : Option Path → Except Failure Settings
  | some path =>
      match load disk bindings path with
      | .error failure => .error failure
      | .ok (some settings) => .ok settings
      | .ok none => .error (.notFound path)
  | none => (loadDefault disk bindings).map fun found => found.getD {}

end Settings

end NotePress
