import NotePress.Shell.Bytes

/-!
# Options

The arguments of a program are options and operands. An option is a letter behind a
dash, or a long name behind two. Letters that take no value can share an argument.
Most programs take options behind operands, too, up to an argument of two dashes
alone.
-/

namespace NotePress
namespace Shell

/-- The options that a program knows. -/
structure OptionForm where
  /-- The letters that stand for themselves. -/
  plain : String := ""
  /-- The letters that a value follows. -/
  valued : String := ""
  /-- The long names, with the letters that they stand for. -/
  long : List (String × Char) := []
  /-- Options stand only in front of operands. -/
  leads : Bool := false
  deriving DecidableEq, Repr, Inhabited

/-- Options with their values, in the order in which they were given, and
operands. -/
structure Options where
  given : List (Char × Bytes) := []
  operands : List Bytes := []
  deriving DecidableEq, Repr, Inhabited

/-- Why arguments are not understood. -/
inductive OptionFailure
  | unknownLetter (letter : Char)
  | unknownName (argument : Bytes)
  | noValue (letter : Char)
  | noValueBehind (argument : Bytes)
  deriving DecidableEq, Repr, Inhabited

/-- What is said about arguments that are not understood. -/
def OptionFailure.message : OptionFailure → Bytes
  | unknownLetter letter =>
      "invalid option -- '".toList ++ [letter, '\'']
  | unknownName argument =>
      "unrecognized option '".toList ++ argument ++ ['\'']
  | noValue letter =>
      "option requires an argument -- '".toList ++ [letter, '\'']
  | noValueBehind argument =>
      "option '".toList ++ argument ++ "' requires an argument".toList

namespace OptionForm

/-- The options that letters of one argument stand for, and the one whose value is
the next argument. -/
def ofLetters (form : OptionForm) :
    Bytes → Except OptionFailure (List (Char × Bytes) × Option Char)
  | [] => .ok ([], none)
  | letter :: letters =>
      if form.valued.toList.contains letter then
        if letters.isEmpty then .ok ([], some letter)
        else .ok ([(letter, letters)], none)
      else if form.plain.toList.contains letter then do
        let (given, next) ← ofLetters form letters
        return ((letter, []) :: given, next)
      else
        .error (.unknownLetter letter)

/-- The option that a long name stands for, or the one whose value is the next
argument. A name may be cut short. -/
def ofName
    (form : OptionForm)
    (argument : Bytes) :
    Except OptionFailure (List (Char × Bytes) × Option Char) :=
  let name := (argument.takeWhile (· != '=')).drop 2
  let value := argument.drop (name.length + 2)
  let found? :=
    match form.long.find? fun (long, _) => long.toList == name with
    | some found => some found
    | none => form.long.find? fun (long, _) => name.isPrefixOf long.toList
  match found? with
  | none => .error (.unknownName argument)
  | some (_, letter) =>
      if form.valued.toList.contains letter && value.isEmpty then
        .ok ([], some letter)
      else
        .ok ([(letter, value.drop 1)], none)

end OptionForm

namespace Options

/-- Options with others in front. -/
def prepend (given : List (Char × Bytes)) (options : Options) : Options :=
  { options with given := given ++ options.given }

/-- The options and operands that arguments give. -/
def read (form : OptionForm) : List Bytes → Except OptionFailure Options
  | [] => .ok {}
  | ['-', '-'] :: operands => .ok { operands := operands }
  | ('-' :: letter :: letters) :: others => do
      let (given, next) ←
        if letter = '-' then form.ofName ('-' :: letter :: letters)
        else form.ofLetters (letter :: letters)
      match next with
      | none => return (← read form others).prepend given
      | some valued =>
          match others with
          | value :: others =>
              return (← read form others).prepend (given ++ [(valued, value)])
          | [] =>
              if letter = '-' then throw (.noValueBehind ('-' :: letter :: letters))
              else throw (.noValue valued)
  | operand :: others => do
      let options ← if form.leads then pure ⟨[], others⟩ else read form others
      return { options with operands := operand :: options.operands }

/-- Whether an option was given. -/
def has (options : Options) (letter : Char) : Bool :=
  options.given.any fun (given, _) => given == letter

/-- The value that an option was given last. -/
def value? (options : Options) (letter : Char) : Option Bytes :=
  options.given.reverse.lookup letter

/-- The values that an option was given. -/
def values (options : Options) (letter : Char) : List Bytes :=
  (options.given.filter fun (given, _) => given == letter).map Prod.snd

end Options
end Shell
end NotePress
