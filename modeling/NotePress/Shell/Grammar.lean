import NotePress.Shell.Script

/-!
# The grammar of shell scripts

Reads scripts from left to right. A command ends at a separator, at a closing
bracket or at a word that closes what is around it (`done`, `fi`, ...). The
functions call one another along the nesting of a script, and `fuel` bounds how
deep.
-/

namespace NotePress
namespace Shell
namespace Grammar

/-- The characters that end a word. -/
def endsWord (byte : Char) : Bool :=
  byte == ' ' || byte == '\t' || byte == '\n' || byte == ';' || byte == '&' ||
    byte == '|' || byte == '<' || byte == '>' || byte == '(' || byte == ')'

/-- The characters that a name starts with. -/
def startsName (byte : Char) : Bool :=
  byte.isAlpha || byte == '_'

/-- The characters of names. -/
def isNameByte (byte : Char) : Bool :=
  byte.isAlphanum || byte == '_'

/-- The parameters whose names are single characters. -/
def isSpecial (byte : Char) : Bool :=
  byte.isDigit || byte == '@' || byte == '*' || byte == '#' || byte == '?' ||
    byte == '$' || byte == '!' || byte == '-'

/-- The words that close what is around them. -/
def closingWords : List Bytes :=
  ["then", "elif", "else", "fi", "do", "done", "esac", "\x7d"].map String.toList

/-- The mark that stands for a line that was taken out of a script, so that the
lines after it keep their numbers. It is no byte. -/
def lineMark : Char := '\u0100'

/-- How many lines end in a text. -/
def lineEnds (text : Bytes) : Nat :=
  text.count '\n' + text.count lineMark

/-- An empty text with as many lines as a text. -/
def linesLike (text : Bytes) : Bytes :=
  match lineEnds text with
  | 0 => []
  | others + 1 => '\n' :: List.replicate others lineMark

/-- A script without the blanks and the comment at its start, and, if asked for,
without line feeds there. -/
def skip (overLines inComment : Bool) : Bytes → Bytes
  | [] => []
  | '\\' :: '\n' :: rest =>
      if inComment && !overLines then
        '\n' :: rest
      else
        skip overLines false rest
  | '\n' :: rest =>
      if overLines then skip overLines false rest else '\n' :: rest
  | byte :: rest =>
      if inComment || byte == '#' then
        skip overLines true rest
      else if byte == ' ' || byte == '\t' || byte == lineMark then
        skip overLines false rest
      else
        byte :: rest

/-- A script without the blanks and the comment at its start. -/
def skipBlanks (text : Bytes) : Bytes :=
  skip false false text

/-- A script without the blanks, comments and line feeds at its start. -/
def skipLines (text : Bytes) : Bytes :=
  skip true false text

/-- The word without quotes and expansions at the start of a script. -/
def bareWord (text : Bytes) : Bytes :=
  text.takeWhile fun byte => !endsWord byte

/-- What follows a word at the start of a script. -/
def after? (word : String) (text : Bytes) : Option Bytes :=
  let text := skipLines text
  if bareWord text == word.toList then
    some (text.drop word.length)
  else
    none

/-- What follows some characters at the start of a script. -/
def behind? (start : String) (text : Bytes) : Option Bytes :=
  if start.toList.isPrefixOf text then some (text.drop start.length) else none

/-- How a word is read. -/
inductive Mode
  /-- Up to a character that ends words. -/
  | bare
  /-- Up to a double quote. -/
  | doubleQuoted
  /-- Up to the brace that closes an expansion. -/
  | braced (quoted : Bool)
  /-- Up to the end of a text in which only expansions count. -/
  | text
  deriving DecidableEq, Repr

namespace Mode

/-- Whether a character ends what is read. -/
def endsAt (mode : Mode) (byte : Char) : Bool :=
  match mode with
  | bare => endsWord byte
  | doubleQuoted => byte == '"'
  | braced _ => byte == '}'
  | text => false

/-- Whether what is read is quoted. -/
def isQuoted (mode : Mode) : Bool :=
  match mode with
  | bare => false
  | doubleQuoted => true
  | braced quoted => quoted
  | text => true

/-- Whether a backslash quotes a character. In quotes it does so for few
characters and stands for itself otherwise. -/
def escapes (mode : Mode) (byte : Char) : Bool :=
  !mode.isQuoted || byte == '$' || byte == '\\' || byte == '\u0060' ||
    (byte == '"' && mode != .text) || (byte == '}' && mode == .braced true)

/-- The piece that a character stands for. -/
def piece (mode : Mode) (byte : Char) : Piece :=
  if mode.isQuoted then .quoted [byte] else .plain [byte]

end Mode

/-- Put a piece before others, joined with the first of them if both are plain or
both are quoted. -/
def joinPiece (piece : Piece) (others : Word) : Word :=
  match piece, others with
  | .plain text, .plain more :: rest => .plain (text ++ more) :: rest
  | .quoted text, .quoted more :: rest => .quoted (text ++ more) :: rest
  | _, _ => piece :: others

/-- Cut off what stands before an unescaped backquote, with the backslashes taken
from what they escape there. -/
def splitBackquoted? : Bytes → Option (Bytes × Bytes)
  | [] => none
  | '\u0060' :: rest => some ([], rest)
  | '\\' :: byte :: rest =>
      (splitBackquoted? rest).map fun (inside, after) =>
        (if byte == '\\' || byte == '$' || byte == '\u0060' then
          byte :: inside
        else
          '\\' :: byte :: inside, after)
  | byte :: rest =>
      (splitBackquoted? rest).map fun (inside, after) => (byte :: inside, after)

/-- Cut off what stands before the two brackets that close an arithmetic
expansion. -/
def splitArithmetic? (depth : Nat) : Bytes → Option (Bytes × Bytes)
  | [] => none
  | [_] => none
  | first :: second :: rest =>
      if depth = 0 ∧ first = ')' ∧ second = ')' then
        some ([], rest)
      else
        let inner :=
          if first = '(' then depth + 1
          else if first = ')' then depth - 1
          else depth
        (splitArithmetic? inner (second :: rest)).map fun (inside, after) =>
          (first :: inside, after)

/-- The number of the stream before a redirection sign, if it is one. -/
def descriptor? (text : Bytes) : Option (Nat × Bytes) :=
  let digits := text.takeWhile (·.isDigit)
  let rest := text.drop digits.length
  match rest with
  | '<' :: _ => some ((Bytes.toNat? digits).getD 0, rest)
  | '>' :: _ => some ((Bytes.toNat? digits).getD 1, rest)
  | _ => none

/-- The kind that a redirection sign stands for. -/
def redirectionKind? (text : Bytes) : Option (RedirectionKind × Bytes) :=
  match text with
  | '<' :: '<' :: rest => some (.here, rest)
  | '<' :: '&' :: rest => some (.duplicate, rest)
  | '<' :: '>' :: rest => some (.update, rest)
  | '<' :: rest => some (.input, rest)
  | '>' :: '>' :: rest => some (.append, rest)
  | '>' :: '&' :: rest => some (.duplicate, rest)
  | '>' :: '|' :: rest => some (.overwrite, rest)
  | '>' :: rest => some (.output, rest)
  | _ => none

/-- The lines before a line with a delimiter, and what follows it. -/
def splitHere
    (delimiter : Bytes)
    (withoutTabs : Bool) : List Bytes → Bytes × List Bytes
  | [] => ([], [])
  | line :: others =>
      let line := if withoutTabs then line.dropWhile (· == '\t') else line
      if line == delimiter then
        ([], others)
      else
        let (inside, after) := splitHere delimiter withoutTabs others
        (line ++ '\n' :: inside, after)

/-- The lines that a redirection takes from the script, and the script with marks
in their place. They start after the line of the redirection. -/
def takeHere
    (delimiter : Bytes)
    (withoutTabs : Bool)
    (rest : Bytes) : Bytes × Bytes :=
  let line := rest.takeWhile (· != '\n')
  let marked := rest.drop (line.length + 1)
  let lines := Bytes.lines (marked.dropWhile (· == lineMark))
  let (inside, others) := splitHere delimiter withoutTabs lines
  let marks :=
    marked.takeWhile (· == lineMark) ++
      List.replicate (lines.length - others.length) lineMark
  (inside, line ++ '\n' :: marks ++ Bytes.unlines others)

/-- The delimiter of lines that a redirection takes, whether it was quoted, and
what follows it. -/
def delimiter (text : Bytes) : Bytes × Bool × Bytes :=
  let word := bareWord text
  let isQuote := fun byte => byte == '\'' || byte == '"' || byte == '\\'
  (word.filter fun byte => !isQuote byte, word.any isQuote,
    text.drop word.length)

/-- The name that an assignment at the start of a script assigns to, and what
follows the equals sign. -/
def assignedName? (text : Bytes) : Option (Bytes × Bytes) :=
  let name := text.takeWhile isNameByte
  match text.drop name.length with
  | '=' :: rest =>
      match name with
      | first :: _ => if startsName first then some (name, rest) else none
      | [] => none
  | _ => none

/-- The name of a function that is defined at the start of a script, and what
follows the brackets. -/
def definedName? (text : Bytes) : Option (Bytes × Bytes) :=
  let name := text.takeWhile isNameByte
  match name, skipBlanks (text.drop name.length) with
  | first :: _, '(' :: rest =>
      match skipBlanks rest with
      | ')' :: rest => if startsName first then some (name, rest) else none
      | _ => none
  | _, _ => none

/-- Whether nothing more is read by a list of commands. -/
def endsList (text : Bytes) : Bool :=
  match text with
  | [] => true
  | ')' :: _ => true
  | ';' :: ';' :: _ => true
  | _ => closingWords.contains (bareWord text)

/-- The name at the start of a text, and what follows it. Lines joined by a
backslash are one line. -/
def nameAt : Bytes → Bytes × Bytes
  | '\\' :: '\n' :: rest => nameAt rest
  | byte :: rest =>
      if isNameByte byte then
        let (name, rest) := nameAt rest
        (byte :: name, rest)
      else
        ([], byte :: rest)
  | [] => ([], [])

/-- The name of a parameter in braces, and what follows it. -/
def parameterName? (text : Bytes) : Option (Bytes × Bytes) :=
  match text with
  | [] => none
  | first :: rest =>
      if startsName first then
        some (nameAt text)
      else if first.isDigit then
        some (text.takeWhile (·.isDigit), text.dropWhile (·.isDigit))
      else if isSpecial first then
        some ([first], rest)
      else
        none

section

variable (lines : Nat)

mutual

/-- A word, and what follows it. -/
def pieces?
    (fuel : Nat)
    (mode : Mode)
    (text : Bytes) : Option (Word × Bytes) :=
  match fuel with
  | 0 => none
  | fuel + 1 =>
      match text with
      | [] =>
          match mode with
          | .doubleQuoted => none
          | .braced _ => none
          | _ => some ([], [])
      | byte :: rest =>
          if mode.endsAt byte then
            some ([], text)
          else
            match piece? fuel mode byte rest with
            | none => none
            | some (piece, rest) =>
                (pieces? fuel mode rest).map fun (others, after) =>
                  (joinPiece piece others, after)

/-- The piece that a character starts, and what follows it. -/
def piece?
    (fuel : Nat)
    (mode : Mode)
    (byte : Char)
    (rest : Bytes) : Option (Piece × Bytes) :=
  match fuel with
  | 0 => none
  | fuel + 1 =>
      match byte with
      | '\\' =>
          match rest with
          | '\n' :: others => some (.plain [], others)
          | next :: others =>
              if mode.escapes next then
                some (.quoted [next], others)
              else
                some (mode.piece byte, rest)
          | [] => some (mode.piece byte, [])
      | '\'' =>
          if mode.isQuoted then
            some (mode.piece byte, rest)
          else
            match rest.dropWhile (· != '\'') with
            | [] => none
            | _ :: after => some (.quoted (rest.takeWhile (· != '\'')), after)
      | '"' =>
          match mode with
          | .text => some (mode.piece byte, rest)
          | _ =>
              match pieces? fuel .doubleQuoted rest with
              | some (inside, '"' :: after) =>
                  some (.group inside, after)
              | _ => none
      | '\u0060' =>
          match splitBackquoted? rest with
          | none => none
          | some (script, after) =>
              match list? fuel (script ++ linesLike after) with
              | some (body, []) => some (.output mode.isQuoted body, after)
              | _ => none
      | '$' => expansion? fuel mode rest
      | _ => some (mode.piece byte, rest)

/-- The piece that a dollar sign starts, and what follows it. -/
def expansion?
    (fuel : Nat)
    (mode : Mode)
    (text : Bytes) : Option (Piece × Bytes) :=
  match fuel with
  | 0 => none
  | fuel + 1 =>
      match text with
      | '(' :: '(' :: rest =>
          match splitArithmetic? 0 rest with
          | none => inBrackets? fuel mode ('(' :: rest)
          | some (expression, after) =>
              match pieces? fuel .text expression with
              | some (word, []) => some (.arithmetic mode.isQuoted word, after)
              | _ => none
      | '(' :: rest => inBrackets? fuel mode rest
      | '{' :: '#' :: rest =>
          match parameterName? rest with
          | some (name, '}' :: after) =>
              some (.parameter mode.isQuoted name .length, after)
          | _ => inBraces? fuel mode ('#' :: rest)
      | '{' :: rest => inBraces? fuel mode rest
      | first :: rest =>
          if startsName first then
            let (name, after) := nameAt text
            some (.parameter mode.isQuoted name .value, after)
          else if isSpecial first then
            some (.parameter mode.isQuoted [first] .value, rest)
          else
            some (mode.piece '$', text)
      | [] => some (mode.piece '$', [])

/-- The piece of a script in brackets, and what follows the closing bracket. -/
def inBrackets?
    (fuel : Nat)
    (mode : Mode)
    (text : Bytes) : Option (Piece × Bytes) :=
  match fuel with
  | 0 => none
  | fuel + 1 =>
      match list? fuel text with
      | some (body, rest) =>
          match skipLines rest with
          | ')' :: after => some (.output mode.isQuoted body, after)
          | _ => none
      | none => none

/-- The piece of a parameter in braces, and what follows the closing brace. -/
def inBraces?
    (fuel : Nat)
    (mode : Mode)
    (text : Bytes) : Option (Piece × Bytes) :=
  match fuel with
  | 0 => none
  | fuel + 1 =>
      match parameterName? text with
      | none => none
      | some (name, rest) =>
          let withWord := fun (quoted : Bool) (use : Word → Use) (rest : Bytes) =>
            match pieces? fuel (.braced quoted) rest with
            | some (word, '}' :: after) =>
                some (.parameter mode.isQuoted name (use word), after)
            | _ => none
          match rest with
          | '}' :: after => some (.parameter mode.isQuoted name .value, after)
          | ':' :: '-' :: rest => withWord mode.isQuoted (.otherwise true) rest
          | ':' :: '=' :: rest => withWord mode.isQuoted (.assign true) rest
          | ':' :: '?' :: rest => withWord mode.isQuoted (.demand true) rest
          | ':' :: '+' :: rest => withWord mode.isQuoted (.replace true) rest
          | '-' :: rest => withWord mode.isQuoted (.otherwise false) rest
          | '=' :: rest => withWord mode.isQuoted (.assign false) rest
          | '?' :: rest => withWord mode.isQuoted (.demand false) rest
          | '+' :: rest => withWord mode.isQuoted (.replace false) rest
          | '#' :: '#' :: rest => withWord false (.strip false true) rest
          | '#' :: rest => withWord false (.strip false false) rest
          | '%' :: '%' :: rest => withWord false (.strip true true) rest
          | '%' :: rest => withWord false (.strip true false) rest
          | _ => none

/-- The commands up to what closes the list, and what follows them. The list ends
too where no command can be read. -/
def list? (fuel : Nat) (text : Bytes) : Option (Command × Bytes) :=
  match fuel with
  | 0 => none
  | fuel + 1 =>
      (commands? fuel false text).map fun (commands, after) =>
        (match commands with
        | [command] => command
        | _ => .sequence commands, after)

/-- The commands of a list, and what follows them; of the first line only, if
asked for. -/
def commands?
    (fuel : Nat)
    (oneLine : Bool)
    (text : Bytes) : Option (List Command × Bytes) :=
  match fuel with
  | 0 => none
  | fuel + 1 =>
      let start := if oneLine then skipBlanks text else skipLines text
      if endsList start || (oneLine && start.head? == some '\n') then
        some ([], start)
      else
        match condition? fuel start with
        | none => some ([], start)
        | some (command, rest) =>
            match skipBlanks rest with
            | ';' :: ';' :: others => some ([command], ';' :: ';' :: others)
            | ';' :: others =>
                (commands? fuel oneLine others).map fun (commands, after) =>
                  (command :: commands, after)
            | '\n' :: others =>
                if oneLine then
                  some ([command], '\n' :: others)
                else
                  (commands? fuel oneLine others).map fun (commands, after) =>
                    (command :: commands, after)
            | '&' :: others =>
                (commands? fuel oneLine others).map fun (commands, after) =>
                  (.background command :: commands, after)
            | after => some ([command], after)

/-- Pipelines that depend on one another, and what follows them. -/
def condition? (fuel : Nat) (text : Bytes) : Option (Command × Bytes) :=
  match fuel with
  | 0 => none
  | fuel + 1 =>
      match pipeline? fuel text with
      | none => none
      | some (first, rest) => moreConditions? fuel first rest

/-- What follows the first of pipelines that depend on one another. -/
def moreConditions?
    (fuel : Nat)
    (before : Command)
    (text : Bytes) : Option (Command × Bytes) :=
  match fuel with
  | 0 => none
  | fuel + 1 =>
      match skipBlanks text with
      | '&' :: '&' :: rest =>
          match pipeline? fuel (skipLines rest) with
          | none => none
          | some (next, rest) => moreConditions? fuel (.both before next) rest
      | '|' :: '|' :: rest =>
          match pipeline? fuel (skipLines rest) with
          | none => none
          | some (next, rest) => moreConditions? fuel (.either before next) rest
      | rest => some (before, rest)

/-- A pipeline, and what follows it. -/
def pipeline? (fuel : Nat) (text : Bytes) : Option (Command × Bytes) :=
  match fuel with
  | 0 => none
  | fuel + 1 =>
      match after? "!" text with
      | some rest =>
          (pipeline? fuel rest).map fun (command, after) =>
            (.negated command, after)
      | none =>
          (stages? fuel text).map fun (stages, after) =>
            (match stages with
            | [command] => command
            | _ => .pipeline stages, after)

/-- The stages of a pipeline, and what follows them. -/
def stages? (fuel : Nat) (text : Bytes) : Option (List Command × Bytes) :=
  match fuel with
  | 0 => none
  | fuel + 1 =>
      match command? fuel (skipBlanks text) with
      | none => none
      | some (command, rest) =>
          match skipBlanks rest with
          | '|' :: '|' :: others => some ([command], '|' :: '|' :: others)
          | '|' :: others =>
              (stages? fuel (skipLines others)).map fun (stages, after) =>
                (command :: stages, after)
          | after => some ([command], after)

/-- A command, and what follows it. -/
def command? (fuel : Nat) (text : Bytes) : Option (Command × Bytes) :=
  match fuel with
  | 0 => none
  | fuel + 1 =>
      match text, definedName? text with
      | '(' :: rest, _ =>
          match list? fuel rest with
          | some (body, ')' :: after) => redirected? fuel (.subshell body) after
          | _ => none
      | _, some (name, rest) =>
          (command? fuel (skipLines rest)).map fun (body, after) =>
            (.define name body, after)
      | _, none =>
          let keyword := bareWord text
          let rest := text.drop keyword.length
          match String.ofList keyword with
          | "\x7b" =>
              match list? fuel rest with
              | some (body, after) =>
                  match after? "\x7d" after with
                  | some after => redirected? fuel body after
                  | none => none
              | none => none
          | "if" =>
              (conditional? fuel rest).bind fun (command, after) =>
                redirected? fuel command after
          | "while" =>
              (loop? fuel rest).bind fun ((test, body), after) =>
                redirected? fuel (.loop false test body) after
          | "until" =>
              (loop? fuel rest).bind fun ((test, body), after) =>
                redirected? fuel (.loop true test body) after
          | "for" =>
              (each? fuel rest).bind fun (command, after) =>
                redirected? fuel command after
          | "case" =>
              (choice? fuel rest).bind fun (command, after) =>
                redirected? fuel command after
          | _ => simple? fuel [] [] [] text

/-- A command with the redirections after it, and what follows them. -/
def redirected?
    (fuel : Nat)
    (command : Command)
    (text : Bytes) : Option (Command × Bytes) :=
  match fuel with
  | 0 => none
  | fuel + 1 =>
      match redirection? fuel (skipBlanks text) with
      | none => some (command, text)
      | some (redirection, rest) =>
          redirected? fuel
            (match command with
            | .redirected inner others =>
                .redirected inner (others ++ [redirection])
            | _ => .redirected command [redirection])
            rest

/-- A redirection, and what follows it. -/
def redirection? (fuel : Nat) (text : Bytes) : Option (Redirection × Bytes) :=
  match fuel with
  | 0 => none
  | fuel + 1 =>
      match descriptor? text with
      | none => none
      | some (descriptor, sign) =>
          match redirectionKind? sign with
          | none => none
          | some (.here, rest) =>
              let (withoutTabs, rest) :=
                match rest with
                | '-' :: rest => (true, rest)
                | rest => (false, rest)
              let (word, isQuoted, rest) := delimiter (skipBlanks rest)
              let (body, rest) := takeHere word withoutTabs rest
              if isQuoted then
                some (.mk descriptor .here [.quoted body], rest)
              else
                match pieces? fuel .text body with
                | some (target, []) => some (.mk descriptor .here target, rest)
                | _ => none
          | some (kind, rest) =>
              match pieces? fuel .bare (skipBlanks rest) with
              | some (first :: others, after) =>
                  some (.mk descriptor kind (first :: others), after)
              | _ => none

/-- A command without parts that are commands, and what follows it. -/
def simple?
    (fuel : Nat)
    (assignments : List (Bytes × Word))
    (words : List Word)
    (redirections : List Redirection)
    (text : Bytes) : Option (Command × Bytes) :=
  match fuel with
  | 0 => none
  | fuel + 1 =>
      let start := skipBlanks text
      match redirection? fuel start with
      | some (redirection, rest) =>
          simple? fuel assignments words (redirections ++ [redirection]) rest
      | none =>
          let assignment :=
            if words.isEmpty then assignedName? start else none
          match assignment, pieces? fuel .bare start with
          | some (name, rest), _ =>
              match pieces? fuel .bare rest with
              | some (value, rest) =>
                  simple? fuel (assignments ++ [(name, value)]) words
                    redirections rest
              | none => none
          | none, some (first :: others, rest) =>
              simple? fuel assignments (words ++ [first :: others])
                redirections rest
          | none, some ([], _) =>
              let line := lines + 1 - lineEnds text
              let command := Command.simple line assignments words
              if redirections.isEmpty then
                if words.isEmpty && assignments.isEmpty then
                  none
                else
                  some (command, start)
              else
                some (.redirected command redirections, start)
          | none, none => none

/-- What follows `if`, and what follows `fi`. -/
def conditional? (fuel : Nat) (text : Bytes) : Option (Command × Bytes) :=
  match fuel with
  | 0 => none
  | fuel + 1 => do
      let (test, rest) ← list? fuel text
      let (body, rest) ← list? fuel (← after? "then" rest)
      match after? "elif" rest, after? "else" rest with
      | some rest, _ =>
          let (other, after) ← conditional? fuel rest
          some (.conditional test body other, after)
      | none, some rest =>
          let (other, rest) ← list? fuel rest
          some (.conditional test body other, ← after? "fi" rest)
      | none, none =>
          some (.conditional test body (.sequence []), ← after? "fi" rest)

/-- The test and the body of a loop, and what follows `done`. -/
def loop? (fuel : Nat) (text : Bytes) : Option ((Command × Command) × Bytes) :=
  match fuel with
  | 0 => none
  | fuel + 1 => do
      let (test, rest) ← list? fuel text
      let (body, rest) ← list? fuel (← after? "do" rest)
      some ((test, body), ← after? "done" rest)

/-- What follows `for`, and what follows `done`. -/
def each? (fuel : Nat) (text : Bytes) : Option (Command × Bytes) :=
  match fuel with
  | 0 => none
  | fuel + 1 => do
      let start := skipBlanks text
      let name := bareWord start
      let rest := start.drop name.length
      let (words, rest) ←
        match after? "in" rest with
        | none => some (none, rest)
        | some rest =>
            (words? fuel rest).map fun (words, after) => (some words, after)
      let rest :=
        match skipBlanks rest with
        | ';' :: rest => rest
        | rest => rest
      let (body, rest) ← list? fuel (← after? "do" rest)
      some (.each name words body, ← after? "done" rest)

/-- Words on one line, and what follows them. -/
def words? (fuel : Nat) (text : Bytes) : Option (List Word × Bytes) :=
  match fuel with
  | 0 => none
  | fuel + 1 =>
      match pieces? fuel .bare (skipBlanks text) with
      | none => none
      | some ([], rest) => some ([], rest)
      | some (word, rest) =>
          (words? fuel rest).map fun (words, after) => (word :: words, after)

/-- What follows `case`, and what follows `esac`. -/
def choice? (fuel : Nat) (text : Bytes) : Option (Command × Bytes) :=
  match fuel with
  | 0 => none
  | fuel + 1 => do
      let (word, rest) ← pieces? fuel .bare (skipBlanks text)
      let (branches, after) ← branches? fuel (← after? "in" rest)
      some (.choice word branches, after)

/-- The branches of a choice, and what follows `esac`. -/
def branches?
    (fuel : Nat)
    (text : Bytes) : Option (List (List Word × Command) × Bytes) :=
  match fuel with
  | 0 => none
  | fuel + 1 =>
      match after? "esac" text with
      | some after => some ([], after)
      | none => do
          let start := skipLines text
          let start := (behind? "(" start).getD start
          let (patterns, rest) ← patterns? fuel start
          let (body, rest) ← list? fuel rest
          match behind? ";;" (skipLines rest) with
          | some rest =>
              let (others, after) ← branches? fuel rest
              some ((patterns, body) :: others, after)
          | none => some ([(patterns, body)], ← after? "esac" rest)

/-- The patterns of a branch, and what follows their bracket. -/
def patterns? (fuel : Nat) (text : Bytes) : Option (List Word × Bytes) :=
  match fuel with
  | 0 => none
  | fuel + 1 => do
      let (pattern, rest) ← pieces? fuel .bare (skipBlanks text)
      match skipBlanks rest with
      | '|' :: rest =>
          let (others, after) ← patterns? fuel rest
          some (pattern :: others, after)
      | ')' :: after => some ([pattern], after)
      | _ => none

end

end

/-- The commands of a script, line by line, as far as they can be read, and what
is left. A line that cannot be read to its end is left as a whole. -/
def scriptLines (fuel lines : Nat) (text : Bytes) : List Command × Bytes :=
  match fuel with
  | 0 => ([], text)
  | fuel + 1 =>
      match skipLines text with
      | [] => ([], [])
      | start =>
          match commands? lines (16 * start.length + 64) true start with
          | some (commands, []) => (commands, [])
          | some (commands, '\n' :: rest) =>
              let (others, left) := scriptLines fuel lines rest
              (commands ++ others, left)
          | some (commands, rest) =>
              ([], if commands.isEmpty then start else rest)
          | none => ([], start)

/-- Whether a quote is opened in a text and not closed. -/
def hasOpenQuote (quote : Option Char) : Bytes → Bool
  | [] => quote.isSome
  | '\\' :: _ :: rest => hasOpenQuote quote rest
  | byte :: rest =>
      match quote with
      | some opened => hasOpenQuote (if byte == opened then none else quote) rest
      | none =>
          hasOpenQuote
            (if byte == '"' || byte == '\'' || byte == '\u0060' then some byte
            else none) rest

/-- What is wrong where a script cannot be read on. -/
def syntaxError (rest : Bytes) : Bytes :=
  let operator := rest.takeWhile fun byte =>
    byte == ';' || byte == '&' || byte == '|' || byte == ')' || byte == '('
  let token := if operator.isEmpty then bareWord rest else operator.take 2
  if hasOpenQuote none rest then
    "Unterminated quoted string".toList
  else if !operator.isEmpty || closingWords.contains token then
    '"' :: token ++ "\" unexpected".toList
  else
    "end of file unexpected".toList

end Grammar

/-- A script that was read: its commands, and the line and the text from which on
it cannot be read, if there is such a line. -/
structure Reading where
  command : Command
  broken : Option (Nat × Bytes)
  deriving Inhabited

/-- Read a script as far as it can be read. -/
def Reading.ofText (text : Bytes) : Reading :=
  let lines := Grammar.lineEnds text
  match Grammar.scriptLines (text.length + 1) lines text with
  | (commands, []) => ⟨.sequence commands, none⟩
  | (commands, rest) =>
      ⟨.sequence commands, some (lines + 1 - Grammar.lineEnds rest, rest)⟩

end Shell
end NotePress
