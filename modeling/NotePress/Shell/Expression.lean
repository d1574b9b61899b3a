import NotePress.Shell.Pattern

/-!
# Regular expressions

A regular expression describes texts. It has two spellings: in the basic one, the
signs `(`, `)`, `{`, `|`, `+` and `?` are operators only behind a backslash, and in
the extended one only without it.

An expression is matched at a place of a text in all the ways there are. Of these,
the one that takes most of the text counts, and among equally long ones the first,
where every repetition takes as much as it can.
-/

namespace NotePress
namespace Shell

/-- A regular expression. -/
inductive Expression
  | nothing
  /-- One character of some ranges, or one outside them. -/
  | oneOf (negated : Bool) (ranges : List (Char × Char))
  | atStart
  | atEnd
  | both (first second : Expression)
  | either (first second : Expression)
  | repeated (inner : Expression) (low : Nat) (high : Option Nat)
  | group (number : Nat) (inner : Expression)
  /-- What a group has matched. -/
  | sameAs (number : Nat)
  deriving DecidableEq, Repr, Inhabited

namespace Expression

/-- A place in a text, reached by a match. -/
structure Place where
  position : Nat
  rest : Bytes
  groups : List (Nat × Bytes) := []
  deriving DecidableEq, Repr, Inhabited

/-- The places reached by steps, each of which takes something, from at least
`low` to at most `high` of them, most steps first. -/
def iterate
    (step : Place → List Place)
    (low : Nat)
    (high : Option Nat) : Nat → Place → List Place
  | 0, place => if low = 0 then [place] else []
  | fuel + 1, place =>
      let onward :=
        if high = some 0 then
          []
        else
          ((step place).filter fun next =>
            place.position < next.position).flatMap
            (iterate step (low - 1) (high.map (· - 1)) fuel)
      if low = 0 then
        onward ++ [place]
      else if onward.isEmpty && (step place).contains place then
        [place]
      else
        onward

/-- Whether a character is in some ranges. -/
def isIn
    (ignoreCase : Bool)
    (ranges : List (Char × Char))
    (byte : Char) : Bool :=
  let holds := fun byte : Char =>
    ranges.any fun (low, high) => low ≤ byte && byte ≤ high
  holds byte || (ignoreCase && (holds byte.toLower || holds byte.toUpper))

/-- The places that a match may reach from a place. -/
def reach (ignoreCase : Bool) : Expression → Place → List Place
  | nothing, place => [place]
  | oneOf negated ranges, place =>
      match place.rest with
      | [] => []
      | byte :: rest =>
          if negated != isIn ignoreCase ranges byte then
            [{ place with position := place.position + 1, rest := rest }]
          else
            []
  | atStart, place => if place.position = 0 then [place] else []
  | atEnd, place => if place.rest.isEmpty then [place] else []
  | both first second, place =>
      (reach ignoreCase first place).flatMap (reach ignoreCase second)
  | either first second, place =>
      reach ignoreCase first place ++ reach ignoreCase second place
  | repeated inner low high, place =>
      iterate (reach ignoreCase inner) low high (place.rest.length + 1) place
  | group number inner, place =>
      (reach ignoreCase inner place).map fun reached =>
        let taken := place.rest.take (reached.position - place.position)
        { reached with groups := (number, taken) :: reached.groups }
  | sameAs number, place =>
      let taken := (place.groups.lookup number).getD []
      if taken.isPrefixOf place.rest then
        [{ place with
          position := place.position + taken.length
          rest := place.rest.drop taken.length }]
      else
        []

/-- The first of the places that are furthest on. -/
def furthest? : List Place → Option Place
  | [] => none
  | place :: others =>
      match furthest? others with
      | some other =>
          if place.position < other.position then some other else some place
      | none => some place

/-- The match at a place that counts. -/
def matchAt?
    (ignoreCase : Bool)
    (expression : Expression)
    (place : Place) : Option Place :=
  furthest? (reach ignoreCase expression place)

/-- A match: what stands before it, what it takes, and the place behind it. -/
structure Found where
  before : Bytes
  taken : Bytes
  behind : Place
  deriving DecidableEq, Repr, Inhabited

/-- The first match in a text, from a position on. -/
def find?
    (ignoreCase : Bool)
    (expression : Expression)
    (position : Nat)
    (text : Bytes) : Option Found :=
  match matchAt? ignoreCase expression ⟨position, text, []⟩ with
  | some behind =>
      some ⟨[], text.take (behind.position - position), behind⟩
  | none =>
      match text with
      | [] => none
      | byte :: rest =>
          (find? ignoreCase expression (position + 1) rest).map fun found =>
            { found with before := byte :: found.before }

/-- A text cut at matches: what stands before each of them, and after the last. -/
abbrev Cut := List Found × Bytes

/-- A cut of the text with one more byte in front. -/
def prepend (byte : Char) : Cut → Cut
  | ([], rest) => ([], byte :: rest)
  | (found :: others, rest) =>
      ({ found with before := byte :: found.before } :: others, rest)

/-- A text cut at all its matches from a position on. They do not overlap, and an
empty one does not stand right behind another one. -/
def cutAll
    (fuel : Nat)
    (ignoreCase : Bool)
    (expression : Expression)
    (isBehind : Bool)
    (position : Nat)
    (text : Bytes) : Cut :=
  match fuel with
  | 0 => ([], text)
  | fuel + 1 =>
      match find? ignoreCase expression position text with
      | none => ([], text)
      | some found =>
          let add := fun cut : Cut =>
            if isBehind && found.before.isEmpty && found.taken.isEmpty then cut
            else (found :: cut.1, cut.2)
          if found.taken.isEmpty then
            match found.behind.rest with
            | [] => add ([], [])
            | byte :: rest =>
                add (prepend byte
                  (cutAll fuel ignoreCase expression false
                    (found.behind.position + 1) rest))
          else
            add (cutAll fuel ignoreCase expression true found.behind.position
              found.behind.rest)

/-- A text cut at all its matches. -/
def cut (ignoreCase : Bool) (expression : Expression) (text : Bytes) : Cut :=
  cutAll (text.length + 2) ignoreCase expression false 0 text

/-! ## Spelling -/

/-- A sign in the spelling of an expression. -/
inductive Sign
  | part (expression : Expression)
  | opening
  | closing
  | bar
  | repetition (low : Nat) (high : Option Nat)
  deriving DecidableEq, Repr, Inhabited

/-- The expression for one character. -/
def exactly (byte : Char) : Expression :=
  oneOf false [(byte, byte)]

/-- The characters of words. -/
def wordRanges : List (Char × Char) :=
  [('a', 'z'), ('A', 'Z'), ('0', '9'), ('_', '_')]

/-- The operator that a character is where it is one. -/
def operator? : Char → Option Sign
  | '(' => some .opening
  | ')' => some .closing
  | '|' => some .bar
  | '+' => some (.repetition 1 none)
  | '?' => some (.repetition 0 (some 1))
  | _ => none

/-- The bounds of a repetition behind its opening brace, and what follows them. -/
def bounds? (extended : Bool) (text : Bytes) : Option (Sign × Bytes) :=
  let low := text.takeWhile (·.isDigit)
  let rest := text.drop low.length
  let (high, rest) :=
    match rest with
    | ',' :: rest =>
        let high := rest.takeWhile (·.isDigit)
        (Bytes.toNat? high, rest.drop high.length)
    | rest => (Bytes.toNat? low, rest)
  match extended, rest with
  | true, '}' :: rest => some (.repetition ((Bytes.toNat? low).getD 0) high, rest)
  | false, '\\' :: '}' :: rest =>
      some (.repetition ((Bytes.toNat? low).getD 0) high, rest)
  | _, _ => none

/-- What a character behind a backslash stands for if it is no operator. -/
def escaped (byte : Char) : Expression :=
  match byte with
  | 'n' => exactly '\n'
  | 't' => exactly '\t'
  | 'w' => oneOf false wordRanges
  | 'W' => oneOf true wordRanges
  | 's' => oneOf false (Pattern.classRanges "space".toList)
  | 'S' => oneOf true (Pattern.classRanges "space".toList)
  | byte =>
      if byte.isDigit then sameAs (byte.toNat - '0'.toNat) else exactly byte

/-- The signs that spell an expression. `isFirst` tells whether no part stands
before the text in its group: there, a star stands for itself in the basic
spelling, and only there is `^` an anchor. -/
def signs?
    (fuel : Nat)
    (extended isFirst : Bool)
    (text : Bytes) : Option (List Sign) :=
  match fuel with
  | 0 => none
  | fuel + 1 =>
      let next := fun (isFirst : Bool) (sign : Sign) (rest : Bytes) =>
        (signs? fuel extended isFirst rest).map (sign :: ·)
      let operator := fun (byte : Char) (rest : Bytes) =>
        if byte = '\x7b' then
          match bounds? extended rest with
          | some (sign, rest) => next false sign rest
          | none => none
        else
          match operator? byte with
          | some sign => next (sign == .opening || sign == .bar) sign rest
          | none => next false (.part (exactly byte)) rest
      let isOperator := fun byte : Char =>
        byte == '\x7b' || (operator? byte).isSome
      match text with
      | [] => some []
      | ['\\'] => none
      | '\\' :: byte :: rest =>
          if !extended && isOperator byte then
            operator byte rest
          else
            next false (.part (escaped byte)) rest
      | '[' :: rest =>
          let (negated, inside) :=
            match rest with
            | '^' :: inside => (true, inside)
            | inside => (false, inside)
          match Pattern.ranges? (inside.length + 1) true
              (inside.map fun byte => ⟨byte, false⟩) with
          | none => none
          | some (ranges, rest) =>
              next false (.part (oneOf negated ranges))
                (rest.map PatternByte.byte)
      | '.' :: rest => next false (.part (oneOf true [])) rest
      | '*' :: rest =>
          if isFirst && !extended then
            next false (.part (exactly '*')) rest
          else
            next false (.repetition 0 none) rest
      | '^' :: rest =>
          if isFirst || extended then
            next true (.part atStart) rest
          else
            next false (.part (exactly '^')) rest
      | '$' :: rest =>
          let isLast :=
            rest.isEmpty || extended ||
              ['\\', ')'].isPrefixOf rest || ['\\', '|'].isPrefixOf rest
          next false (.part (if isLast then atEnd else exactly '$')) rest
      | byte :: rest =>
          if extended && isOperator byte then
            operator byte rest
          else
            next false (.part (exactly byte)) rest

/-- An expression with the repetitions that follow it. -/
def withRepetitions (expression : Expression) : List Sign → Expression × List Sign
  | .repetition low high :: rest =>
      withRepetitions (repeated expression low high) rest
  | rest => (expression, rest)

mutual

/-- Expressions with bars between them, given how many groups were opened before;
also how many are opened behind them, and what follows. -/
def alternatives?
    (fuel groups : Nat)
    (signs : List Sign) : Option (Expression × Nat × List Sign) :=
  match fuel with
  | 0 => none
  | fuel + 1 => do
      let (first, groups, rest) ← parts? fuel groups signs
      match rest with
      | .bar :: rest =>
          let (second, groups, rest) ← alternatives? fuel groups rest
          some (either first second, groups, rest)
      | rest => some (first, groups, rest)

/-- Expressions one after the other. -/
def parts?
    (fuel groups : Nat)
    (signs : List Sign) : Option (Expression × Nat × List Sign) :=
  match fuel with
  | 0 => none
  | fuel + 1 =>
      let more := fun (first : Expression) (groups : Nat) (rest : List Sign) => do
        let (first, rest) := withRepetitions first rest
        let (second, groups, rest) ← parts? fuel groups rest
        some (both first second, groups, rest)
      match signs with
      | .part first :: rest => more first groups rest
      | .opening :: rest =>
          match alternatives? fuel (groups + 1) rest with
          | some (inner, opened, .closing :: rest) =>
              more (group (groups + 1) inner) opened rest
          | _ => none
      | .repetition _ _ :: _ => none
      | rest => some (nothing, groups, rest)

end

/-- The expression that a text spells. -/
def ofText? (extended : Bool) (text : Bytes) : Option Expression := do
  let signs ← signs? (text.length + 1) extended true text
  match ← alternatives? (3 * signs.length + 3) 0 signs with
  | (expression, _, []) => some expression
  | _ => none

/-- The expression that matches a text itself. -/
def literally (text : Bytes) : Expression :=
  text.foldr (fun byte expression => both (exactly byte) expression) nothing

end Expression
end Shell
end NotePress
