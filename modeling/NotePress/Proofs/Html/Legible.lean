import NotePress.Proofs.Html.Signs

/-!
# Legible pieces

A piece is legible when its fixed texts have no characters that a reader takes
for the bounds of a tag, of an entity or of an attribute. The texts of the
document in it may be any. A reader of the written form of legible pieces finds
the signs that the pieces stand for, and in a tag the attributes it was given.
-/

namespace NotePress
namespace Html

/-! ## The signs of a piece -/

/-- The name of a tag as one text. -/
def Tag.text (tag : Tag) : String :=
  String.join (tag.name.map Fragment.text)

/-- The characters that fragments are written with. -/
def writtenOf (fragments : List Fragment) : List Char :=
  fragments.flatMap fun fragment => fragment.text.toList

/-- The characters that attributes are written with. -/
def attributesWritten (attributes : List Attribute) : List Char :=
  writtenOf (attributes.flatMap Attribute.fragments)

/-- What a reader finds in the written form of a piece. -/
def Piece.signs : Piece → List Sign
  | .opening tag attributes =>
      [.tag (tag.text.toList ++ attributesWritten attributes)]
  | .closing tag => [.tag ('/' :: tag.text.toList)]
  | .void tag attributes =>
      [.tag (tag.name.toList ++ attributesWritten attributes ++
        tag.ending.toList.dropLast)]
  | .text content => content.toList.map .character
  | .constant content => content.toList.map .character
  | .raw content => content.toList.map .character

/-- What a reader finds of an attribute. -/
def Attribute.reading : Attribute → String × Option String
  | fixed name value => (name, some value)
  | given name value => (name, some value)
  | flag name => (name, none)

/-! ## Legibility -/

/-- A text without some characters. -/
def Avoids (characters text : List Char) : Prop :=
  ∀ character ∈ text, character ∉ characters

-- The members of the text are looked at, not all characters there are.
instance (characters text : List Char) : Decidable (Avoids characters text) :=
  List.decidableBAll (fun character => character ∉ characters) text

/-- A text without the bounds of tags and entities. -/
def Bare (text : List Char) : Prop :=
  Avoids ['<', '>', '&'] text

/-- A text that stands within one tag. -/
def Enclosed (text : List Char) : Prop :=
  Avoids ['<', '>'] text

/-- A name of a tag or of an attribute. -/
def IsName (name : List Char) : Prop :=
  Avoids ['<', '>', '&', '"', ' ', '=', '/'] name

instance (text : List Char) : Decidable (Bare text) :=
  inferInstanceAs (Decidable (Avoids _ text))

instance (text : List Char) : Decidable (Enclosed text) :=
  inferInstanceAs (Decidable (Avoids _ text))

instance (name : List Char) : Decidable (IsName name) :=
  inferInstanceAs (Decidable (Avoids _ name))

/-- An attribute whose name and fixed value can be read back. -/
def Attribute.Legible : Attribute → Prop
  | fixed name value =>
      IsName name.toList ∧ Bare value.toList ∧ '"' ∉ value.toList
  | given name _ => IsName name.toList
  | flag name => IsName name.toList

instance : DecidablePred Attribute.Legible
  | .fixed name value =>
      inferInstanceAs (Decidable
        (IsName name.toList ∧ Bare value.toList ∧ '"' ∉ value.toList))
  | .given name _ => inferInstanceAs (Decidable (IsName name.toList))
  | .flag name => inferInstanceAs (Decidable (IsName name.toList))

/-- A piece whose fixed texts can be read back. What is written as it is cannot
be told apart from the page around it. -/
def Piece.Legible : Piece → Prop
  | .opening tag attributes =>
      IsName tag.text.toList ∧ tag.text ∉ voidNames ∧
        ∀ each ∈ attributes, each.Legible
  | .closing tag => IsName tag.text.toList
  | .void _ attributes => ∀ each ∈ attributes, each.Legible
  | .text _ => True
  | .constant content => Bare content.toList
  | .raw _ => False

instance : DecidablePred Piece.Legible
  | .opening tag attributes =>
      inferInstanceAs (Decidable
        (IsName tag.text.toList ∧ tag.text ∉ voidNames ∧
          ∀ each ∈ attributes, each.Legible))
  | .closing tag => inferInstanceAs (Decidable (IsName tag.text.toList))
  | .void _ attributes =>
      inferInstanceAs (Decidable
        (∀ each ∈ attributes, each.Legible))
  | .text _ => inferInstanceAs (Decidable True)
  | .constant content => inferInstanceAs (Decidable (Bare content.toList))
  | .raw _ => inferInstanceAs (Decidable False)

/-! ## Reading texts -/

/-- A text without the bounds of tags and entities is read as its characters. -/
theorem signsFrom_bare
    (text rest : List Char)
    (bare : Bare text) :
    signsFrom .text (text ++ rest) =
      (signsFrom .text rest).map (text.map .character ++ ·) := by
  induction text with
  | nil => simp
  | cons first others inductionHypothesis =>
      have here := bare first List.mem_cons_self
      have later := inductionHypothesis fun character member =>
        bare character (List.mem_cons_of_mem first member)
      simp only [List.mem_cons, List.not_mem_nil, or_false, not_or] at here
      obtain ⟨notOpening, notClosing, notEntity⟩ := here
      rw [List.cons_append, signsFrom, if_neg notOpening, if_neg notEntity,
        if_neg notClosing, later, Option.map_map]
      rfl

/-- An escaped character is read as itself. -/
theorem signsFrom_escapeCharacter
    (character : Char)
    (rest : List Char) :
    signsFrom .text (escapeCharacter character ++ rest) =
      (signsFrom .text rest).map (.character character :: ·) := by
  unfold escapeCharacter
  split
  · rfl
  · rfl
  · rfl
  · rename_i notEntity notOpening notClosing
    apply signsFrom_bare [character] rest
    simp only [Bare, Avoids, forall_eq, List.mem_cons, List.not_mem_nil,
      or_false, not_or]
    exact ⟨notOpening, notClosing, notEntity⟩

/-- A character that is escaped for a value is read as itself, quotes included. -/
theorem signsFrom_escapeQuotedCharacter
    (character : Char)
    (rest : List Char) :
    signsFrom .text (escapeQuotedCharacter character ++ rest) =
      (signsFrom .text rest).map (.character character :: ·) := by
  unfold escapeQuotedCharacter
  split
  · rfl
  · exact signsFrom_escapeCharacter character rest

/-- A text written character by character is read as its characters. -/
theorem signsFrom_flatMap
    (write : Char → List Char)
    (readBack : ∀ character rest,
      signsFrom .text (write character ++ rest) =
        (signsFrom .text rest).map (.character character :: ·))
    (text rest : List Char) :
    signsFrom .text (text.flatMap write ++ rest) =
      (signsFrom .text rest).map (text.map .character ++ ·) := by
  induction text with
  | nil => simp
  | cons first others inductionHypothesis =>
      rw [List.flatMap_cons, List.append_assoc, readBack, inductionHypothesis,
        Option.map_map]
      rfl

theorem mapM_character (text : List Char) :
    (text.map Sign.character).mapM Sign.character? = some text := by
  induction text with
  | nil => rfl
  | cons first others inductionHypothesis =>
      rw [List.map_cons, List.mapM_cons, inductionHypothesis]
      rfl

/-- A written form in which only the characters of a text are found is read as that
text. -/
theorem unescape_of_signs
    {written text : List Char}
    (signs : signsFrom .text written = some (text.map .character)) :
    unescape? written = some (String.ofList text) := by
  rw [unescape?, signs, Option.bind_some, mapM_character, Option.map_some]

/-- The value of an attribute is read as it was given. -/
theorem unescape_escapeQuoted (text : String) :
    unescape? (escapeQuoted text).toList = some text := by
  have signs := signsFrom_flatMap escapeQuotedCharacter
    signsFrom_escapeQuotedCharacter text.toList []
  rw [List.append_nil, ← toList_escapeQuoted] at signs
  rw [signsFrom, Option.map_some, List.append_nil] at signs
  rw [unescape_of_signs signs, String.ofList_toList]

/-- A fixed text is read as it is. -/
theorem unescape_bare
    (text : String)
    (bare : Bare text.toList) :
    unescape? text.toList = some text := by
  have signs := signsFrom_bare text.toList [] bare
  rw [List.append_nil] at signs
  rw [signsFrom, Option.map_some, List.append_nil] at signs
  rw [unescape_of_signs signs, String.ofList_toList]

/-! ## Reading tags -/

/-- A text between brackets is read as one tag. -/
theorem signsFrom_tag
    (before inside rest : List Char)
    (enclosed : Enclosed inside) :
    signsFrom (.tag before) (inside ++ '>' :: rest) =
      (signsFrom .text rest).map (.tag (before ++ inside) :: ·) := by
  induction inside generalizing before with
  | nil => rw [List.nil_append, signsFrom, if_pos rfl, List.append_nil]
  | cons first others inductionHypothesis =>
      have here := enclosed first List.mem_cons_self
      simp only [List.mem_cons, List.not_mem_nil, or_false, not_or] at here
      rw [List.cons_append, signsFrom, if_neg here.2, if_neg here.1,
        inductionHypothesis _ fun character member =>
          enclosed character (List.mem_cons_of_mem first member)]
      simp

/-- What is written for a character of a value bounds neither the value nor the tag. -/
theorem escapeQuotedCharacter_enclosed (character : Char) :
    Avoids ['<', '>', '"'] (escapeQuotedCharacter character) := by
  unfold escapeQuotedCharacter
  split
  · decide
  · unfold escapeCharacter
    split
    · decide
    · decide
    · decide
    · rename_i notQuote _ _ notOpening notClosing
      simp only [Avoids, forall_eq, List.mem_cons, List.not_mem_nil, or_false,
        not_or]
      exact ⟨notOpening, notClosing, notQuote⟩

/-- A value between quotes has no quotes and no brackets. -/
theorem escapeQuoted_enclosed (text : String) :
    Avoids ['<', '>', '"'] (escapeQuoted text).toList := by
  intro written member
  rw [toList_escapeQuoted, List.mem_flatMap] at member
  obtain ⟨character, _, member⟩ := member
  exact escapeQuotedCharacter_enclosed character written member

/-! ## Reading attributes -/

/-- What may stand after an attribute: nothing, or a blank. -/
def Separated (rest : List Char) : Prop :=
  ∀ first ∈ rest.head?, first = ' '

/-- The characters of a name go on the name that is being read. -/
theorem attributesFrom_name
    (before name rest : List Char)
    (isName : IsName name) :
    attributesFrom (.name before) (name ++ rest) =
      attributesFrom (.name (before ++ name)) rest := by
  induction name generalizing before with
  | nil => simp
  | cons first others inductionHypothesis =>
      have here := isName first List.mem_cons_self
      simp only [List.mem_cons, List.not_mem_nil, or_false, not_or] at here
      obtain ⟨_, _, _, _, notBlank, notEquals, _⟩ := here
      rw [List.cons_append, attributesFrom, if_neg notBlank, if_neg notEquals,
        inductionHypothesis _ fun character member =>
          isName character (List.mem_cons_of_mem first member)]
      simp

/-- The characters of a value go on the value that is being read, up to the quote that
closes it. -/
theorem attributesFrom_value
    (name before value rest : List Char)
    (enclosed : '"' ∉ value) :
    attributesFrom (.value name before) (value ++ '"' :: rest) =
      (unescape? (before ++ value)).bind fun value =>
        (attributesFrom .between rest).map
          ((String.ofList name, some value) :: ·) := by
  induction value generalizing before with
  | nil => rw [List.nil_append, attributesFrom, if_pos rfl, List.append_nil]
  | cons first others inductionHypothesis =>
      simp only [List.mem_cons, not_or] at enclosed
      rw [List.cons_append, attributesFrom, if_neg (Ne.symm enclosed.1),
        inductionHypothesis _ enclosed.2]
      simp

/-- An attribute with a value. -/
theorem attributesFrom_valued
    (name : String)
    (written : List Char)
    (value : String)
    (rest : List Char)
    (isName : IsName name.toList)
    (enclosed : '"' ∉ written)
    (readBack : unescape? written = some value) :
    attributesFrom .between
        (' ' :: name.toList ++ '=' :: '"' :: written ++ '"' :: rest) =
      (attributesFrom .between rest).map ((name, some value) :: ·) := by
  have opened :
      attributesFrom (.name name.toList)
          ('=' :: '"' :: written ++ '"' :: rest) =
        attributesFrom (.value name.toList []) (written ++ '"' :: rest) := rfl
  rw [List.append_assoc, List.cons_append, attributesFrom, if_pos rfl,
    attributesFrom_name [] _ _ isName, List.nil_append, opened,
    attributesFrom_value _ [] _ _ enclosed, List.nil_append, readBack,
    Option.bind_some, String.ofList_toList]

/-- An attribute without a value. -/
theorem attributesFrom_flag
    (name : String)
    (rest : List Char)
    (isName : IsName name.toList)
    (separated : Separated rest) :
    attributesFrom .between (' ' :: name.toList ++ rest) =
      (attributesFrom .between rest).map ((name, none) :: ·) := by
  have notSlash : name.toList ≠ ['/'] := by
    intro equal
    rw [equal] at isName
    exact absurd isName (by decide)
  rw [List.cons_append, attributesFrom, if_pos rfl,
    attributesFrom_name [] _ _ isName, List.nil_append]
  cases rest with
  | nil => simp [attributesFrom, notSlash]
  | cons first others =>
      obtain rfl : first = ' ' := separated first rfl
      simp [attributesFrom]

/-! ## The written form of attributes -/

theorem writtenOf_append (first second : List Fragment) :
    writtenOf (first ++ second) = writtenOf first ++ writtenOf second :=
  List.flatMap_append

theorem attributesWritten_cons
    (first : Attribute)
    (others : List Attribute) :
    attributesWritten (first :: others) =
      writtenOf first.fragments ++ attributesWritten others := by
  rw [attributesWritten, List.flatMap_cons, writtenOf_append]
  rfl

/-- A fixed value is written between quotes as it is. -/
theorem written_fixed (name value : String) :
    writtenOf (Attribute.fixed name value).fragments =
      ' ' :: name.toList ++ '=' :: '"' :: value.toList ++ ['"'] := by
  simp [writtenOf, Attribute.fragments, Fragment.text]

/-- A given value is written between quotes and escaped. -/
theorem written_given (name value : String) :
    writtenOf (Attribute.given name value).fragments =
      ' ' :: name.toList ++ '=' :: '"' :: (escapeQuoted value).toList ++
        ['"'] := by
  simp [writtenOf, Attribute.fragments, Fragment.text]

/-- A flag is written as a blank and its name. -/
theorem written_flag (name : String) :
    writtenOf (Attribute.flag name).fragments = ' ' :: name.toList := by
  simp [writtenOf, Attribute.fragments, Fragment.text]

/-- A legible attribute in front of others is read as it was given. -/
theorem attributesFrom_written
    (first : Attribute)
    (rest : List Char)
    (legible : first.Legible)
    (separated : Separated rest) :
    attributesFrom .between (writtenOf first.fragments ++ rest) =
      (attributesFrom .between rest).map (first.reading :: ·) := by
  cases first with
  | fixed name value =>
      obtain ⟨isName, bare, enclosed⟩ := legible
      rw [written_fixed, List.append_assoc]
      exact attributesFrom_valued name value.toList value rest isName enclosed
        (unescape_bare value bare)
  | given name value =>
      rw [written_given, List.append_assoc]
      apply attributesFrom_valued name _ value rest legible
      · intro member
        exact escapeQuoted_enclosed value '"' member (by decide)
      · exact unescape_escapeQuoted value
  | flag name =>
      rw [written_flag]
      exact attributesFrom_flag name rest legible separated

/-- Attributes start with a blank. -/
theorem separated_attributesWritten
    (attributes : List Attribute)
    (rest : List Char)
    (separated : Separated rest) :
    Separated (attributesWritten attributes ++ rest) := by
  cases attributes with
  | nil => exact separated
  | cons first others =>
      rw [attributesWritten_cons]
      cases first with
      | fixed name value => simp [written_fixed, Separated]
      | given name value => simp [written_given, Separated]
      | flag name => simp [written_flag, Separated]

/-- The attributes of a tag are read as they were given. -/
theorem attributesFrom_attributesWritten
    (attributes : List Attribute)
    (rest : List Char)
    (legible : ∀ each ∈ attributes, each.Legible)
    (separated : Separated rest) :
    attributesFrom .between (attributesWritten attributes ++ rest) =
      (attributesFrom .between rest).map
        (attributes.map Attribute.reading ++ ·) := by
  induction attributes with
  | nil => simp [attributesWritten, writtenOf]
  | cons first others inductionHypothesis =>
      rw [attributesWritten_cons, List.append_assoc,
        attributesFrom_written first _ (legible first List.mem_cons_self)
          (separated_attributesWritten others rest separated),
        inductionHypothesis fun each member =>
          legible each (List.mem_cons_of_mem first member),
        Option.map_map]
      rfl

theorem Enclosed.append
    {first second : List Char}
    (front : Enclosed first)
    (back : Enclosed second) :
    Enclosed (first ++ second) := by
  intro character member
  exact (List.mem_append.mp member).elim (front character) (back character)

theorem Enclosed.cons
    {first : Char}
    {others : List Char}
    (here : first ∉ ['<', '>'])
    (later : Enclosed others) :
    Enclosed (first :: others) :=
  List.forall_mem_cons.mpr ⟨here, later⟩

/-- A name is within one tag. -/
theorem IsName.enclosed
    {name : List Char}
    (isName : IsName name) :
    Enclosed name := by
  intro character member bracket
  apply isName character member
  simp only [List.mem_cons, List.not_mem_nil, or_false] at bracket ⊢
  exact bracket.elim .inl fun equal => .inr (.inl equal)

/-- A text without the bounds of tags and entities is within one tag. -/
theorem Bare.enclosed
    {text : List Char}
    (bare : Bare text) :
    Enclosed text := by
  intro character member bracket
  apply bare character member
  simp only [List.mem_cons, List.not_mem_nil, or_false] at bracket ⊢
  exact bracket.elim .inl fun equal => .inr (.inl equal)

/-- An escaped value is within one tag. -/
theorem enclosed_escapeQuoted (text : String) :
    Enclosed (escapeQuoted text).toList := by
  intro character member bracket
  apply escapeQuoted_enclosed text character member
  simp only [List.mem_cons, List.not_mem_nil, or_false] at bracket ⊢
  exact bracket.elim .inl fun equal => .inr (.inl equal)

/-- The blank and the name that an attribute starts with. -/
theorem enclosed_attributeName
    {name : List Char}
    (isName : IsName name) :
    Enclosed (' ' :: name) :=
  Enclosed.cons (by decide) isName.enclosed

/-- The sign and the quote in front of a value are within one tag. -/
theorem enclosed_attributeValue
    {value : List Char}
    (enclosed : Enclosed value) :
    Enclosed ('=' :: '"' :: value) :=
  .cons (by decide) (.cons (by decide) enclosed)

/-- The written form of a legible attribute is within one tag. -/
theorem enclosed_fragments
    (first : Attribute)
    (legible : first.Legible) :
    Enclosed (writtenOf first.fragments) := by
  have quote : Enclosed ['"'] := by decide
  cases first with
  | fixed name value =>
      rw [written_fixed]
      exact ((enclosed_attributeName legible.1).append
        (enclosed_attributeValue legible.2.1.enclosed)).append quote
  | given name value =>
      rw [written_given]
      exact ((enclosed_attributeName legible).append
        (enclosed_attributeValue (enclosed_escapeQuoted value))).append quote
  | flag name =>
      rw [written_flag]
      exact enclosed_attributeName legible

/-- The written form of attributes has no brackets. -/
theorem enclosed_attributesWritten
    (attributes : List Attribute)
    (legible : ∀ each ∈ attributes, each.Legible) :
    Enclosed (attributesWritten attributes) := by
  induction attributes with
  | nil => intro character member; cases member
  | cons first others inductionHypothesis =>
      rw [attributesWritten_cons]
      exact (enclosed_fragments first (legible first List.mem_cons_self)).append
        (inductionHypothesis fun each member =>
          legible each (List.mem_cons_of_mem first member))

/-! ## Reading the inside of a tag -/

/-- A name ends at the blank after it. -/
theorem takeWhile_name
    (name rest : List Char)
    (isName : IsName name)
    (separated : Separated rest) :
    (name ++ rest).takeWhile (· != ' ') = name ∧
      (name ++ rest).dropWhile (· != ' ') = rest := by
  have noBlank : ∀ character ∈ name, (character != ' ') = true := by
    intro character member
    have here := isName character member
    simp only [List.mem_cons, List.not_mem_nil, or_false, not_or] at here
    simpa using here.2.2.2.2.1
  rw [List.takeWhile_append_of_pos noBlank,
    List.dropWhile_append_of_pos noBlank]
  cases rest with
  | nil => simp
  | cons first others =>
      obtain rfl : first = ' ' := separated first rfl
      simp

/-- A tag that starts with a name is no closing one. -/
theorem isClosing_name
    (name rest : List Char)
    (isName : IsName name)
    (separated : Separated rest) :
    isClosing (name ++ rest) = false := by
  cases name with
  | nil =>
      cases rest with
      | nil => rfl
      | cons first others =>
          obtain rfl : first = ' ' := separated first rfl
          rfl
  | cons first others =>
      have here := isName first List.mem_cons_self
      simp only [List.mem_cons, List.not_mem_nil, or_false, not_or] at here
      simpa [isClosing] using here.2.2.2.2.2.2

/-- A tag with a name and attributes, which may end in a blank and a slash, is
read as it was given. -/
theorem read_inside
    (name : String)
    (attributes : List Attribute)
    (ending : List Char)
    (isName : IsName name.toList)
    (legible : ∀ each ∈ attributes, each.Legible)
    (ends : ending ∈ [[], [' ', '/']]) :
    isClosing (name.toList ++ attributesWritten attributes ++ ending) = false ∧
    nameOf (name.toList ++ attributesWritten attributes ++ ending) = name ∧
    attributesOf? (name.toList ++ attributesWritten attributes ++ ending) =
      some (attributes.map Attribute.reading) := by
  have endSeparated : Separated ending ∧
      attributesFrom .between ending = some [] := by
    simp only [List.mem_cons, List.not_mem_nil, or_false] at ends
    rcases ends with rfl | rfl <;> exact ⟨by simp [Separated], rfl⟩
  have separated := separated_attributesWritten attributes ending
    endSeparated.1
  have parts := takeWhile_name name.toList _ isName separated
  have opening := isClosing_name name.toList _ isName separated
  rw [List.append_assoc]
  refine ⟨opening, ?_, ?_⟩
  · simp [nameOf, opening, parts.1]
  · rw [attributesOf?, parts.2,
      attributesFrom_attributesWritten attributes ending legible endSeparated.1,
      endSeparated.2, Option.map_some, List.append_nil]

/-- A slash and a name are read as the closing tag of that name. -/
theorem read_closing
    (name : String)
    (isName : IsName name.toList) :
    isClosing ('/' :: name.toList) = true ∧
      nameOf ('/' :: name.toList) = name := by
  have parts := takeWhile_name name.toList [] isName (by simp [Separated])
  rw [List.append_nil] at parts
  exact ⟨rfl, by simp [nameOf, isClosing, parts.1]⟩

/-! ## Reading pieces -/

theorem toList_text (tag : Tag) : tag.text.toList = writtenOf tag.name := by
  rw [Tag.text, String.toList_join, List.flatMap_map]
  rfl

/-- An opening tag is its name and its attributes between brackets. -/
theorem written_opening
    (tag : Tag)
    (attributes : List Attribute) :
    writtenOf (Piece.opening tag attributes).fragments =
      '<' :: (tag.text.toList ++ attributesWritten attributes) ++ ['>'] := by
  rw [toList_text]
  simp [Piece.fragments, writtenOf, attributesWritten, Fragment.text]

/-- A closing tag is a slash and its name between brackets. -/
theorem written_closing (tag : Tag) :
    writtenOf (Piece.closing tag).fragments =
      '<' :: ('/' :: tag.text.toList) ++ ['>'] := by
  rw [toList_text]
  simp [Piece.fragments, writtenOf, Fragment.text]

/-- A void tag is its name, its attributes and its ending between brackets. -/
theorem written_void
    (tag : VoidTag)
    (attributes : List Attribute) :
    writtenOf (Piece.void tag attributes).fragments =
      '<' :: (tag.name.toList ++ attributesWritten attributes ++
        tag.ending.toList.dropLast) ++ ['>'] := by
  cases tag <;>
    simp [Piece.fragments, writtenOf, attributesWritten, Fragment.text,
      VoidTag.name, VoidTag.ending]

/-- What stands between brackets is read as one tag. -/
theorem signsFrom_enclosed
    (inside rest : List Char)
    (enclosed : Enclosed inside) :
    signsFrom .text ('<' :: inside ++ ['>'] ++ rest) =
      (signsFrom .text rest).map ([.tag inside] ++ ·) := by
  rw [List.append_assoc, List.cons_append, signsFrom, if_pos rfl]
  exact signsFrom_tag [] inside rest enclosed

/-- A legible piece is read as the signs it stands for. -/
theorem signsFrom_piece
    (piece : Piece)
    (rest : List Char)
    (legible : piece.Legible) :
    signsFrom .text (writtenOf piece.fragments ++ rest) =
      (signsFrom .text rest).map (piece.signs ++ ·) := by
  cases piece with
  | opening tag attributes =>
      rw [written_opening]
      exact signsFrom_enclosed _ rest (legible.1.enclosed.append
        (enclosed_attributesWritten attributes legible.2.2))
  | closing tag =>
      rw [written_closing]
      exact signsFrom_enclosed _ rest (.cons (by decide)
        (IsName.enclosed legible))
  | void tag attributes =>
      rw [written_void]
      refine signsFrom_enclosed _ rest (Enclosed.append (Enclosed.append ?_
        (enclosed_attributesWritten attributes legible)) ?_)
      · cases tag <;> decide
      · cases tag <;> decide
  | text content =>
      have written : writtenOf (Piece.text content).fragments =
          content.toList.flatMap escapeCharacter := by
        simp [Piece.fragments, writtenOf, Fragment.text]
      rw [written]
      exact signsFrom_flatMap escapeCharacter signsFrom_escapeCharacter _ rest
  | constant content =>
      have written : writtenOf (Piece.constant content).fragments =
          content.toList := by
        simp [Piece.fragments, writtenOf, Fragment.text]
      rw [written]
      exact signsFrom_bare _ rest legible
  | raw content => exact legible.elim

/-- A page is what its pieces are written with. -/
theorem toList_print (pieces : List Piece) :
    (print pieces).toList =
      pieces.flatMap fun piece => writtenOf piece.fragments := by
  simp [print, Piece.print, String.toList_join, List.flatMap_map, writtenOf]

/-- A page of legible pieces is read as the signs they stand for. -/
theorem signs_print
    (pieces : List Piece)
    (legible : ∀ piece ∈ pieces, piece.Legible) :
    signs? (print pieces) = some (pieces.flatMap Piece.signs) := by
  rw [signs?, toList_print]
  induction pieces with
  | nil => rfl
  | cons first others inductionHypothesis =>
      rw [List.flatMap_cons, signsFrom_piece first _
        (legible first List.mem_cons_self),
        inductionHypothesis fun piece member =>
          legible piece (List.mem_cons_of_mem first member)]
      rfl

end Html
end NotePress
