import NotePress.Markup.Element

/-!
# Results of grammar rules

A grammar rule reads some tokens from the front of a list and returns what it
made of them. The tokens it left are at most as many as a stated bound, which is
what lets rules that call one another recurse on the length of the rest.
-/

namespace NotePress
namespace Markup

/-- What a grammar rule made of the front of a token list: the value, the lexer
kind of the last token read, and the tokens left, no more than `bound`. -/
structure Parsed (α : Type) (bound : Nat) where
  value : α
  last : Kind
  rest : List Token
  bounded : rest.length ≤ bound

namespace Parsed

/-- A value made of all the tokens there were. -/
def atEnd
    (value : α)
    (last : Kind) : Parsed α bound :=
  ⟨value, last, [], Nat.zero_le bound⟩

/-- A value made of the tokens before some others. -/
def leaving
    (value : α)
    (last : Kind)
    (rest : List Token) : Parsed α rest.length :=
  ⟨value, last, rest, Nat.le_refl _⟩

/-- The same result under a larger bound. -/
def weaken
    (parsed : Parsed α smaller)
    (le : smaller ≤ larger) : Parsed α larger :=
  ⟨parsed.value, parsed.last, parsed.rest, Nat.le_trans parsed.bounded le⟩

/-- The same tokens read, with another value made of them. -/
def map
    (function : α → β)
    (parsed : Parsed α bound) : Parsed β bound :=
  ⟨function parsed.value, parsed.last, parsed.rest, parsed.bounded⟩

@[simp] theorem value_atEnd
    (value : α)
    (last : Kind) :
    (atEnd value last : Parsed α bound).value = value := rfl

@[simp] theorem rest_atEnd
    (value : α)
    (last : Kind) :
    (atEnd value last : Parsed α bound).rest = [] := rfl

@[simp] theorem last_atEnd
    (value : α)
    (last : Kind) :
    (atEnd value last : Parsed α bound).last = last := rfl

@[simp] theorem value_leaving
    (value : α)
    (last : Kind)
    (rest : List Token) :
    (leaving value last rest).value = value := rfl

@[simp] theorem rest_leaving
    (value : α)
    (last : Kind)
    (rest : List Token) :
    (leaving value last rest).rest = rest := rfl

@[simp] theorem last_leaving
    (value : α)
    (last : Kind)
    (rest : List Token) :
    (leaving value last rest).last = last := rfl

@[simp] theorem value_weaken
    (parsed : Parsed α smaller)
    (le : smaller ≤ larger) :
    (parsed.weaken le).value = parsed.value := rfl

@[simp] theorem rest_weaken
    (parsed : Parsed α smaller)
    (le : smaller ≤ larger) :
    (parsed.weaken le).rest = parsed.rest := rfl

@[simp] theorem last_weaken
    (parsed : Parsed α smaller)
    (le : smaller ≤ larger) :
    (parsed.weaken le).last = parsed.last := rfl

@[simp] theorem value_map
    (function : α → β)
    (parsed : Parsed α bound) :
    (parsed.map function).value = function parsed.value := rfl

@[simp] theorem rest_map
    (function : α → β)
    (parsed : Parsed α bound) :
    (parsed.map function).rest = parsed.rest := rfl

@[simp] theorem last_map
    (function : α → β)
    (parsed : Parsed α bound) :
    (parsed.map function).last = parsed.last := rfl

end Parsed

end Markup
end NotePress
