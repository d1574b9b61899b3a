import NotePress.Document.Block
import NotePress.Proofs.Markup.Tokens

/-!
# Styles

How spans of a style are marked in a source.
-/

namespace NotePress
namespace Document

namespace Style

/-- The delimiter of a style. -/
def mark : Style → Markup.Kind
  | bold => .star
  | italics => .slash
  | underline => .underscore
  | strikeout => .dash

/-- The kind of the spans of a style. -/
def spanKind : Style → Markup.Kind
  | bold => .bold
  | italics => .italics
  | underline => .underline
  | strikeout => .strikeout

/-- The token that delimits spans of a style. -/
def delimiter (style : Style) : Markup.Token :=
  ⟨style.mark, (Markup.Lexer.sign style.mark).toString⟩

@[simp] theorem kind_delimiter (style : Style) :
    style.delimiter.kind = style.mark := rfl

/-- Different styles have different delimiters. -/
theorem mark_injective {first second : Style} (same : first.mark = second.mark) :
    first = second := by
  cases first <;> cases second <;> first | rfl | cases same

/-- The delimiter of a style opens its spans. -/
theorem style_mark (style : Style) :
    style.mark.style? = some style.spanKind := by
  cases style <;> rfl

/-- The delimiter of a style is a character of its own. -/
theorem punctuation_mark (style : Style) :
    Markup.Lexer.punctuation? (Markup.Lexer.sign style.mark) =
      some style.mark := by
  cases style <;> rfl

theorem mark_visible (style : Style) :
    style.mark ≠ .newline ∧ style.mark ≠ .whitespace := by
  cases style <;> decide

end Style

end Document
end NotePress
