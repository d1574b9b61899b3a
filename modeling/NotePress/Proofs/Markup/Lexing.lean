import NotePress.Markup.Lexer

/-!
# Lexing loses nothing

The texts of the tokens of a source, put together in order, are the source, and
no token is empty.
-/

namespace NotePress
namespace Markup
namespace Lexer

/-- A run and the text after it are the text that the run was taken from. -/
theorem takeRun_append
    (kind : Kind)
    (test : Char → Bool)
    (first : Char)
    (rest : List Char) :
    (takeRun kind test first rest).1.text.toList ++
      (takeRun kind test first rest).2 = first :: rest := by
  simp [takeRun, List.takeWhile_append_dropWhile]

theorem nextToken_append
    (first : Char)
    (rest : List Char) :
    (nextToken first rest).1.text.toList ++ (nextToken first rest).2 =
      first :: rest := by
  unfold nextToken
  repeat' split
  all_goals simp only [takeRun_append]
  all_goals simp_all

theorem text_nextToken_ne_empty
    (first : Char)
    (rest : List Char) :
    (nextToken first rest).1.text ≠ "" := by
  unfold nextToken takeRun
  repeat' split
  all_goals simp

theorem flatMap_text_tokens (characters : List Char) :
    (tokens characters).flatMap (fun token => token.text.toList) =
      characters := by
  induction characters using tokens.induct with
  | case1 => simp [tokens]
  | case2 first rest inductionHypothesis =>
      rw [tokens, List.flatMap_cons, inductionHypothesis, nextToken_append]

theorem text_ne_empty_of_mem_tokens
    (characters : List Char)
    (token : Token)
    (member : token ∈ tokens characters) :
    token.text ≠ "" := by
  induction characters using tokens.induct with
  | case1 => simp [tokens] at member
  | case2 first rest inductionHypothesis =>
      rw [tokens, List.mem_cons] at member
      rcases member with rfl | later
      · exact text_nextToken_ne_empty first rest
      · exact inductionHypothesis later

end Lexer

/-- The texts of the tokens of a source are the source. -/
theorem join_text_lex (source : String) :
    String.join ((lex source).map Token.text) = source := by
  apply String.toList_injective
  rw [String.toList_join, List.flatMap_map]
  exact Lexer.flatMap_text_tokens source.toList

/-- No token of a source is empty. -/
theorem text_ne_empty_of_mem_lex
    {source : String}
    {token : Token}
    (member : token ∈ lex source) :
    token.text ≠ "" :=
  Lexer.text_ne_empty_of_mem_tokens source.toList token member

end Markup
end NotePress
