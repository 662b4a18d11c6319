/-
The tokens of Go source, as far as delimiters go: comments, literals,
and single characters of code. The rules say what a token looks like
when it is complete and what it looks like when the text ends in it, and
nothing of how one is found; a newline that ends a comment or a literal
belongs to it.

Every text is a sequence of tokens (`exists_tokens`). That is shown by
taking off one token at a time (`exists_begins`), which leaves less of
the text.
-/
import GoSurvey.Source.Delimiter

namespace GoSurvey.Source

open Text

-- ============================================================= tokens

/-- A lexical unit with the text that it stands for. -/
inductive Token where
  | lineComment (text : Text)
  | blockComment (text : Text)
  | literal (text : Text)
  | code (c : Char)

/-- The characters of a token. -/
def Token.text : Token → Text
  | .lineComment text => text
  | .blockComment text => text
  | .literal text => text
  | .code c => [c]

/-- What may stand in a string or character literal before its end: a backslash together with any
character, and characters that neither end the literal nor are a backslash. -/
inductive Escaped (quote : Char) : Text → Prop where
  | nil : Escaped quote []
  | pair (c : Char) {body : Text} (hbody : Escaped quote body) :
      Escaped quote (backslash :: c :: body)
  | plain {c : Char} {body : Text} (hescape : c ≠ backslash) (hquote : c ≠ quote)
      (hline : c ≠ newline) (hbody : Escaped quote body) : Escaped quote (c :: body)

/-- The quotes of literals with escapes. -/
def IsEscapingQuote (quote : Char) : Prop := quote = doubleQuote ∨ quote = singleQuote

/-- A token can stand before a text. Each kind of comment and of literal has two rules: one for the
end of its own, and one for the end of the text. -/
inductive Begins : Token → (after : Text) → Prop where
  | lineComment {body after : Text} (hbody : newline ∉ body) :
      Begins (.lineComment ('/' :: '/' :: (body ++ [newline]))) after
  | lastLineComment {body : Text} (hbody : newline ∉ body) :
      Begins (.lineComment ('/' :: '/' :: body)) []
  | blockComment {body after : Text} (hbody : ¬['*', '/'] <:+: body ++ ['*']) :
      Begins (.blockComment ('/' :: '*' :: (body ++ ['*', '/']))) after
  | lastBlockComment {body : Text} (hbody : ¬['*', '/'] <:+: body) :
      Begins (.blockComment ('/' :: '*' :: body)) []
  | escaped {quote stop : Char} {body after : Text} (hquote : IsEscapingQuote quote)
      (hbody : Escaped quote body) (hstop : stop = quote ∨ stop = newline) :
      Begins (.literal (quote :: (body ++ [stop]))) after
  | lastEscaped {quote : Char} {body tail : Text} (hquote : IsEscapingQuote quote)
      (hbody : Escaped quote body) (htail : tail = [] ∨ tail = [backslash]) :
      Begins (.literal (quote :: (body ++ tail))) []
  | raw {body after : Text} (hbody : backtick ∉ body) :
      Begins (.literal (backtick :: (body ++ [backtick]))) after
  | lastRaw {body : Text} (hbody : backtick ∉ body) :
      Begins (.literal (backtick :: body)) []
  | code {c : Char} {after : Text} (hquote : isQuote c = false)
      (hline : ¬(c = '/' ∧ after.head? = some '/'))
      (hblock : ¬(c = '/' ∧ after.head? = some '*')) : Begins (.code c) after

/-- A text is a sequence of tokens. -/
inductive Tokens : Text → List Token → Prop where
  | nil : Tokens [] []
  | cons {token : Token} {after : Text} {tokens : List Token} (hfirst : Begins token after)
      (hrest : Tokens after tokens) : Tokens (token.text ++ after) (token :: tokens)

theorem Tokens.ne_nil {text : Text} {c : Char} {tokens : List Token}
    (h : Tokens text (.code c :: tokens)) : text ≠ [] := by
  cases h with
  | cons => exact List.cons_ne_nil c _

theorem Begins.ne_nil {token : Token} {after : Text} (h : Begins token after) :
    token.text ≠ [] := by
  cases h <;> exact List.cons_ne_nil _ _

theorem tokens_nil {tokens : List Token} (h : Tokens [] tokens) : tokens = [] := by
  generalize htext : ([] : Text) = text at h
  cases h with
  | nil => rfl
  | cons hfirst _ => exact absurd (List.append_eq_nil_iff.1 htext.symm).1 hfirst.ne_nil

-- ==================================================== every text has them

/-- The text begins with some token. -/
def HasFirst (text : Text) : Prop :=
  ∃ token after, Begins token after ∧ token.text ≠ [] ∧ text = token.text ++ after

theorem hasFirst_lineComment (rest : Text) : HasFirst ('/' :: '/' :: rest) := by
  by_cases hline : newline ∈ rest
  · obtain ⟨body, after, rfl, hbody⟩ := List.eq_append_cons_of_mem hline
    exact ⟨_, after, .lineComment hbody, List.cons_ne_nil _ _, by simp [Token.text]⟩
  · exact ⟨_, [], .lastLineComment hline, List.cons_ne_nil _ _, by simp [Token.text]⟩

/-- A mark of two different characters occurs in a text with one more character in front only at
the front or further on. -/
theorem infix_cons_iff {c : Char} {body : Text} :
    ['*', '/'] <:+: c :: body ↔ (c = '*' ∧ body.head? = some '/') ∨ ['*', '/'] <:+: body := by
  rw [List.infix_cons_iff]
  cases body with
  | nil => simp [List.cons_prefix_cons]
  | cons d body => simp [List.cons_prefix_cons, eq_comm]

/-- A block comment ends at the first mark that closes it. -/
theorem exists_blockEnd {rest : Text} (hmark : ['*', '/'] <:+: rest) :
    ∃ body after, rest = body ++ '*' :: '/' :: after ∧ ¬['*', '/'] <:+: body ++ ['*'] := by
  induction rest with
  | nil => simp at hmark
  | cons c rest ih =>
      by_cases hhere : c = '*' ∧ rest.head? = some '/'
      · obtain ⟨rfl, hhead⟩ := hhere
        obtain ⟨after, rfl⟩ := List.head?_eq_some_iff.1 hhead
        exact ⟨[], after, rfl, by decide⟩
      · obtain ⟨body, after, rfl, hbody⟩ := ih ((infix_cons_iff.1 hmark).resolve_left hhere)
        refine ⟨c :: body, after, rfl, ?_⟩
        rw [List.cons_append, infix_cons_iff]
        rintro (⟨rfl, hhead⟩ | hlater)
        · refine hhere ⟨rfl, ?_⟩
          cases body with
          | nil => simp at hhead
          | cons d body => simpa using hhead
        · exact hbody hlater

theorem hasFirst_blockComment (rest : Text) : HasFirst ('/' :: '*' :: rest) := by
  by_cases hmark : ['*', '/'] <:+: rest
  · obtain ⟨body, after, rfl, hbody⟩ := exists_blockEnd hmark
    exact ⟨_, after, .blockComment hbody, List.cons_ne_nil _ _, by simp [Token.text]⟩
  · exact ⟨_, [], .lastBlockComment hmark, List.cons_ne_nil _ _, by simp [Token.text]⟩

/-- A literal with escapes goes on to its end or to the end of the text. -/
theorem exists_escapedEnd (quote : Char) : ∀ rest : Text,
    (∃ body stop after, rest = body ++ stop :: after ∧ Escaped quote body ∧
      (stop = quote ∨ stop = newline)) ∨
    ∃ body tail, rest = body ++ tail ∧ Escaped quote body ∧ (tail = [] ∨ tail = [backslash])
  | [] => .inr ⟨[], [], rfl, .nil, .inl rfl⟩
  | c :: rest => by
      by_cases hstop : c = quote ∨ c = newline
      · exact .inl ⟨[], c, rest, rfl, .nil, hstop⟩
      rw [not_or] at hstop
      by_cases hescape : c = backslash
      · subst hescape
        match rest with
        | [] => exact .inr ⟨[], [backslash], rfl, .nil, .inr rfl⟩
        | d :: rest =>
            rcases exists_escapedEnd quote rest with
              ⟨body, stop, after, rfl, hbody, hend⟩ | ⟨body, tail, rfl, hbody, htail⟩
            · exact .inl ⟨backslash :: d :: body, stop, after, rfl, .pair d hbody, hend⟩
            · exact .inr ⟨backslash :: d :: body, tail, rfl, .pair d hbody, htail⟩
      · rcases exists_escapedEnd quote rest with
          ⟨body, stop, after, rfl, hbody, hend⟩ | ⟨body, tail, rfl, hbody, htail⟩
        · exact .inl ⟨c :: body, stop, after, rfl, .plain hescape hstop.1 hstop.2 hbody, hend⟩
        · exact .inr ⟨c :: body, tail, rfl, .plain hescape hstop.1 hstop.2 hbody, htail⟩

theorem hasFirst_escaped {quote : Char} (hquote : IsEscapingQuote quote) (rest : Text) :
    HasFirst (quote :: rest) := by
  rcases exists_escapedEnd quote rest with
    ⟨body, stop, after, rfl, hbody, hstop⟩ | ⟨body, tail, rfl, hbody, htail⟩
  · exact ⟨_, after, .escaped hquote hbody hstop, List.cons_ne_nil _ _, by simp [Token.text]⟩
  · exact ⟨_, [], .lastEscaped hquote hbody htail, List.cons_ne_nil _ _, by simp [Token.text]⟩

theorem hasFirst_raw (rest : Text) : HasFirst (backtick :: rest) := by
  by_cases hend : backtick ∈ rest
  · obtain ⟨body, after, rfl, hbody⟩ := List.eq_append_cons_of_mem hend
    exact ⟨_, after, .raw hbody, List.cons_ne_nil _ _, by simp [Token.text]⟩
  · exact ⟨_, [], .lastRaw hend, List.cons_ne_nil _ _, by simp [Token.text]⟩

theorem isQuote_iff {c : Char} : isQuote c = true ↔ IsEscapingQuote c ∨ c = backtick := by
  simp only [isQuote, IsEscapingQuote, Bool.or_eq_true, beq_iff_eq]

/-- A text that is not empty begins with a token. -/
theorem exists_begins (c : Char) (rest : Text) : HasFirst (c :: rest) := by
  by_cases hquote : isQuote c = true
  · rcases isQuote_iff.1 hquote with hescaping | rfl
    · exact hasFirst_escaped hescaping rest
    · exact hasFirst_raw rest
  by_cases hline : c = '/' ∧ rest.head? = some '/'
  · obtain ⟨rfl, hhead⟩ := hline
    obtain ⟨rest, rfl⟩ := List.head?_eq_some_iff.1 hhead
    exact hasFirst_lineComment rest
  by_cases hblock : c = '/' ∧ rest.head? = some '*'
  · obtain ⟨rfl, hhead⟩ := hblock
    obtain ⟨rest, rfl⟩ := List.head?_eq_some_iff.1 hhead
    exact hasFirst_blockComment rest
  · have hfree : isQuote c = false := by simpa using hquote
    exact ⟨.code c, rest, .code hfree hline hblock, List.cons_ne_nil _ _, rfl⟩

/-- Every text is a sequence of tokens. -/
theorem exists_tokens (text : Text) : ∃ tokens, Tokens text tokens := by
  -- A token is not empty, so what follows the first one is shorter than the text.
  induction hlength : text.length using Nat.strongRecOn generalizing text with
  | _ n ih =>
      cases text with
      | nil => exact ⟨[], .nil⟩
      | cons c rest =>
          obtain ⟨token, after, hfirst, hne, htext⟩ := exists_begins c rest
          have hshorter : after.length < n := by
            have hpos := List.length_pos_iff.2 hne
            rw [← hlength, htext, List.length_append]
            omega
          obtain ⟨tokens, hrest⟩ := ih after.length hshorter after rfl
          exact ⟨token :: tokens, htext ▸ .cons hfirst hrest⟩

end GoSurvey.Source
