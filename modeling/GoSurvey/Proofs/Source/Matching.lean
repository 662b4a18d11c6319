/-
What `findMatching?` finds, said in tokens. The scan passes over every
token that is not code without touching its count, and it ends where a
token does that ends with the text; so what it finds is what counting
along the code characters finds (`found_run`).

The count is kept by its meaning: it is how many more openers than
closers there are in the code from the first opener on
(`countFrom_eq_some_iff`), which is why closers before that opener do
not matter.
-/
import GoSurvey.Proofs.Source.Token

namespace GoSurvey.Source

open Text DelimiterScan

variable {d : Delimiters}

theorem braces_ne : braces.opener ≠ braces.closer := by decide

-- ================================================== code and its groups

/-- The characters of code in tokens of which the first stands at an offset, with their offsets. -/
def codeFrom : (offset : Nat) → List Token → List (Nat × Char)
  | _, [] => []
  | offset, .code c :: tokens => (offset, c) :: codeFrom (offset + 1) tokens
  | offset, token :: tokens => codeFrom (offset + token.text.length) tokens

/-- The characters of code from one offset to another, both included. -/
def codeBetween (code : List (Nat × Char)) (first last : Nat) : Text :=
  (code.filter fun x => first ≤ x.1 ∧ x.1 ≤ last).map (·.2)

/-- The first opener of the code stands at an offset. -/
structure FirstOpener (d : Delimiters) (code : List (Nat × Char)) (p : Nat) : Prop where
  mem : (p, d.opener) ∈ code
  first : ∀ k, (k, d.opener) ∈ code → p ≤ k

/-- There are as many closers as openers in the code from one offset to another. -/
def Balanced (d : Delimiters) (code : List (Nat × Char)) (p q : Nat) : Prop :=
  (codeBetween code p q).count d.closer = (codeBetween code p q).count d.opener

/-- The first character of code after an offset that makes the code from there balanced. -/
structure FirstBalance (d : Delimiters) (code : List (Nat × Char)) (p q : Nat) : Prop where
  later : p < q
  mem : ∃ c, (q, c) ∈ code
  balanced : Balanced d code p q
  first : ∀ k c, (k, c) ∈ code → p < k → k < q → ¬Balanced d code p k

theorem FirstOpener.unique {code : List (Nat × Char)} {p p' : Nat} (h : FirstOpener d code p)
    (h' : FirstOpener d code p') : p = p' :=
  Nat.le_antisymm (h.first p' h'.mem) (h'.first p h.mem)

-- ====================================================== passing a token

/-- The offsets of the first opener and of the closer where a scan has come to. -/
def found : Option Nat × DelimiterScan → Option (Nat × Nat)
  | (some closer, s) => s.openedAt.map fun opener => (opener, closer)
  | (none, _) => none

/-- What a scan has counted, wherever it is lexically: the offset of the closer that ends it, the
openers that are open and the offset of the first one. -/
def tally (r : Option Nat × DelimiterScan) : Option Nat × Nat × Option Nat :=
  (r.1, r.2.depth, r.2.openedAt)

theorem found_of_tally {r r' : Option Nat × DelimiterScan} (h : tally r = tally r') :
    found r = found r' := by
  obtain ⟨closed, region, depth, openedAt⟩ := r
  obtain ⟨closed', region', depth', openedAt'⟩ := r'
  simp only [tally, Prod.mk.injEq] at h
  obtain ⟨rfl, rfl, rfl⟩ := h
  cases closed <;> rfl

theorem endChunk_openedAt (s : DelimiterScan) : s.endChunk.openedAt = s.openedAt := by
  unfold endChunk
  split <;> rfl

theorem findMatching?_eq_found (d : Delimiters) (text : Text) (start : Nat) :
    findMatching? d text start = found (run d false (text.drop start) start {}) := by
  unfold findMatching? feed
  cases hrun : run d false (text.drop start) start {} with
  | mk closed s =>
      cases closed with
      | none => rfl
      | some closer => simp only [found, endChunk_openedAt]

section Pass

variable (depth : Nat) (openedAt : Option Nat)

theorem run_lineComment {body : Text} (hbody : newline ∉ body) (after : Text) (offset : Nat) :
    run d false (body ++ newline :: after) offset ⟨.lineComment, depth, openedAt⟩
      = run d false after (offset + body.length + 1) ⟨.code, depth, openedAt⟩ := by
  induction body generalizing offset with
  | nil => simp [run, step]
  | cons c body ih =>
      rw [List.mem_cons, not_or] at hbody
      have hc : c ≠ newline := fun h => hbody.1 h.symm
      simp only [List.cons_append, run, step, if_neg hc]
      rw [ih hbody.2, List.length_cons, Nat.add_right_comm offset 1]
      rfl

theorem run_lastLineComment {body : Text} (hbody : newline ∉ body) (offset : Nat) :
    run d false body offset ⟨.lineComment, depth, openedAt⟩
      = (none, ⟨.lineComment, depth, openedAt⟩) := by
  induction body generalizing offset with
  | nil => rfl
  | cons c body ih =>
      rw [List.mem_cons, not_or] at hbody
      have hc : c ≠ newline := fun h => hbody.1 h.symm
      simp only [run, step, if_neg hc]
      exact ih hbody.2 _

theorem run_blockComment {body : Text} (hbody : ¬['*', '/'] <:+: body ++ ['*']) (after : Text)
    (offset : Nat) :
    run d false (body ++ '*' :: '/' :: after) offset ⟨.blockComment, depth, openedAt⟩
      = run d false after (offset + body.length + 2) ⟨.code, depth, openedAt⟩ := by
  induction body generalizing offset with
  | nil => simp [run, step]
  | cons c body ih =>
      rw [List.cons_append, infix_cons_iff, not_or] at hbody
      have hgo : ¬(c = '*' ∧ (body ++ '*' :: '/' :: after).head? = some '/') := by
        rintro ⟨rfl, hhead⟩
        refine hbody.1 ⟨rfl, ?_⟩
        cases body with
        | nil => simp at hhead
        | cons e body => simpa using hhead
      simp only [List.cons_append, run, step, if_neg hgo]
      rw [ih hbody.2, List.length_cons, Nat.add_right_comm offset 1]
      rfl

theorem run_lastBlockComment {body : Text} (hbody : ¬['*', '/'] <:+: body) (offset : Nat) :
    run d false body offset ⟨.blockComment, depth, openedAt⟩
      = (none, ⟨.blockComment, depth, openedAt⟩) := by
  induction body generalizing offset with
  | nil => rfl
  | cons c body ih =>
      rw [infix_cons_iff, not_or] at hbody
      simp only [run, step, if_neg hbody.1]
      exact ih hbody.2 _

theorem ne_backtick {quote : Char} (hquote : IsEscapingQuote quote) : quote ≠ backtick := by
  rcases hquote with rfl | rfl <;> decide

theorem ne_backslash {quote stop : Char} (hquote : IsEscapingQuote quote)
    (hstop : stop = quote ∨ stop = newline) : stop ≠ backslash := by
  rcases hstop with rfl | rfl
  · rcases hquote with rfl | rfl <;> decide
  · decide

/-- What stands in a literal before its end is passed over. -/
theorem run_escaped {quote : Char} {body : Text} (hquote : IsEscapingQuote quote)
    (hbody : Escaped quote body) (after : Text) (offset : Nat) :
    run d false (body ++ after) offset ⟨.literal quote, depth, openedAt⟩
      = run d false after (offset + body.length) ⟨.literal quote, depth, openedAt⟩ := by
  have hraw := ne_backtick hquote
  induction hbody generalizing offset with
  | nil => rfl
  | @pair c body _ ih =>
      simp only [List.cons_append, run, step, hraw, ne_eq, not_false_eq_true, and_self, if_true]
      rw [ih, List.length_cons, List.length_cons]
      congr 1
      omega
  | @plain c body hescape hend hline _ ih =>
      simp only [List.cons_append, run, step, hescape, hend, hline, false_and, or_self, if_false]
      rw [ih, List.length_cons]
      congr 1
      omega

theorem run_raw {body : Text} (hbody : backtick ∉ body) (after : Text) (offset : Nat) :
    run d false (body ++ after) offset ⟨.literal backtick, depth, openedAt⟩
      = run d false after (offset + body.length) ⟨.literal backtick, depth, openedAt⟩ := by
  induction body generalizing offset with
  | nil => rfl
  | cons c body ih =>
      rw [List.mem_cons, not_or] at hbody
      have hc : c ≠ backtick := fun h => hbody.1 h.symm
      simp only [List.cons_append, run, step, ne_eq, not_true_eq_false, and_false, hc, or_self,
        if_false]
      rw [ih hbody.2, List.length_cons]
      congr 1
      omega

/-- A literal with escapes that is ended is passed over. -/
theorem run_escapedLiteral {quote stop : Char} {body : Text} (hquote : IsEscapingQuote quote)
    (hbody : Escaped quote body) (hstop : stop = quote ∨ stop = newline) (after : Text)
    (offset : Nat) :
    run d false (quote :: (body ++ stop :: after)) offset ⟨.code, depth, openedAt⟩
      = run d false after (offset + body.length + 2) ⟨.code, depth, openedAt⟩ := by
  have hopen := isQuote_iff.2 (.inl hquote)
  have hslash : quote ≠ '/' := by rcases hquote with rfl | rfl <;> decide
  have hback := ne_backslash hquote hstop
  have hstop' : stop = quote ∨ (stop = newline ∧ quote ≠ backtick) :=
    hstop.imp_right fun h => ⟨h, ne_backtick hquote⟩
  simp only [run, step, hslash, false_and, if_false, hopen, if_true]
  rw [run_escaped depth openedAt hquote hbody]
  simp only [run, step, hback, false_and, if_false, hstop', if_true]
  congr 1
  omega

/-- A raw literal that is ended is passed over. -/
theorem run_rawLiteral {body : Text} (hbody : backtick ∉ body) (after : Text) (offset : Nat) :
    run d false (backtick :: (body ++ backtick :: after)) offset ⟨.code, depth, openedAt⟩
      = run d false after (offset + body.length + 2) ⟨.code, depth, openedAt⟩ := by
  have hopen := isQuote_iff.2 (.inr rfl)
  have hslash : backtick ≠ '/' := by decide
  have hback : backtick ≠ backslash := by decide
  simp only [run, step, hslash, false_and, if_false, hopen, if_true]
  rw [run_raw depth openedAt hbody]
  simp only [run, step, hback, false_and, true_or, if_false, if_true]
  congr 1
  omega

/-- A token that is not code leaves the count as it is. -/
theorem tally_run_token {token : Token} {after : Text} (hbegins : Begins token after)
    (hcode : ∀ c, token ≠ .code c) (offset : Nat) :
    tally (run d false (token.text ++ after) offset ⟨.code, depth, openedAt⟩)
      = tally (run d false after (offset + token.text.length) ⟨.code, depth, openedAt⟩) := by
  -- A scan that comes to the end of the text has counted nothing more.
  have hend : ∀ (region : Region) {r : Option Nat × DelimiterScan},
      r = (none, ⟨region, depth, openedAt⟩) →
        tally r = tally (run d false [] (offset + token.text.length) ⟨.code, depth, openedAt⟩) := by
    rintro region r rfl
    rfl
  cases hbegins with
  | @lineComment body after hbody =>
      simp only [Token.text, List.cons_append, List.append_assoc, List.nil_append, run, step,
        List.head?_cons, and_self, if_true]
      rw [run_lineComment depth openedAt hbody]
      congr 2
      simp only [List.length_cons, List.length_append, List.length_nil]
      omega
  | @lastLineComment body hbody =>
      refine hend .lineComment ?_
      simp only [Token.text, List.append_nil, run, step, List.head?_cons, and_self, if_true]
      exact run_lastLineComment depth openedAt hbody _
  | @blockComment body after hbody =>
      simp only [Token.text, List.cons_append, List.append_assoc, List.nil_append, run, step,
        List.head?_cons, Option.some.injEq, Char.reduceEq, and_false, and_self,
        if_true, if_false]
      rw [run_blockComment depth openedAt hbody]
      congr 2
      simp only [List.length_cons, List.length_append, List.length_nil]
      omega
  | @lastBlockComment body hbody =>
      refine hend .blockComment ?_
      simp only [Token.text, List.append_nil, run, step, List.head?_cons, Option.some.injEq,
        Char.reduceEq, and_false, and_self, if_true, if_false]
      exact run_lastBlockComment depth openedAt hbody _
  | @escaped quote stop body after hquote hbody hstop =>
      simp only [Token.text, List.cons_append, List.append_assoc, List.nil_append]
      rw [run_escapedLiteral depth openedAt hquote hbody hstop]
      congr 2
      simp only [List.length_cons, List.length_append, List.length_nil]
      omega
  | @lastEscaped quote body tail hquote hbody htail =>
      have hopen := isQuote_iff.2 (.inl hquote)
      have hslash : quote ≠ '/' := by rcases hquote with rfl | rfl <;> decide
      refine hend (.literal quote) ?_
      simp only [Token.text, List.append_nil, run, step, hslash, false_and, if_false, hopen,
        if_true]
      rw [run_escaped depth openedAt hquote hbody]
      rcases htail with rfl | rfl
      · rfl
      · simp [run, step, ne_backtick hquote]
  | @raw body after hbody =>
      simp only [Token.text, List.cons_append, List.append_assoc, List.nil_append]
      rw [run_rawLiteral depth openedAt hbody]
      congr 2
      simp only [List.length_cons, List.length_append, List.length_nil]
      omega
  | @lastRaw body hbody =>
      have hopen := isQuote_iff.2 (.inr rfl)
      have hslash : backtick ≠ '/' := by decide
      refine hend (.literal backtick) ?_
      simp only [Token.text, List.append_nil, run, step, hslash, false_and, if_false, hopen,
        if_true]
      rw [← List.append_nil body, run_raw depth openedAt hbody]
      rfl
  | @code c after => exact absurd rfl (hcode c)

end Pass

-- ================================================ counting along the code

/-- Counts openers and closers along characters of code, `depth` openers being open. The result
are the offsets of the first opener and of the closer that balances it. -/
def countFrom (d : Delimiters) :
    (depth : Nat) → (openedAt : Option Nat) → List (Nat × Char) → Option (Nat × Nat)
  | _, _, [] => none
  | depth, openedAt, (k, c) :: code =>
    if c = d.opener then countFrom d (depth + 1) (some (openedAt.getD k)) code
    else if c = d.closer ∧ 0 < depth then
      if depth = 1 then openedAt.map fun opener => (opener, k)
      else countFrom d (depth - 1) openedAt code
    else countFrom d depth openedAt code

/-- A scan finds what counting along the code of the tokens finds. -/
theorem found_run {text : Text} {tokens : List Token} (htokens : Tokens text tokens)
    (offset depth : Nat) (openedAt : Option Nat) :
    found (run d false text offset ⟨.code, depth, openedAt⟩)
      = countFrom d depth openedAt (codeFrom offset tokens) := by
  induction htokens generalizing offset depth openedAt with
  | nil => rfl
  | @cons token after tokens hfirst _ ih =>
      have hpass : (∀ c, token ≠ .code c) →
          found (run d false (token.text ++ after) offset ⟨.code, depth, openedAt⟩)
            = countFrom d depth openedAt (codeFrom (offset + token.text.length) tokens) := by
        intro hcode
        rw [found_of_tally (tally_run_token depth openedAt hfirst hcode offset)]
        exact ih _ _ _
      cases token with
      | code c =>
          cases hfirst with
          | code hquote hline hblock =>
              simp only [Token.text, List.cons_append, List.nil_append, run, step, if_neg hline,
                if_neg hblock, hquote, Bool.false_eq_true, if_false, codeFrom, countFrom]
              by_cases hopen : c = d.opener
              · simp only [if_pos hopen]
                exact ih _ _ _
              by_cases hclose : c = d.closer ∧ 0 < depth
              · simp only [if_neg hopen, if_pos hclose]
                by_cases hone : depth = 1
                · simp only [if_pos hone, found]
                · simp only [if_neg hone]
                  exact ih _ _ _
              · simp only [if_neg hopen, if_neg hclose]
                exact ih _ _ _
      | lineComment text => exact hpass fun c => Token.noConfusion
      | blockComment text => exact hpass fun c => Token.noConfusion
      | literal text => exact hpass fun c => Token.noConfusion

/-- Nothing is counted before the first opener. -/
theorem countFrom_closed {before : List (Nat × Char)} (hnone : ∀ x ∈ before, x.2 ≠ d.opener)
    (code : List (Nat × Char)) : countFrom d 0 none (before ++ code) = countFrom d 0 none code := by
  induction before with
  | nil => rfl
  | cons x before ih =>
      have hx : x.2 ≠ d.opener := hnone x List.mem_cons_self
      have hclose : ¬(x.2 = d.closer ∧ 0 < 0) := fun h => Nat.lt_irrefl 0 h.2
      rw [List.cons_append, countFrom, if_neg hx, if_neg hclose]
      exact ih fun y hy => hnone y (List.mem_cons_of_mem x hy)

-- ================================================ the places of the code

/-- The characters of code stand one after another. -/
theorem codeFrom_pairwise (offset : Nat) (tokens : List Token) :
    (codeFrom offset tokens).Pairwise (fun x y => x.1 < y.1) ∧
      ∀ x ∈ codeFrom offset tokens, offset ≤ x.1 := by
  induction tokens generalizing offset with
  | nil => exact ⟨.nil, fun x hx => absurd hx List.not_mem_nil⟩
  | cons token tokens ih =>
      have hlater : ∀ n, (codeFrom (offset + n) tokens).Pairwise (fun x y => x.1 < y.1) ∧
          ∀ x ∈ codeFrom (offset + n) tokens, offset ≤ x.1 := by
        intro n
        obtain ⟨hpairwise, hle⟩ := ih (offset + n)
        exact ⟨hpairwise, fun x hx => by have := hle x hx; omega⟩
      cases token with
      | code c =>
          obtain ⟨hpairwise, hle⟩ := ih (offset + 1)
          refine ⟨List.pairwise_cons.2 ⟨hle, hpairwise⟩, fun x hx => ?_⟩
          rcases List.mem_cons.1 hx with rfl | hx
          · exact Nat.le_refl _
          · exact (hlater 1).2 x hx
      | lineComment text => exact hlater text.length
      | blockComment text => exact hlater text.length
      | literal text => exact hlater text.length

/-- A character of code begins what is left of the tokens from its place on. -/
theorem exists_from_place {text : Text} {tokens : List Token} (htokens : Tokens text tokens)
    {offset k : Nat} {c : Char} (hk : (k, c) ∈ codeFrom offset tokens) :
    ∃ before rest, codeFrom offset tokens = before ++ codeFrom k (.code c :: rest) ∧
      offset ≤ k ∧ .code c :: rest <:+ tokens ∧
      Tokens (text.drop (k - offset)) (.code c :: rest) := by
  induction htokens generalizing offset with
  | nil => cases hk
  | @cons token after tokens hfirst hrest ih =>
      have hlater : (k, c) ∈ codeFrom (offset + token.text.length) tokens →
          ∃ before rest, codeFrom (offset + token.text.length) tokens
              = before ++ codeFrom k (.code c :: rest) ∧ offset ≤ k ∧
            .code c :: rest <:+ token :: tokens ∧
            Tokens ((token.text ++ after).drop (k - offset)) (.code c :: rest) := by
        intro hk
        obtain ⟨before, rest, hcode, hle, hsuffix, hplace⟩ := ih hk
        refine ⟨before, rest, hcode, by omega, hsuffix.trans (List.suffix_cons token tokens), ?_⟩
        rw [List.drop_append, List.drop_eq_nil_of_le (by omega), List.nil_append, Nat.sub_sub]
        exact hplace
      cases token with
      | code e =>
          rcases List.mem_cons.1 hk with hhere | hk
          · injection hhere with hk hc
            subst hk
            subst hc
            refine ⟨[], tokens, rfl, Nat.le_refl _, List.suffix_rfl, ?_⟩
            rw [Nat.sub_self]
            exact .cons hfirst hrest
          · obtain ⟨before, rest, hcode, hplace⟩ := hlater hk
            exact ⟨(offset, e) :: before, rest, congrArg (List.cons _) hcode, hplace⟩
      | lineComment text => exact hlater hk
      | blockComment text => exact hlater hk
      | literal text => exact hlater hk

-- ================================================= what the count means

/-- In code that is in order, the code up to a place is what went before and what stands there. -/
theorem codeBetween_append_cons {before after : List (Nat × Char)} {p k : Nat} {c : Char}
    (horder : (before ++ (k, c) :: after).Pairwise fun x y => x.1 < y.1) (hle : p ≤ k) :
    codeBetween (before ++ (k, c) :: after) p k
      = (before.filter fun x => p ≤ x.1).map (·.2) ++ [c] := by
  obtain ⟨-, hafter, hbefore⟩ := List.pairwise_append.1 horder
  rw [List.pairwise_cons] at hafter
  have hnone : after.filter (fun x => p ≤ x.1 ∧ x.1 ≤ k) = [] := by
    refine List.filter_eq_nil_iff.2 fun x hx => ?_
    have hlt : k < x.1 := hafter.1 x hx
    simp only [decide_eq_true_eq]
    omega
  have hsame : before.filter (fun x => p ≤ x.1 ∧ x.1 ≤ k) = before.filter fun x => p ≤ x.1 := by
    refine List.filter_congr fun x hx => ?_
    have hlt : x.1 < k := hbefore x hx (k, c) List.mem_cons_self
    simp only [decide_eq_decide]
    omega
  unfold codeBetween
  rw [List.filter_append, List.filter_cons_of_pos (by simpa using hle), hnone, hsame,
    List.map_append]
  rfl

/-- A place of some code at which something holds, and the first such one. -/
def FirstPlace (P : Nat → Prop) (code : List (Nat × Char)) (q : Nat) : Prop :=
  (∃ c, (q, c) ∈ code) ∧ P q ∧ ∀ k c, (k, c) ∈ code → k < q → ¬P k

section FirstPlace

variable {P : Nat → Prop} {k : Nat} {c : Char} {code : List (Nat × Char)} {q : Nat}

/-- Where it does not hold at the first place, the one looked for is a later one. -/
theorem firstPlace_cons_of_not (h : ¬P k) :
    FirstPlace P ((k, c) :: code) q ↔ FirstPlace P code q := by
  constructor
  · rintro ⟨⟨e, hq⟩, hP, hfirst⟩
    refine ⟨?_, hP, fun j e' hj hlt => hfirst j e' (.tail _ hj) hlt⟩
    rcases List.mem_cons.1 hq with hq | hq
    · injection hq with hq
      exact absurd (hq ▸ hP) h
    · exact ⟨e, hq⟩
  · rintro ⟨⟨e, hq⟩, hP, hfirst⟩
    refine ⟨⟨e, .tail _ hq⟩, hP, fun j e' hj hlt => ?_⟩
    rcases List.mem_cons.1 hj with hj | hj
    · injection hj with hj
      exact hj ▸ h
    · exact hfirst j e' hj hlt

/-- Where it holds at the first place, that is the one. -/
theorem firstPlace_cons_of (hafter : ∀ y ∈ code, k < y.1) (h : P k) :
    FirstPlace P ((k, c) :: code) q ↔ k = q := by
  constructor
  · rintro ⟨⟨e, hq⟩, -, hfirst⟩
    rcases List.mem_cons.1 hq with hq | hq
    · injection hq with hq
      exact hq.symm
    · exact absurd h (hfirst k c List.mem_cons_self (hafter _ hq))
  · rintro rfl
    refine ⟨⟨c, List.mem_cons_self⟩, h, fun j e hj hlt => ?_⟩
    rcases List.mem_cons.1 hj with hj | hj
    · injection hj with hj
      omega
    · have hj := hafter _ hj
      omega

end FirstPlace

/-- With an opener at `p` open, the count comes to its end at the first place that makes the code
from `p` on balanced. -/
theorem countFrom_opened_iff (hne : d.opener ≠ d.closer) {code : List (Nat × Char)} {p p' q : Nat}
    (horder : code.Pairwise fun x y => x.1 < y.1) {rest : List (Nat × Char)} :
    ∀ {before : List (Nat × Char)} {depth : Nat}, code = before ++ rest → (∀ x ∈ rest, p ≤ x.1) →
      ((before.filter fun x => p ≤ x.1).map (·.2)).count d.closer + depth
        = ((before.filter fun x => p ≤ x.1).map (·.2)).count d.opener →
      0 < depth →
      (countFrom d depth (some p) rest = some (p', q) ↔
        p' = p ∧ FirstPlace (Balanced d code p) rest q) := by
  induction rest with
  | nil =>
      intro before depth _ _ _ _
      simp [countFrom, FirstPlace]
  | cons x rest ih =>
      obtain ⟨k, c⟩ := x
      intro before depth hcode hle hcount hdepth
      subst hcode
      have hpk : p ≤ k := hle (k, c) List.mem_cons_self
      have hafter : ∀ y ∈ rest, k < y.1 :=
        (List.pairwise_cons.1 (List.pairwise_append.1 horder).2.1).1
      have hcode : before ++ (k, c) :: rest = (before ++ [(k, c)]) ++ rest := by simp
      have hseen : ((before ++ [(k, c)]).filter fun x => p ≤ x.1).map (·.2)
          = (before.filter fun x => p ≤ x.1).map (·.2) ++ [c] := by
        rw [List.filter_append, List.map_append, List.filter_cons_of_pos (by simpa using hpk)]
        rfl
      have hbalanced : Balanced d (before ++ (k, c) :: rest) p k ↔
          ((before.filter fun x => p ≤ x.1).map (·.2)).count d.closer + [c].count d.closer
            = ((before.filter fun x => p ≤ x.1).map (·.2)).count d.opener + [c].count d.opener := by
        unfold Balanced
        rw [codeBetween_append_cons horder hpk, List.count_append, List.count_append]
      -- Where an opener is still open after `k`, the place looked for is a later one.
      have hlater : ∀ depth', 0 < depth' →
          ((before.filter fun x => p ≤ x.1).map (·.2)).count d.closer + [c].count d.closer + depth'
            = ((before.filter fun x => p ≤ x.1).map (·.2)).count d.opener + [c].count d.opener →
          (countFrom d depth' (some p) rest = some (p', q) ↔
            p' = p ∧ FirstPlace (Balanced d (before ++ (k, c) :: rest) p) ((k, c) :: rest) q) := by
        intro depth' hdepth' hcount'
        rw [firstPlace_cons_of_not (by rw [hbalanced]; omega)]
        refine ih hcode (fun y hy => hle y (.tail _ hy)) ?_ hdepth'
        rw [hseen, List.count_append, List.count_append]
        exact hcount'
      rw [countFrom]
      by_cases hopen : c = d.opener
      · have hclose : c ≠ d.closer := fun h => hne (hopen.symm.trans h)
        have hone : [c].count d.opener = 1 := by rw [hopen, List.count_singleton_self]
        have hzero : [c].count d.closer = 0 := List.count_eq_zero.2 (by simpa using hclose.symm)
        rw [if_pos hopen]
        refine hlater (depth + 1) (Nat.succ_pos _) ?_
        omega
      rw [if_neg hopen]
      have hzero : [c].count d.opener = 0 := List.count_eq_zero.2 (by simpa using Ne.symm hopen)
      by_cases hclose : c = d.closer
      · have hone' : [c].count d.closer = 1 := by rw [hclose, List.count_singleton_self]
        rw [if_pos ⟨hclose, hdepth⟩]
        by_cases hone : depth = 1
        · rw [if_pos hone, firstPlace_cons_of hafter (hbalanced.2 (by omega)), Option.map_some,
            Option.some_inj, Prod.mk.injEq, eq_comm (a := p)]
        · rw [if_neg hone]
          refine hlater (depth - 1) (by omega) ?_
          omega
      · have hzero' : [c].count d.closer = 0 := List.count_eq_zero.2 (by simpa using Ne.symm hclose)
        rw [if_neg fun h => hclose h.1]
        refine hlater depth hdepth ?_
        omega

/-- Counting along code that is in order finds the first opener and the first place after it that
makes the code from there balanced. -/
theorem countFrom_eq_some_iff (hne : d.opener ≠ d.closer) {code : List (Nat × Char)}
    (horder : code.Pairwise fun x y => x.1 < y.1) {p q : Nat} :
    countFrom d 0 none code = some (p, q) ↔ FirstOpener d code p ∧ FirstBalance d code p q := by
  cases hfind : code.find? fun x => x.2 = d.opener with
  | none =>
      have hnone : ∀ x ∈ code, x.2 ≠ d.opener := by simpa using List.find?_eq_none.1 hfind
      have hcount := countFrom_closed hnone []
      rw [List.append_nil] at hcount
      rw [hcount]
      constructor
      · intro h
        cases h
      · rintro ⟨hopener, -⟩
        exact absurd rfl (hnone _ hopener.mem)
  | some x =>
      obtain ⟨p', c⟩ := x
      obtain ⟨hc, before, rest, rfl, hbefore⟩ := List.find?_eq_some_iff_append.1 hfind
      have hc : c = d.opener := of_decide_eq_true hc
      subst hc
      have hbefore : ∀ x ∈ before, x.2 ≠ d.opener := by simpa using hbefore
      obtain ⟨-, hrest, hlt⟩ := List.pairwise_append.1 horder
      rw [List.pairwise_cons] at hrest
      have hfirst : FirstOpener d (before ++ (p', d.opener) :: rest) p' := by
        refine ⟨by simp, fun k hk => ?_⟩
        rcases List.mem_append.1 hk with hk | hk
        · exact absurd rfl (hbefore _ hk)
        · rcases List.mem_cons.1 hk with hk | hk
          · injection hk with hk
            exact Nat.le_of_eq hk.symm
          · exact Nat.le_of_lt (hrest.1 _ hk)
      -- Of the code up to the opener, the opener alone is not before it.
      have hseen : (before ++ [(p', d.opener)]).filter (fun x => p' ≤ x.1) = [(p', d.opener)] := by
        rw [List.filter_append, List.filter_eq_nil_iff.2, List.nil_append]
        · simp
        · intro x hx
          have hx := hlt x hx _ List.mem_cons_self
          simpa using hx
      have hcode : before ++ (p', d.opener) :: rest
          = (before ++ [(p', d.opener)]) ++ rest := by simp
      rw [countFrom_closed hbefore, countFrom, if_pos rfl, Option.getD_none,
        countFrom_opened_iff hne horder hcode (fun x hx => Nat.le_of_lt (hrest.1 x hx))
          (by simp [hseen, hne]) Nat.one_pos]
      -- What stands after the opener is the rest.
      have hmem : ∀ {k c}, (k, c) ∈ before ++ (p', d.opener) :: rest → p' < k → (k, c) ∈ rest := by
        intro k c hk hk'
        rcases List.mem_append.1 hk with hk | hk
        · have hlt := hlt _ hk _ List.mem_cons_self
          exact absurd hlt (Nat.lt_asymm hk')
        · rcases List.mem_cons.1 hk with hk | hk
          · injection hk with hk
            exact absurd hk' (hk ▸ Nat.lt_irrefl _)
          · exact hk
      have hsub : ∀ {x}, x ∈ rest → x ∈ before ++ (p', d.opener) :: rest :=
        fun hx => List.mem_append_right _ (List.mem_cons_of_mem _ hx)
      constructor
      · rintro ⟨rfl, ⟨c, hq⟩, hbalanced, hleast⟩
        exact ⟨hfirst, hrest.1 _ hq, ⟨c, hsub hq⟩, hbalanced,
          fun k e hk hlater hlt => hleast k e (hmem hk hlater) hlt⟩
      · rintro ⟨hopener, hlater, ⟨c, hq⟩, hbalanced, hleast⟩
        obtain rfl := hopener.unique hfirst
        exact ⟨rfl, ⟨c, hmem hq hlater⟩, hbalanced,
          fun k e hk hlt => hleast k e (hsub hk) (hrest.1 _ hk) hlt⟩

theorem findMatching?_eq_countFrom {text : Text} {start : Nat} {tokens : List Token}
    (htokens : Tokens (text.drop start) tokens) :
    findMatching? d text start = countFrom d 0 none (codeFrom start tokens) := by
  rw [findMatching?_eq_found]
  exact found_run htokens start 0 none

-- ======================================================== what is found

/-- What is found lies in the text, from the start of the search on. -/
theorem findMatching?_bounds (hne : d.opener ≠ d.closer) {text : Text} {start p q : Nat}
    (h : findMatching? d text start = some (p, q)) : start ≤ p ∧ p < q ∧ q < text.length := by
  obtain ⟨tokens, htokens⟩ := exists_tokens (text.drop start)
  rw [findMatching?_eq_countFrom htokens] at h
  have horder := codeFrom_pairwise start tokens
  obtain ⟨hopener, hlater, ⟨c, hq⟩, -, -⟩ := (countFrom_eq_some_iff hne horder.1).1 h
  obtain ⟨-, rest, -, hle, -, hplace⟩ := exists_from_place htokens hq
  refine ⟨horder.2 _ hopener.mem, hlater, Nat.lt_of_not_le fun hend => ?_⟩
  refine hplace.ne_nil ?_
  rw [List.drop_drop, List.drop_eq_nil_of_le (by omega)]

/-- A search from the opener itself finds the same. -/
theorem findMatching?_from_opener (hne : d.opener ≠ d.closer) {text : Text} {start p q : Nat}
    (hfound : findMatching? d text start = some (p, q)) :
    findMatching? d text p = some (p, q) := by
  obtain ⟨tokens, htokens⟩ := exists_tokens (text.drop start)
  have hcount := hfound
  rw [findMatching?_eq_countFrom htokens] at hcount
  have horder := (codeFrom_pairwise start tokens).1
  obtain ⟨hopener, -⟩ := (countFrom_eq_some_iff hne horder).1 hcount
  obtain ⟨before, rest, hcode, hle, -, hplace⟩ := exists_from_place htokens hopener.mem
  rw [List.drop_drop, Nat.add_sub_cancel' hle] at hplace
  have hbefore : ∀ x ∈ before, x.2 ≠ d.opener := by
    intro x hx hx'
    rw [hcode] at horder
    have hlt := (List.pairwise_append.1 horder).2.2 x hx (p, d.opener) List.mem_cons_self
    have hmem : (x.1, d.opener) ∈ codeFrom start tokens := by
      rw [hcode, ← hx']
      exact List.mem_append_left _ hx
    exact absurd (hopener.first x.1 hmem) (Nat.not_le.2 hlt)
  rw [findMatching?_eq_countFrom hplace, ← countFrom_closed hbefore, ← hcode, hcount]

/-- The text from `start` on is a sequence of tokens, and in their code the first opener and the
first place from which on it is balanced are found. Nothing is found exactly if there is no opener
or no such place. A search from the opener itself finds the same, whatever stands before it. -/
theorem findMatching?_spec (hne : d.opener ≠ d.closer) (text : Text) (start : Nat) :
    (∃ tokens, Tokens (text.drop start) tokens) ∧
      ∀ tokens, Tokens (text.drop start) tokens →
        (∀ p q, findMatching? d text start = some (p, q) ↔
          FirstOpener d (codeFrom start tokens) p ∧ FirstBalance d (codeFrom start tokens) p q) ∧
        (findMatching? d text start = none ↔
          (∀ p, ¬FirstOpener d (codeFrom start tokens) p) ∨
            ∃ p, FirstOpener d (codeFrom start tokens) p ∧
              ∀ q, ¬FirstBalance d (codeFrom start tokens) p q) ∧
        ∀ p q, findMatching? d text start = some (p, q) →
          findMatching? d text p = some (p, q) := by
  refine ⟨exists_tokens _, fun tokens htokens => ?_⟩
  have hsome : ∀ p q, findMatching? d text start = some (p, q) ↔
      FirstOpener d (codeFrom start tokens) p ∧ FirstBalance d (codeFrom start tokens) p q := by
    intro p q
    rw [findMatching?_eq_countFrom htokens]
    exact countFrom_eq_some_iff hne (codeFrom_pairwise start tokens).1
  refine ⟨hsome, ?_, ?_⟩
  · rw [Option.eq_none_iff_forall_ne_some]
    constructor
    · intro hnone
      by_cases hopener : ∃ p, FirstOpener d (codeFrom start tokens) p
      · obtain ⟨p, hopener⟩ := hopener
        exact .inr ⟨p, hopener, fun q hq => hnone (p, q) ((hsome p q).2 ⟨hopener, hq⟩)⟩
      · exact .inl (not_exists.1 hopener)
    · rintro hnone ⟨p, q⟩ hfound
      obtain ⟨hopener, hq⟩ := (hsome p q).1 hfound
      rcases hnone with hnone | ⟨p', hopener', hnone⟩
      · exact hnone p hopener
      · obtain rfl := hopener.unique hopener'
        exact hnone q hq
  · exact fun p q hfound => findMatching?_from_opener hne hfound

/-- A closer before the group, and openers in a comment and in a literal. -/
def guardedText : Text := ") /*(*/ (\x22(\x22 b)"

theorem findMatching?_guardedText :
    parentheses.opener ≠ parentheses.closer ∧
      findMatching? parentheses guardedText 0 = some (8, 14) ∧
      ∃ tokens, Tokens guardedText tokens ∧ FirstOpener parentheses (codeFrom 0 tokens) 8 ∧
        FirstBalance parentheses (codeFrom 0 tokens) 8 14 := by
  have hne : parentheses.opener ≠ parentheses.closer := by decide
  have hfound : findMatching? parentheses guardedText 0 = some (8, 14) := by decide
  obtain ⟨⟨tokens, htokens⟩, hspec⟩ := findMatching?_spec hne guardedText 0
  exact ⟨hne, hfound, tokens, htokens, ((hspec tokens htokens).1 8 14).1 hfound⟩

end GoSurvey.Source
