/-
A line without the comment at its end, said in tokens. In a line in which
no block comment begins, what is stripped is the text of the first line
comment, with the blanks before it (`beforeLineComment?_tokens`). A scan
of the line passes over the comment, and blanks in code mean nothing to
it, so it comes out of the stripped line as it does out of the line
(`run_codeBefore`).

Both read literals in the same way. The only literal that a scan ends and
the stripping does not is one that a newline ends, and there is none in a
line.
-/
import GoSurvey.Proofs.Source.LineComment
import GoSurvey.Proofs.Source.Squeeze

namespace GoSurvey.Source

open Text DelimiterScan

-- ====================================================== tokens of a line

/-- A token is a block comment. -/
def Token.IsBlockComment : Token → Prop
  | .blockComment _ => True
  | _ => False

/-- What stands before the first line comment, if there is one. -/
def codeBefore? : List Token → Option Text
  | [] => none
  | .lineComment _ :: _ => some []
  | token :: tokens => (codeBefore? tokens).map (token.text ++ ·)

variable {d : Delimiters} {quote : Char} {body after text line code : Text} {tokens : List Token}

theorem codeBefore?_literal (text : Text) (tokens : List Token) :
    codeBefore? (.literal text :: tokens) = (codeBefore? tokens).map (text ++ ·) := rfl

theorem codeBefore?_code (c : Char) (tokens : List Token) :
    codeBefore? (.code c :: tokens) = (codeBefore? tokens).map (c :: ·) := rfl

-- ============================================= literals before a comment

theorem beforeLineComment?_quote (hquote : isQuote quote = true) :
    beforeLineComment? none false (quote :: after)
      = (beforeLineComment? (some quote) false after).map (quote :: ·) := by
  rw [beforeLineComment?, if_pos hquote]

theorem beforeLineComment?_escaped (hquote : IsEscapingQuote quote) (hbody : Escaped quote body)
    (after : Text) :
    beforeLineComment? (some quote) false (body ++ after)
      = (beforeLineComment? (some quote) false after).map (body ++ ·) := by
  have hraw := ne_backtick hquote
  have hback := ne_backslash hquote (.inl rfl)
  induction hbody with
  | nil => simp
  | pair c _ ih =>
      simp only [List.cons_append, beforeLineComment?, hback.symm, hraw, ih, ne_eq,
        not_false_eq_true, decide_true, Bool.and_self, if_false, Option.map_map]
      rfl
  | plain hescape hend _ _ ih =>
      simp only [List.cons_append, beforeLineComment?, hescape, hend, ih, decide_false,
        Bool.false_and, if_false, Option.map_map]
      rfl

theorem beforeLineComment?_raw (hbody : backtick ∉ body) (after : Text) :
    beforeLineComment? (some backtick) false (body ++ after)
      = (beforeLineComment? (some backtick) false after).map (body ++ ·) := by
  induction body with
  | nil => simp
  | cons c body ih =>
      rw [List.mem_cons, not_or] at hbody
      simp only [List.cons_append, beforeLineComment?, Ne.symm hbody.1, ih hbody.2, ne_eq,
        not_true_eq_false, decide_false, Bool.and_false, if_false, Option.map_map]
      rfl

/-- The quote of its own ends a literal. -/
theorem beforeLineComment?_close (hquote : isQuote quote = true) :
    beforeLineComment? (some quote) false (quote :: after)
      = (beforeLineComment? none false after).map (quote :: ·) := by
  have hback : quote ≠ backslash := by
    rintro rfl
    exact absurd hquote (by decide)
  simp only [beforeLineComment?, hback, decide_false, Bool.false_and, if_true]

/-- Literals are passed over on the way to a comment. -/
theorem beforeLineComment?_literal (h : Begins (.literal text) after) (hline : newline ∉ text) :
    beforeLineComment? none false (text ++ after)
      = (beforeLineComment? none false after).map (text ++ ·) := by
  cases h with
  | @escaped quote stop body after hquote hbody hstop =>
      have hopen := isQuote_iff.2 (.inl hquote)
      rcases hstop with rfl | rfl
      · have htext : stop :: (body ++ [stop]) ++ after = stop :: (body ++ stop :: after) := by simp
        rw [htext, beforeLineComment?_quote hopen, beforeLineComment?_escaped hquote hbody,
          beforeLineComment?_close hopen, Option.map_map, Option.map_map]
        congr 1
        funext code
        simp
      · exact absurd (by simp) hline
  | @lastEscaped quote body tail hquote hbody htail =>
      have hopen := isQuote_iff.2 (.inl hquote)
      have hnone : beforeLineComment? (some quote) false tail = none := by
        rcases htail with rfl | rfl <;> rfl
      rw [List.append_nil, beforeLineComment?_quote hopen, beforeLineComment?_escaped hquote hbody,
        hnone]
      rfl
  | @raw body after hbody =>
      have hopen := isQuote_iff.2 (.inr rfl)
      have htext : backtick :: (body ++ [backtick]) ++ after
          = backtick :: (body ++ backtick :: after) := by simp
      rw [htext, beforeLineComment?_quote hopen, beforeLineComment?_raw hbody,
        beforeLineComment?_close hopen, Option.map_map, Option.map_map]
      congr 1
      funext code
      simp
  | @lastRaw body hbody =>
      have hopen := isQuote_iff.2 (.inr rfl)
      have hraw := beforeLineComment?_raw hbody []
      rw [List.append_nil] at hraw
      rw [List.append_nil, beforeLineComment?_quote hopen, hraw]
      rfl

/-- The code of a line is what its tokens before the first line comment stand for. -/
theorem beforeLineComment?_tokens (htokens : Tokens line tokens) (hline : newline ∉ line)
    (hblock : ∀ token ∈ tokens, ¬token.IsBlockComment) :
    beforeLineComment? none false line = codeBefore? tokens := by
  induction htokens with
  | nil => rfl
  | @cons token after tokens hfirst _ ih =>
      rw [List.mem_append, not_or] at hline
      rw [List.forall_mem_cons] at hblock
      have hrest := ih hline.2 hblock.2
      cases token with
      | lineComment text =>
          have hquote : ¬isQuote '/' = true := by decide
          cases hfirst with
          | lineComment => exact if_neg hquote
          | lastLineComment => exact if_neg hquote
      | blockComment text => exact absurd trivial hblock.1
      | literal text =>
          rw [codeBefore?_literal, ← hrest]
          exact beforeLineComment?_literal hfirst hline.1
      | code c =>
          cases hfirst with
          | code hquote hmark _ =>
              have hmark' : ¬(decide (c = '/') && decide (after.head? = some '/')) = true := by
                rw [Bool.and_eq_true, decide_eq_true_eq, decide_eq_true_eq]
                exact hmark
              rw [codeBefore?_code, ← hrest, Token.text, List.singleton_append,
                beforeLineComment?, hquote, if_neg Bool.false_ne_true, if_neg hmark']

-- ============================================================= the scan

section Scan

variable (depth : Nat) (openedAt : Option Nat)

theorem trimEnd_append_cons {c : Char} (hc : isBlank c = false) (t u : Text) :
    trimEnd (t ++ c :: u) = t ++ c :: trimEnd u := by
  unfold trimEnd
  rw [dropEndWhile_append ⟨c, List.mem_cons_self, hc⟩, dropEndWhile_cons hc]

theorem not_isBlank_of_isQuote {c : Char} (h : isQuote c = true) : isBlank c = false := by
  cases hblank : isBlank c with
  | false => rfl
  | true =>
      rw [not_isQuote_of_isBlank hblank] at h
      cases h

/-- A literal before a line comment is one that is ended, so a scan passes over it. -/
theorem run_literal (h : Begins (.literal text) after) (hline : newline ∉ text)
    (hafter : after ≠ []) (rest : Text) (offset : Nat) :
    (∀ u, trimEnd (text ++ u) = text ++ trimEnd u) ∧
      run d false (text ++ rest) offset ⟨.code, depth, openedAt⟩
        = run d false rest (offset + text.length) ⟨.code, depth, openedAt⟩ := by
  cases h with
  | @escaped quote stop body after hquote hbody hstop =>
      have hblank := not_isBlank_of_isQuote (isQuote_iff.2 (.inl hquote))
      rcases hstop with rfl | rfl
      · refine ⟨fun u => ?_, ?_⟩
        · have htrim := trimEnd_append_cons hblank (stop :: body) u
          simpa using htrim
        · have hrun := run_escapedLiteral (d := d) depth openedAt hquote hbody (.inl rfl) rest
            offset
          simpa [Nat.add_assoc] using hrun
      · exact absurd (by simp) hline
  | @raw body after hbody =>
      have hblank := not_isBlank_of_isQuote (isQuote_iff.2 (.inr rfl))
      refine ⟨fun u => ?_, ?_⟩
      · have htrim := trimEnd_append_cons hblank (backtick :: body) u
        simpa using htrim
      · have hrun := run_rawLiteral (d := d) depth openedAt hbody rest offset
        simpa [Nat.add_assoc] using hrun
  | lastEscaped => exact absurd rfl hafter
  | lastRaw => exact absurd rfl hafter

/-- Blanks at the end of a line leave a scan in code where it is. -/
theorem run_blanks (hopener : isBlank d.opener = false) (hcloser : isBlank d.closer = false)
    (htext : ∀ c ∈ text, isBlank c = true) (offset : Nat) :
    run d false (text ++ [newline]) offset ⟨.code, depth, openedAt⟩
      = (none, ⟨.code, depth, openedAt⟩) := by
  have hblank : ∀ c ∈ text ++ [newline], isBlank c = true :=
    List.forall_mem_append.2 ⟨htext, List.forall_mem_singleton.2 (by decide)⟩
  have hne : ∀ {c : Char}, isBlank c = false → c ∉ text ++ [newline] := by
    intro c hc hmem
    rw [hblank c hmem] at hc
    cases hc
  refine run_plain (bare_of_no_slash fun c hc => ⟨not_isQuote_of_isBlank (htext c hc), ?_⟩)
    (hne hopener) (hne hcloser) offset depth openedAt
  rintro rfl
  exact absurd (htext _ hc) (by decide)

/-- A character of code does the same in front of texts that are scanned alike. -/
theorem run_cons_congr {c : Char} {rest rest' : Text} (hquote : isQuote c = false)
    (hrest : ∀ y ∈ rest.head?, NoMark c y) (hrest' : ∀ y ∈ rest'.head?, NoMark c y) (offset : Nat)
    (hsame : ∀ depth openedAt, run d false rest (offset + 1) ⟨.code, depth, openedAt⟩
      = run d false rest' (offset + 1) ⟨.code, depth, openedAt⟩) :
    run d false (c :: rest) offset ⟨.code, depth, openedAt⟩
      = run d false (c :: rest') offset ⟨.code, depth, openedAt⟩ := by
  rw [run, run, step_bare depth offset openedAt rest hquote hrest,
    step_bare depth offset openedAt rest' hquote hrest']
  by_cases hopen : c = d.opener
  · rw [if_pos hopen]
    exact hsame _ _
  rw [if_neg hopen]
  by_cases hclose : c = d.closer ∧ 0 < depth
  · rw [if_pos hclose]
    by_cases hone : depth = 1
    · rw [if_pos hone]
    · rw [if_neg hone]
      exact hsame _ _
  · rw [if_neg hclose]
    exact hsame _ _

/-- Where the end is trimmed, either the first character stays or all is blank. -/
theorem trimEnd_cons (c : Char) (t : Text) :
    trimEnd (c :: t) = c :: trimEnd t ∨
      (∀ e ∈ c :: t, isBlank e = true) ∧ trimEnd t = [] ∧ trimEnd (c :: t) = [] := by
  have hnil : ∀ {t : Text}, (∀ e ∈ t, isBlank e = true) → trimEnd t = [] := fun ht =>
    List.reverse_eq_nil_iff.2 (List.dropWhile_eq_nil_iff.2 fun e he => ht e (List.mem_reverse.1 he))
  by_cases ht : ∃ e ∈ t, isBlank e = false
  · exact .inl (dropEndWhile_append (t := [c]) ht)
  have ht : ∀ e ∈ t, isBlank e = true := fun e he =>
    by
    by_contra hvisible
    exact ht ⟨e, he, by simpa using hvisible⟩
  cases hc : isBlank c with
  | false => exact .inl (trimEnd_append_cons hc [] t)
  | true =>
      have hall : ∀ e ∈ c :: t, isBlank e = true := List.forall_mem_cons.2 ⟨hc, ht⟩
      exact .inr ⟨hall, hnil ht, hnil hall⟩

/-- Behind a character stands in the trimmed code what does in the code, or the newline. -/
theorem noMark_trimEnd {c : Char} (h : ∀ y ∈ (code ++ after).head?, NoMark c y) :
    ∀ y ∈ (trimEnd code ++ [newline]).head?, NoMark c y := by
  obtain ⟨trail, htrail, -⟩ := exists_dropEndWhile_eq isBlank code
  cases hstart : trimEnd code with
  | nil =>
      rintro y ⟨⟩ hnewline
      exact absurd hnewline.2 (by decide)
  | cons e more =>
      rintro y ⟨⟩
      refine h e ?_
      rw [htrail, show dropEndWhile isBlank code = _ from hstart]
      rfl

/-- The scan of a line with a line comment is that of the code before it, without the blanks at its
end. -/
theorem run_codeBefore (hopener : isBlank d.opener = false) (hcloser : isBlank d.closer = false)
    (htokens : Tokens line tokens) (hline : newline ∉ line)
    (hblock : ∀ token ∈ tokens, ¬token.IsBlockComment) (hcode : codeBefore? tokens = some code)
    (offset : Nat) :
    run d false (line ++ [newline]) offset ⟨.code, depth, openedAt⟩
      = run d false (trimEnd code ++ [newline]) offset ⟨.code, depth, openedAt⟩ := by
  have hend : ∀ depth openedAt offset, run d false ([] ++ [newline]) offset ⟨.code, depth, openedAt⟩
      = (none, ⟨.code, depth, openedAt⟩) := fun depth openedAt =>
    run_blanks depth openedAt hopener hcloser (List.forall_mem_nil _)
  induction htokens generalizing depth openedAt code offset with
  | nil => cases hcode
  | @cons token after tokens hfirst hafter ih =>
      rw [List.mem_append, not_or] at hline
      rw [List.forall_mem_cons] at hblock
      have hrest := fun depth openedAt {code} (hcode : codeBefore? tokens = some code) =>
        ih depth openedAt hline.2 hblock.2 hcode
      cases token with
      | blockComment text => exact absurd trivial hblock.1
      | lineComment text =>
          obtain rfl : [] = code := Option.some.inj hcode
          rw [show trimEnd [] = [] from rfl, hend]
          cases hfirst with
          | lineComment => exact absurd (by simp [Token.text]) hline.1
          | @lastLineComment body hbody =>
              have hrun := run_lineComment (d := d) depth openedAt hbody [] (offset + 2)
              simpa [Token.text, run, step] using hrun
      | literal text =>
          obtain ⟨code', hcode', rfl⟩ := Option.map_eq_some_iff.1 hcode
          have hne : after ≠ [] := by
            rintro rfl
            rw [tokens_nil hafter] at hcode'
            cases hcode'
          have hliteral := run_literal (d := d) depth openedAt hfirst hline.1 hne
          rw [Token.text, (hliteral [] offset).1, List.append_assoc, List.append_assoc,
            (hliteral _ offset).2, (hliteral _ offset).2]
          exact hrest depth openedAt hcode' _
      | code c =>
          obtain ⟨code', hcode', rfl⟩ := Option.map_eq_some_iff.1 hcode
          obtain ⟨comment, hcomment⟩ := beforeLineComment?_eq_some
            ((beforeLineComment?_tokens hafter hline.2 hblock.2).trans hcode')
          cases hfirst with
          | code hquote hmark hmark' =>
              have hhead : ∀ y ∈ after.head?, NoMark c y := by
                rintro y hy ⟨hc, rfl | rfl⟩
                · exact hmark ⟨hc, hy⟩
                · exact hmark' ⟨hc, hy⟩
              have hfull : ∀ y ∈ (after ++ [newline]).head?, NoMark c y := by
                rw [List.head?_append_of_ne_nil _ (hcomment ▸ by simp)]
                exact hhead
              have htrimmed := noMark_trimEnd (hcomment ▸ hhead)
              have hsame := run_cons_congr (d := d) depth openedAt hquote hfull htrimmed offset
                fun depth openedAt => hrest depth openedAt hcode' (offset + 1)
              rw [Token.text, List.singleton_append]
              rcases trimEnd_cons c code' with htrim | ⟨hall, hnil, htrim⟩
              · rw [List.singleton_append, htrim]
                exact hsame
              · rw [hnil] at hsame
                rw [List.singleton_append, htrim, hend]
                have hlast : run d false ([c] ++ [newline]) offset ⟨.code, depth, openedAt⟩ = _ :=
                  run_blanks depth openedAt hopener hcloser
                    (List.forall_mem_singleton.2 (hall c List.mem_cons_self)) offset
                exact hsame.trans hlast

end Scan

-- ======================================================= the main result

/-- A scan of a line comes to the same end without the comment that is stripped from it, if no block
comment begins in the line; and then what is left is the code before the line comment, without the
blanks before that. On every line it is a beginning of it, from which nothing more is taken. -/
theorem feed_stripLineComment (hopener : isBlank d.opener = false)
    (hcloser : isBlank d.closer = false) (line : Text) :
    (∃ tokens, Tokens line tokens) ∧
      (∀ tokens, Tokens line tokens → newline ∉ line →
        (∀ token ∈ tokens, ¬token.IsBlockComment) →
          stripLineComment line = ((codeBefore? tokens).map trimEnd).getD line ∧
            feed d {} (stripLineComment line ++ [newline]) 0 = feed d {} (line ++ [newline]) 0) ∧
      stripLineComment line <+: line ∧
      stripLineComment (stripLineComment line) = stripLineComment line := by
  refine ⟨exists_tokens line, fun tokens htokens hline hblock => ?_, stripLineComment_isPrefix line,
    stripLineComment_stripped line⟩
  have hstrip : stripLineComment line = ((codeBefore? tokens).map trimEnd).getD line := by
    unfold stripLineComment
    rw [beforeLineComment?_tokens htokens hline hblock]
    cases codeBefore? tokens <;> rfl
  refine ⟨hstrip, ?_⟩
  rw [hstrip]
  cases hcode : codeBefore? tokens with
  | none => rfl
  | some code =>
      rw [feed_line, feed_line]
      exact (run_codeBefore 0 none hopener hcloser htokens hline hblock hcode 0).symm

/-- A call that goes on in the next line. -/
def openCallLine : Text := "f(\x22)\x22, // )"

theorem feed_openCallLine :
    isBlank parentheses.opener = false ∧ isBlank parentheses.closer = false ∧
      newline ∉ openCallLine ∧ stripLineComment openCallLine = "f(\x22)\x22,".toList ∧
      feed parentheses {} (stripLineComment openCallLine ++ [newline]) 0
        = feed parentheses {} (openCallLine ++ [newline]) 0 := by
  have hopener : isBlank parentheses.opener = false := by decide
  have hcloser : isBlank parentheses.closer = false := by decide
  have hline : newline ∉ openCallLine := by decide
  have hplain : ∀ {c : Char} {after : Text}, isQuote c = false → c ≠ '/' → Begins (.code c) after :=
    fun hquote hc => .code hquote (fun h => hc h.1) fun h => hc h.1
  have hliteral : Begins (.literal (doubleQuote :: ([')'] ++ [doubleQuote]))) ", // )" :=
    .escaped (.inl rfl) (.plain (by decide) (by decide) (by decide) .nil) (.inl rfl)
  have hcomment : Begins (.lineComment ('/' :: '/' :: [' ', ')'])) [] :=
    .lastLineComment (by decide)
  have htokens : Tokens openCallLine
      [.code 'f', .code '(', .literal "\x22)\x22", .code ',', .code ' ', .lineComment "// )"] :=
    .cons (hplain (by decide) (by decide)) <| .cons (hplain (by decide) (by decide)) <|
      .cons hliteral <| .cons (hplain (by decide) (by decide)) <|
        .cons (hplain (by decide) (by decide)) <|
          .cons hcomment .nil
  obtain ⟨hstrip, hfeed⟩ := (feed_stripLineComment hopener hcloser openCallLine).2.1 _ htokens hline
    (by simp [Token.IsBlockComment])
  exact ⟨hopener, hcloser, hline, hstrip.trans (by decide), hfeed⟩

end GoSurvey.Source
