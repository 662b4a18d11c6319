/-
Literals as the cutting of lists sees them. There a quote ends a literal
unless a backslash stands directly before it (`LookBack`), and outside
literals the separators at depth zero are cut at
(`piecesFrom_lookBack`).

A scan reads a literal differently: a backslash takes the next character
with it, and in a raw literal it means nothing. Both agree on a text
exactly if no literal that more tokens follow has a backslash directly
before its end (`splitTopLevel_spec`).
-/
import GoSurvey.Proofs.Source.Depth
import GoSurvey.Proofs.Source.Split
import GoSurvey.Source.Position

namespace GoSurvey.Source

open Text

-- ==================================================== the look-back rule

/-- Every such quote in a text stands directly behind a backslash; `previous` is the character
before the text. -/
def Held (quote : Char) : (previous : Option Char) → Text → Prop
  | _, [] => True
  | previous, c :: body => (c = quote → previous = some backslash) ∧ Held quote (some c) body

/-- A text is read as characters of code and literals, where a literal ends at the first quote of
its own that stands behind no backslash. -/
inductive LookBack : Text → List Token → Prop where
  | nil : LookBack [] []
  | code {c : Char} {after : Text} {read : List Token} (hquote : isQuote c = false)
      (hrest : LookBack after read) : LookBack (c :: after) (.code c :: read)
  | closed {quote : Char} {body after : Text} {read : List Token} (hquote : isQuote quote = true)
      (hbody : Held quote (some quote) body) (hlast : body.getLast? ≠ some backslash)
      (hrest : LookBack after read) :
      LookBack (quote :: (body ++ quote :: after)) (.literal (quote :: (body ++ [quote])) :: read)
  | unclosed {quote : Char} {body : Text} (hquote : isQuote quote = true)
      (hbody : Held quote (some quote) body) :
      LookBack (quote :: body) [.literal (quote :: body)]

variable {quote c : Char} {previous : Option Char} {body after text : Text}
  {read tokens : List Token}

theorem getLast?_cons_or : (c :: body).getLast?.or previous = body.getLast?.or (some c) := by
  rw [List.getLast?_cons]
  cases body.getLast? <;> rfl

theorem held_append : Held quote previous (body ++ after)
    ↔ Held quote previous body ∧ Held quote (body.getLast?.or previous) after := by
  induction body generalizing previous with
  | nil => simp [Held]
  | cons c body ih =>
      rw [List.cons_append, Held, Held, ih, getLast?_cons_or, and_assoc]

theorem isQuote_ne_backslash (hquote : isQuote quote = true) : quote ≠ backslash := by
  rintro rfl
  exact absurd hquote (by decide)

/-- Behind the quote that opens a literal, only a backslash of the literal is directly before
something. -/
theorem getLast?_or_quote (hquote : isQuote quote = true) :
    body.getLast?.or (some quote) = some backslash ↔ body.getLast? = some backslash := by
  cases body.getLast? with
  | none => simp [isQuote_ne_backslash hquote]
  | some c => rfl

/-- A text goes on to the first quote behind no backslash, or it has none. -/
theorem exists_close (quote : Char) (previous : Option Char) (rest : Text) :
    (∃ body after, rest = body ++ quote :: after ∧ Held quote previous body ∧
      body.getLast?.or previous ≠ some backslash) ∨ Held quote previous rest := by
  induction rest generalizing previous with
  | nil => exact .inr trivial
  | cons c rest ih =>
      by_cases hend : c = quote ∧ previous ≠ some backslash
      · obtain ⟨rfl, hend⟩ := hend
        exact .inl ⟨[], rest, rfl, trivial, hend⟩
      have hheld : c = quote → previous = some backslash :=
        fun hc => Classical.not_not.1 fun hprevious => hend ⟨hc, hprevious⟩
      rcases ih (some c) with ⟨body, after, rfl, hbody, hlast⟩ | hrest
      · exact .inl ⟨c :: body, after, rfl, ⟨hheld, hbody⟩, getLast?_cons_or ▸ hlast⟩
      · exact .inr ⟨hheld, hrest⟩

/-- Every text is read by the rule. -/
theorem exists_lookBack (text : Text) : ∃ read, LookBack text read := by
  -- What follows a character of code or a literal is shorter than the text.
  induction hlength : text.length using Nat.strongRecOn generalizing text with
  | _ n ih =>
      cases text with
      | nil => exact ⟨[], .nil⟩
      | cons c rest =>
          rw [List.length_cons] at hlength
          by_cases hquote : isQuote c = true
          · rcases exists_close c (some c) rest with ⟨body, after, rfl, hbody, hlast⟩ | hrest
            · rw [List.length_append, List.length_cons] at hlength
              obtain ⟨read, hread⟩ := ih after.length (by omega) after rfl
              have hlast := fun h => hlast ((getLast?_or_quote hquote).2 h)
              exact ⟨_, .closed hquote hbody hlast hread⟩
            · exact ⟨_, .unclosed hquote hrest⟩
          · obtain ⟨read, hread⟩ := ih rest.length (by omega) rest rfl
            exact ⟨_, .code (by simpa using hquote) hread⟩

-- ========================================================= cutting a text

/-- The pieces of a text from `start` on, cut at characters that are left out. -/
def piecesBetween (text : Text) : (start : Nat) → List Nat → List Text
  | start, [] => [text.drop start]
  | start, k :: cuts => slice text start k :: piecesBetween text (k + 1) cuts

/-- The separators in code where as many brackets are open as before it; `depth` are. -/
def separatorsFrom (sep : Char) : (depth : Int) → List (Nat × Char) → List Nat
  | _, [] => []
  | depth, (k, c) :: code =>
    if isOpening c then separatorsFrom sep (depth + 1) code
    else if isClosing c then separatorsFrom sep (depth - 1) code
    else if c = sep ∧ depth = 0 then k :: separatorsFrom sep depth code
    else separatorsFrom sep depth code

/-- At an offset stands a separator of the code before which as many brackets are closed as are
opened. -/
def TopLevel (sep : Char) (depth : Int) (code : List (Nat × Char)) (k : Nat) : Prop :=
  ∃ before after, code = before ++ (k, sep) :: after ∧
    depth + before.countP (fun x => isOpening x.2) = before.countP (fun x => isClosing x.2)

variable {sep : Char} {depth : Int} {code : List (Nat × Char)} {k offset : Nat}

theorem separatorsFrom_sublist (sep : Char) (depth : Int) (code : List (Nat × Char)) :
    (separatorsFrom sep depth code).Sublist (code.map (·.1)) := by
  induction code generalizing depth with
  | nil => exact List.nil_sublist _
  | cons x code ih =>
      obtain ⟨k, c⟩ := x
      rw [separatorsFrom, List.map_cons]
      split
      · exact (ih _).cons k
      · split
        · exact (ih _).cons k
        · split
          · exact (ih _).cons_cons k
          · exact (ih _).cons k

theorem topLevel_cons {x : Nat × Char} : TopLevel sep depth (x :: code) k ↔
    (x = (k, sep) ∧ depth = 0) ∨
      TopLevel sep (depth + (if isOpening x.2 then 1 else 0 : Nat)
        - (if isClosing x.2 then 1 else 0 : Nat)) code k := by
  constructor
  · rintro ⟨before, after, hcode, hdepth⟩
    cases before with
    | nil =>
        injection hcode with hx hcode
        exact .inl ⟨hx, by simpa using hdepth⟩
    | cons y before =>
        injection hcode with hx hcode
        subst hx
        refine .inr ⟨before, after, hcode, ?_⟩
        rw [List.countP_cons, List.countP_cons] at hdepth
        omega
  · rintro (⟨rfl, rfl⟩ | ⟨before, after, rfl, hdepth⟩)
    · exact ⟨[], code, rfl, rfl⟩
    · refine ⟨x :: before, after, rfl, ?_⟩
      rw [List.countP_cons, List.countP_cons]
      omega

theorem isClosing_of_isOpening (h : isOpening c = true) : isClosing c = false := by
  refine Bool.eq_false_iff.2 fun hclosing => ?_
  rw [isOpening_iff, closerOf?_of_isClosing hclosing] at h
  cases h

/-- What the list of the separators holds. -/
theorem mem_separatorsFrom_iff (hopen : isOpening sep = false) (hclose : isClosing sep = false) :
    k ∈ separatorsFrom sep depth code ↔ TopLevel sep depth code k := by
  induction code generalizing depth with
  | nil =>
      refine iff_of_false List.not_mem_nil ?_
      rintro ⟨before, after, hcode, -⟩
      exact absurd hcode (by simp)
  | cons x code ih =>
      obtain ⟨j, c⟩ := x
      rw [topLevel_cons, separatorsFrom, ← ih]
      -- A bracket is no separator, so it changes the depth and nothing else.
      have hne : isOpening c = true ∨ isClosing c = true → ¬((j, c) = (k, sep) ∧ depth = 0) := by
        rintro hbracket ⟨⟨⟩, -⟩
        rw [hopen, hclose] at hbracket
        exact hbracket.elim Bool.noConfusion Bool.noConfusion
      by_cases hopening : isOpening c = true
      · rw [or_iff_right (hne (.inl hopening)), if_pos hopening, if_pos hopening,
          isClosing_of_isOpening hopening, if_neg Bool.false_ne_true]
        simp
      by_cases hclosing : isClosing c = true
      · rw [or_iff_right (hne (.inr hclosing)), if_neg hopening, if_pos hclosing, if_neg hopening,
          if_pos hclosing]
        simp
      · have hsame : depth + (0 : Nat) - (0 : Nat) = depth := by omega
        rw [if_neg hopening, if_neg hclosing, if_neg hopening, if_neg hclosing, hsame]
        by_cases hsep : c = sep ∧ depth = 0
        · rw [if_pos hsep, List.mem_cons]
          simp [hsep.1, hsep.2, eq_comm]
        · rw [if_neg hsep]
          refine (or_iff_right fun h => hsep ⟨?_, h.2⟩).symm
          exact (Prod.mk.inj h.1).2

-- =================================================== a text, token by token

/-- The pieces from a place on are those from behind some text that stands there, if no cut is made
in it. -/
theorem foldr_extendFirst (full : Text) (t : Text) {rest : Text} {cuts : List Nat}
    (hplace : full.drop offset = t ++ rest) (hcuts : ∀ k ∈ cuts, offset + t.length ≤ k) :
    t.foldr extendFirst (piecesBetween full (offset + t.length) cuts)
      = piecesBetween full offset cuts := by
  induction t generalizing offset with
  | nil => rfl
  | cons c t ih =>
      have hnext : full.drop (offset + 1) = t ++ rest := by
        rw [← List.tail_drop, hplace]
        rfl
      rw [List.length_cons] at hcuts
      have hlater := ih hnext fun k hk => by
        have hle := hcuts k hk
        omega
      rw [List.foldr_cons, List.length_cons, Nat.add_comm t.length, ← Nat.add_assoc, hlater]
      cases cuts with
      | nil =>
          rw [piecesBetween, piecesBetween, hplace, hnext]
          rfl
      | cons k cuts =>
          have hlt : offset < k := by
            have hle := hcuts k List.mem_cons_self
            omega
          have hsucc : k - offset = (k - (offset + 1)) + 1 := by omega
          rw [piecesBetween, piecesBetween]
          unfold slice extendFirst
          rw [List.drop_take, List.drop_take, hplace, hnext, hsucc]
          rfl

theorem piecesFrom_quote (hquote : isQuote quote = true) :
    piecesFrom sep depth none previous (quote :: after)
      = extendFirst quote (piecesFrom sep depth (some quote) (some quote) after) := by
  have hstep : cutStep sep depth none previous quote = (false, depth, some quote) := by
    unfold cutStep
    dsimp only
    rw [if_pos hquote]
  rw [piecesFrom_cons, hstep]
  rfl

theorem piecesFrom_close (hend : previous ≠ some backslash) :
    piecesFrom sep depth (some quote) previous (quote :: after)
      = extendFirst quote (piecesFrom sep depth none (some quote) after) := by
  have hstep : cutStep sep depth (some quote) previous quote = (false, depth, none) := by
    unfold cutStep
    dsimp only
    rw [decide_eq_true rfl, decide_eq_true hend]
    rfl
  rw [piecesFrom_cons, hstep]
  rfl

/-- In a literal nothing is cut at. -/
theorem piecesFrom_held (hbody : Held quote previous body) :
    piecesFrom sep depth (some quote) previous (body ++ after)
      = body.foldr extendFirst
          (piecesFrom sep depth (some quote) (body.getLast?.or previous) after) := by
  induction body generalizing previous with
  | nil => rfl
  | cons c body ih =>
      obtain ⟨hheld, hbody⟩ := hbody
      have hstep : cutStep sep depth (some quote) previous c = (false, depth, some quote) := by
        have hgo : (decide (c = quote) && decide (previous ≠ some backslash)) = false := by
          simpa using hheld
        unfold cutStep
        dsimp only
        rw [hgo]
        rfl
      rw [List.cons_append, piecesFrom_cons, hstep, getLast?_cons_or, List.foldr_cons, ← ih hbody]
      rfl

/-- The separators of code stand where the code does. -/
theorem le_of_mem_separatorsFrom
    (h : k ∈ separatorsFrom sep depth (codeFrom offset read)) : offset ≤ k := by
  obtain ⟨x, hx, rfl⟩ := List.mem_map.1 ((separatorsFrom_sublist sep depth _).subset h)
  exact (codeFrom_pairwise offset read).2 x hx

/-- The pieces of a text are what stands between the separators at depth zero. -/
theorem piecesFrom_lookBack (full : Text) {t : Text} (h : LookBack t read)
    (hplace : full.drop offset = t) (depth : Int) (previous : Option Char) :
    piecesFrom sep depth none previous t
      = piecesBetween full offset (separatorsFrom sep depth (codeFrom offset read)) := by
  induction h generalizing offset depth previous with
  | nil =>
      rw [codeFrom, separatorsFrom, piecesBetween, hplace]
      rfl
  | @code c after read hquote _ ih =>
      have hnext : full.drop (offset + 1) = after := by
        rw [← List.tail_drop, hplace]
        rfl
      have hextend : ∀ depth', extendFirst c (piecesFrom sep depth' none (some c) after)
          = piecesBetween full offset (separatorsFrom sep depth' (codeFrom (offset + 1) read)) := by
        intro depth'
        rw [ih hnext depth' (some c)]
        exact foldr_extendFirst full [c] hplace fun k hk => le_of_mem_separatorsFrom hk
      rw [piecesFrom_cons, codeFrom, separatorsFrom]
      unfold cutStep
      dsimp only
      rw [hquote]
      by_cases hopening : isOpening c = true
      · simp only [hopening, if_true, Bool.false_eq_true, if_false]
        exact hextend (depth + 1)
      by_cases hclosing : isClosing c = true
      · simp only [hopening, hclosing, if_true, Bool.false_eq_true, if_false]
        exact hextend (depth - 1)
      by_cases hsep : c = sep ∧ depth = 0
      · obtain ⟨rfl, rfl⟩ := hsep
        simp only [hopening, hclosing, decide_true, Bool.and_self, and_self, if_true,
          Bool.false_eq_true, if_false]
        rw [piecesBetween, ih hnext 0 (some c)]
        congr 1
        unfold slice
        exact (List.drop_eq_nil_of_le (List.length_take_le offset full)).symm
      · have hnot : (decide (c = sep) && decide (depth = 0)) = false := by simpa using hsep
        simp only [hopening, hclosing, hnot, hsep, Bool.false_eq_true, if_false]
        exact hextend depth
  | @closed quote body after read hquote hbody hlast _ ih =>
      have hend : body.getLast?.or (some quote) ≠ some backslash :=
        fun h => hlast ((getLast?_or_quote hquote).1 h)
      have htext : full.drop offset = (quote :: (body ++ [quote])) ++ after := by
        rw [hplace]
        simp
      have hnext : full.drop (offset + (quote :: (body ++ [quote])).length) = after := by
        rw [← List.drop_drop, htext, List.drop_left]
      have hle : ∀ k ∈ separatorsFrom sep depth
            (codeFrom (offset + (quote :: (body ++ [quote])).length) read),
          offset + (quote :: (body ++ [quote])).length ≤ k :=
        fun k hk => le_of_mem_separatorsFrom hk
      have hcuts := foldr_extendFirst full _ htext hle
      rw [piecesFrom_quote hquote, piecesFrom_held hbody, piecesFrom_close hend, ih hnext]
      rw [List.foldr_cons, List.foldr_append] at hcuts
      exact hcuts
  | @unclosed quote body hquote hbody =>
      have htext : full.drop offset = (quote :: body) ++ [] := by rw [hplace, List.append_nil]
      have hnext : full.drop (offset + (quote :: body).length) = [] := by
        rw [← List.drop_drop, hplace, List.drop_length]
      have hle : ∀ k ∈ ([] : List Nat), offset + (quote :: body).length ≤ k :=
        fun k hk => absurd hk List.not_mem_nil
      have hcuts := foldr_extendFirst full _ htext hle
      rw [piecesBetween, hnext] at hcuts
      rw [piecesFrom_quote hquote, ← List.append_nil body, piecesFrom_held hbody]
      rw [List.append_nil]
      exact hcuts

/-- The parts of a text are cut at the separators of code, at depth zero, and nowhere else. -/
def CutAtTopLevel (sep : Char) (text : Text) (code : List (Nat × Char)) : Prop :=
  ∃ cuts, cuts.Pairwise (· < ·) ∧ (∀ k, k ∈ cuts ↔ TopLevel sep 0 code k) ∧
    splitTopLevel sep text = keptParts (piecesBetween text 0 cuts)

theorem cutAtTopLevel (hopen : isOpening sep = false) (hclose : isClosing sep = false)
    (h : LookBack text read) : CutAtTopLevel sep text (codeFrom 0 read) := by
  refine ⟨separatorsFrom sep 0 (codeFrom 0 read), ?_, fun k => mem_separatorsFrom_iff hopen hclose,
    ?_⟩
  · refine List.Pairwise.sublist (separatorsFrom_sublist sep 0 _) ?_
    exact List.pairwise_map.2 (codeFrom_pairwise 0 read).1
  · rw [splitTopLevel_eq, piecesFrom_lookBack text h List.drop_zero 0 none]

-- ================================================= the tokens of a scan

/-- A token is a comment. -/
def Token.IsComment : Token → Prop
  | .lineComment _ => True
  | .blockComment _ => True
  | .literal _ => False
  | .code _ => False

/-- The quote that ends a literal stands directly behind a backslash, which may be one of a pair or
belong to a raw literal. -/
def Token.LooksOpen (token : Token) : Prop :=
  ∃ quote body, token = .literal (quote :: (body ++ [quote])) ∧ body.getLast? = some backslash

theorem held_of_not_mem (h : quote ∉ body) : Held quote previous body := by
  induction body generalizing previous with
  | nil => trivial
  | cons c body ih =>
      rw [List.mem_cons, not_or] at h
      exact ⟨fun hc => absurd hc.symm h.1, ih h.2⟩

theorem held_of_escaped (hquote : quote ≠ backslash) (h : Escaped quote body) :
    Held quote previous body := by
  induction h generalizing previous with
  | nil => trivial
  | pair c _ ih => exact ⟨fun hback => absurd hback.symm hquote, fun _ => rfl, ih⟩
  | plain _ hend _ _ ih => exact ⟨fun hc => absurd hc hend, ih⟩

/-- By the rule no literal but the last looks open. -/
theorem LookBack.not_looksOpen (h : LookBack text read) :
    ∀ token ∈ read.dropLast, ¬token.LooksOpen := by
  have hcons : ∀ {token : Token} {read : List Token}, ¬token.LooksOpen →
      (∀ t ∈ read.dropLast, ¬t.LooksOpen) → ∀ t ∈ (token :: read).dropLast, ¬t.LooksOpen := by
    intro token read htoken hread t ht
    cases read with
    | nil => cases ht
    | cons next read =>
        rcases List.mem_cons.1 ht with rfl | ht
        · exact htoken
        · exact hread t ht
  induction h with
  | nil => exact fun token htoken => by cases htoken
  | code _ _ ih =>
      refine hcons ?_ ih
      rintro ⟨quote, body, heq, -⟩
      cases heq
  | closed _ _ hlast _ ih =>
      refine hcons ?_ ih
      rintro ⟨quote, body, heq, hback⟩
      injection heq with heq
      injection heq with _ heq
      obtain ⟨rfl, -⟩ := List.append_inj' heq rfl
      exact hlast hback
  | unclosed => exact fun token htoken => by cases htoken

/-- A literal that is closed is read alike by the rule if it does not look open, or if nothing
follows it. -/
theorem lookBack_closed (hquote : isQuote quote = true) (hbody : Held quote (some quote) body)
    (htokens : Tokens after tokens) (hrest : LookBack after tokens)
    (hlooks : ∀ token ∈ (.literal (quote :: (body ++ [quote])) :: tokens).dropLast,
      ¬Token.LooksOpen token) :
    LookBack (quote :: (body ++ quote :: after))
      (.literal (quote :: (body ++ [quote])) :: tokens) := by
  by_cases hlast : body.getLast? = some backslash
  · cases htokens with
    | nil =>
        refine .unclosed hquote (held_append.2 ⟨hbody, fun _ => ?_, trivial⟩)
        exact (getLast?_or_quote hquote).2 hlast
    | cons hfirst _ =>
        exact absurd ⟨quote, body, rfl, hlast⟩ (hlooks _ List.mem_cons_self)
  · exact .closed hquote hbody hlast hrest

/-- Where no literal but the last looks open, the tokens are what the rule reads. -/
theorem lookBack_tokens (htokens : Tokens text tokens) (hline : newline ∉ text)
    (hcode : ∀ token ∈ tokens, ¬token.IsComment)
    (hlooks : ∀ token ∈ tokens.dropLast, ¬token.LooksOpen) : LookBack text tokens := by
  induction htokens with
  | nil => exact .nil
  | @cons token after tokens hfirst hrest ih =>
      rw [List.mem_append, not_or] at hline
      have hlater := ih hline.2 (fun t ht => hcode t (List.mem_cons_of_mem _ ht)) fun t ht => by
        refine hlooks t ?_
        cases tokens with
        | nil => cases ht
        | cons next tokens => exact List.mem_cons_of_mem _ ht
      cases hfirst with
      | lineComment => exact absurd trivial (hcode _ List.mem_cons_self)
      | lastLineComment => exact absurd trivial (hcode _ List.mem_cons_self)
      | blockComment => exact absurd trivial (hcode _ List.mem_cons_self)
      | lastBlockComment => exact absurd trivial (hcode _ List.mem_cons_self)
      | @escaped quote stop body after hquote hbody hstop =>
          have hopen := isQuote_iff.2 (.inl hquote)
          have hheld : Held quote (some quote) body :=
            held_of_escaped (isQuote_ne_backslash hopen) hbody
          rcases hstop with rfl | rfl
          · simpa [Token.text] using lookBack_closed hopen hheld hrest hlater hlooks
          · exact absurd (by simp [Token.text]) hline.1
      | @lastEscaped quote body tail hquote hbody htail =>
          have hopen := isQuote_iff.2 (.inl hquote)
          have hback := isQuote_ne_backslash hopen
          obtain rfl := tokens_nil hrest
          rw [List.append_nil]
          refine .unclosed hopen (held_append.2 ⟨held_of_escaped hback hbody, ?_⟩)
          refine held_of_not_mem fun hmem => ?_
          rcases htail with rfl | rfl
          · cases hmem
          · exact hback (List.mem_singleton.1 hmem)
      | @raw body after hbody =>
          have hopen := isQuote_iff.2 (.inr rfl)
          simpa [Token.text] using
            lookBack_closed hopen (held_of_not_mem hbody) hrest hlater hlooks
      | @lastRaw body hbody =>
          have hopen := isQuote_iff.2 (.inr rfl)
          obtain rfl := tokens_nil hrest
          rw [List.append_nil]
          exact .unclosed hopen (held_of_not_mem hbody)
      | code hquote _ _ => exact .code hquote hlater

-- ======================================================= the main result

/-- A list is cut exactly at the separators that stand at depth zero outside literals, where a
literal ends at the first quote of its own behind no backslash. On a line without comments these are
the literals of a scan exactly if of those that more tokens follow none has a backslash directly
before its end. -/
theorem splitTopLevel_spec (hopen : isOpening sep = false) (hclose : isClosing sep = false)
    (text : Text) :
    (∃ read, LookBack text read) ∧
      (∀ read, LookBack text read → CutAtTopLevel sep text (codeFrom 0 read)) ∧
      ∀ tokens, Tokens text tokens → newline ∉ text → (∀ token ∈ tokens, ¬token.IsComment) →
        (LookBack text tokens ↔ ∀ token ∈ tokens.dropLast, ¬token.LooksOpen) :=
  ⟨exists_lookBack text, fun _ h => cutAtTopLevel hopen hclose h,
    fun _ htokens hline hcode =>
      ⟨LookBack.not_looksOpen, lookBack_tokens htokens hline hcode⟩⟩

/-- A literal that is a backslash, written as a pair, and a name. -/
def backslashText : Text := "\x22\\\\\x22, b"

/-- For a scan the literal is closed before the comma; for the cutting it is not, so the text is one
part. -/
theorem splitTopLevel_backslashText :
    isOpening ',' = false ∧ isClosing ',' = false ∧ newline ∉ backslashText ∧
      ∃ tokens, Tokens backslashText tokens ∧ (∀ token ∈ tokens, ¬token.IsComment) ∧
        TopLevel ',' 0 (codeFrom 0 tokens) 4 ∧ ¬LookBack backslashText tokens ∧
        splitTopLevel ',' backslashText = [backslashText] := by
  have hopen : isOpening ',' = false := by decide
  have hclose : isClosing ',' = false := by decide
  have hline : newline ∉ backslashText := by decide
  have hliteral : Begins (.literal (doubleQuote :: ([backslash, backslash] ++ [doubleQuote])))
      ", b" := .escaped (.inl rfl) (.pair backslash .nil) (.inl rfl)
  have htokens : Tokens backslashText
      (.literal "\x22\\\\\x22" :: (", b" : Text).map Token.code) :=
    .cons hliteral (tokens_bare (by decide))
  have hcode : ∀ token ∈ .literal "\x22\\\\\x22" :: (", b" : Text).map Token.code,
      ¬token.IsComment := by
    intro token htoken
    rcases List.mem_cons.1 htoken with rfl | htoken
    · exact id
    · obtain ⟨c, -, rfl⟩ := List.mem_map.1 htoken
      exact id
  have hheld : Held doubleQuote (some doubleQuote) backslashText.tail :=
    ⟨by decide, by decide, by decide, by decide, by decide, by decide, trivial⟩
  have hread : LookBack backslashText [.literal backslashText] := .unclosed (by decide) hheld
  obtain ⟨-, hcuts, hagree⟩ := splitTopLevel_spec hopen hclose backslashText
  refine ⟨hopen, hclose, hline, _, htokens, hcode, ⟨[], [(5, ' '), (6, 'b')], rfl, rfl⟩, ?_, ?_⟩
  · intro hlook
    refine (hagree _ htokens hline hcode).1 hlook _ List.mem_cons_self ?_
    exact ⟨doubleQuote, [backslash, backslash], rfl, rfl⟩
  · obtain ⟨cuts, -, hmem, hparts⟩ := hcuts _ hread
    have hnone : cuts = [] := by
      refine List.eq_nil_iff_forall_not_mem.2 fun k hk => ?_
      obtain ⟨before, after, hcode, -⟩ := (hmem k).1 hk
      exact absurd hcode (by simp [codeFrom])
    rw [hparts, hnone]
    decide

end GoSurvey.Source
