/-
Patterns of text, and the search for them.

A pattern is a tree of eleven forms. What it matches at a place is
decided by trying its possibilities in a fixed order: a choice tries its
first side first, a run takes as many characters as it can before it
gives any back, a short run as few as it can. `attempt` carries that out
with the continuation `k` standing for everything that has to match
afterwards, so a possibility that leads nowhere is given up and the next
one tried.

Places are `Cursor`s. They know the character before them and their
offset, which is what word edges, line starts and match offsets need,
and they carry only the text that is still ahead.
-/
import GoSurvey.Text.Blank
import GoSurvey.Text.WordChar

namespace GoSurvey

/-- A place in a text. -/
structure Cursor where
  /-- The character before the place, if it is not the start of the text. -/
  previous : Option Char
  /-- The text from the place on. -/
  rest : Text
  /-- The number of characters before the place. -/
  offset : Nat

namespace Cursor

/-- The place at the start of a text. -/
def start (t : Text) : Cursor := ⟨none, t, 0⟩

/-- The place after the next character, where `rest` follows it. -/
def step (cur : Cursor) (c : Char) (rest : Text) : Cursor := ⟨some c, rest, cur.offset + 1⟩

/-- Exactly one of the characters on the two sides is a word character. -/
def atWordEdge (cur : Cursor) : Bool :=
  (cur.previous.map Text.isWord).getD false != (cur.rest.head?.map Text.isWord).getD false

/-- The start of the text. -/
def atStart (cur : Cursor) : Bool := cur.offset == 0

/-- The start of the text or of a line. -/
def atLineStart (cur : Cursor) : Bool := cur.offset == 0 || cur.previous == some Text.newline

/-- The end of the text, or before the newline that ends it. -/
def atEnd (cur : Cursor) : Bool := cur.rest.isEmpty || cur.rest == [Text.newline]

end Cursor

/-- What a text may look like, with the order in which its possibilities are tried. -/
inductive Pattern where
  /-- The empty text. -/
  | nothing
  /-- One character of a class. -/
  | one (cls : Char → Bool)
  /-- One pattern after another. -/
  | seq (first second : Pattern)
  /-- The first pattern or, failing that, the second. -/
  | choice (first second : Pattern)
  /-- Characters of a class, as many as possible. -/
  | run (cls : Char → Bool)
  /-- Characters of a class, as few as possible. -/
  | shortRun (cls : Char → Bool)
  /-- A pattern that matches no empty text, repeated as often as possible. -/
  | repeated (body : Pattern)
  /-- A pattern whose text is remembered under a number. -/
  | group (index : Nat) (body : Pattern)
  /-- The empty text at a place with a property. -/
  | place (holds : Cursor → Bool)
  /-- The empty text where a pattern would match. -/
  | ahead (body : Pattern)
  /-- The empty text where a pattern would not match. -/
  | notAhead (body : Pattern)

namespace Pattern

-- ======================================================= abbreviations

instance : Append Pattern := ⟨seq⟩

/-- Exactly this text. -/
def lit (t : Text) : Pattern := t.foldr (fun c p => seq (one (· == c)) p) nothing

instance : Coe String Pattern := ⟨fun s => lit s.toList⟩

/-- Characters of a class, at least one and as many as possible. -/
def run1 (cls : Char → Bool) : Pattern := seq (one cls) (run cls)

/-- Characters of a class, at least one and as few as possible. -/
def shortRun1 (cls : Char → Bool) : Pattern := seq (one cls) (shortRun cls)

/-- A pattern or the empty text. -/
def optional (p : Pattern) : Pattern := choice p nothing

/-- The first of several texts that matches. -/
def oneOf : List Text → Pattern
  | [] => place fun _ => false
  | [t] => lit t
  | t :: ts => choice (lit t) (oneOf ts)

/-- Word characters, at least one. -/
def word : Pattern := run1 Text.isWord

/-- Blanks, possibly none. -/
def blanks : Pattern := run Text.isBlank

/-- Blanks, at least one. -/
def blanks1 : Pattern := run1 Text.isBlank

/-- A word edge. -/
def wordEdge : Pattern := place Cursor.atWordEdge

/-- The start of the text. -/
def atStart : Pattern := place Cursor.atStart

/-- The start of the text or of a line. -/
def lineStart : Pattern := place Cursor.atLineStart

/-- The end of the text, or before the newline that ends it. -/
def atEnd : Pattern := place Cursor.atEnd

/-- Every character but the given one. -/
def except (c d : Char) : Bool := d != c

/-- Text in square brackets without a closing one inside. -/
def bracketed : Pattern := "[" ++ run (except ']') ++ "]"

-- ============================================================ matching

/-- A text to be remembered under a number: where it starts and how long it is. -/
structure Capture where
  index : Nat
  /-- The text from its start on. -/
  rest : Text
  length : Nat

/-- A place reached, with the texts remembered on the way; later ones stand first. -/
structure State where
  cursor : Cursor
  captures : List Capture

/-- What is to match from a state on. -/
abbrev Rest := State → Option State

/-- The longest run of a class after which `k` succeeds. -/
def attemptRun (cls : Char → Bool) (captures : List Capture) (k : Rest) :
    Text → Cursor → Option State
  | [], cur => k ⟨cur, captures⟩
  | c :: rest, cur =>
    if cls c then
      match attemptRun cls captures k rest (cur.step c rest) with
      | some s => some s
      | none => k ⟨cur, captures⟩
    else k ⟨cur, captures⟩

/-- The shortest run of a class after which `k` succeeds. -/
def attemptShortRun (cls : Char → Bool) (captures : List Capture) (k : Rest) :
    Text → Cursor → Option State
  | [], cur => k ⟨cur, captures⟩
  | c :: rest, cur =>
    match k ⟨cur, captures⟩ with
    | some s => some s
    | none => if cls c then attemptShortRun cls captures k rest (cur.step c rest) else none

/-- The most repetitions after which `k` succeeds, up to a number that the length of the text
ahead bounds, since every repetition takes a character at least. -/
def attemptRepeated (body : State → Rest → Option State) (k : Rest) : Nat → State → Option State
  | 0, s => k s
  | n + 1, s =>
    match body s fun s' =>
        if s.cursor.offset < s'.cursor.offset then attemptRepeated body k n s' else none with
    | some s' => some s'
    | none => k s

/-- Matches a pattern at a state, and then what follows it. -/
def attempt : Pattern → State → Rest → Option State
  | nothing, s, k => k s
  | one cls, s, k =>
    match s.cursor.rest with
    | [] => none
    | c :: rest => if cls c then k { s with cursor := s.cursor.step c rest } else none
  | seq p q, s, k => attempt p s fun s' => attempt q s' k
  | choice p q, s, k =>
    match attempt p s k with
    | some s' => some s'
    | none => attempt q s k
  | run cls, s, k => attemptRun cls s.captures k s.cursor.rest s.cursor
  | shortRun cls, s, k => attemptShortRun cls s.captures k s.cursor.rest s.cursor
  | repeated p, s, k => attemptRepeated (attempt p) k s.cursor.rest.length s
  | group index p, s, k =>
    attempt p s fun s' =>
      let capture := ⟨index, s.cursor.rest, s'.cursor.offset - s.cursor.offset⟩
      k { s' with captures := capture :: s'.captures }
  | place holds, s, k => if holds s.cursor then k s else none
  | ahead p, s, k =>
    match attempt p s some with
    | some _ => k s
    | none => none
  | notAhead p, s, k =>
    match attempt p s some with
    | some _ => none
    | none => k s

/-- A match: where it starts, its text, and the texts remembered in it. -/
structure Match where
  start : Nat
  text : Text
  captures : List (Nat × Text)

/-- The offset just after a match. -/
def Match.stop (m : Match) : Nat := m.start + m.text.length

/-- The text remembered under a number, if its group took part in the match. -/
def Match.group? (m : Match) (index : Nat) : Option Text := m.captures.lookup index

/-- The text remembered under a number; empty if its group took no part. -/
def Match.group (m : Match) (index : Nat) : Text := (m.group? index).getD []

/-- The match of a pattern at a place. -/
def matchAt (p : Pattern) (cur : Cursor) : Option Match :=
  (attempt p ⟨cur, []⟩ some).map fun s =>
    ⟨cur.offset, cur.rest.take (s.cursor.offset - cur.offset),
      s.captures.map fun c => (c.index, c.rest.take c.length)⟩

/-- The match at the start of a text. -/
def matchStart (p : Pattern) (t : Text) : Option Match := p.matchAt (Cursor.start t)

/-- The first match at a place or after it. -/
def searchFrom (p : Pattern) : Text → Cursor → Option Match
  | [], cur => p.matchAt cur
  | c :: rest, cur =>
    match p.matchAt cur with
    | some m => some m
    | none => searchFrom p rest (cur.step c rest)

/-- The first match in a text. -/
def search (p : Pattern) (t : Text) : Option Match := searchFrom p t (Cursor.start t)

/-- Whether a pattern matches anywhere in a text. -/
def occursIn (p : Pattern) (t : Text) : Bool := (p.search t).isSome

/-- The matches at a place or after it, once `skip` more characters have been passed over. -/
def findAllFrom (p : Pattern) (skip : Nat) : Text → Cursor → List Match
  | [], cur => if skip = 0 then (p.matchAt cur).toList else []
  | c :: rest, cur =>
    match skip with
    | n + 1 => findAllFrom p n rest (cur.step c rest)
    | 0 =>
      match p.matchAt cur with
      | some m => m :: findAllFrom p (m.text.length - 1) rest (cur.step c rest)
      | none => findAllFrom p 0 rest (cur.step c rest)

/-- The matches in a text from left to right, none overlapping the one before. -/
def findAll (p : Pattern) (t : Text) : List Match := findAllFrom p 0 t (Cursor.start t)

end Pattern
end GoSurvey
