/-
Texts as bytes. The bytes of a file are read as UTF-8; every maximal
beginning of a character that is not completed becomes one U+FFFD, and so
does every byte that can begin none. Line ends of every convention become
newlines.
-/
import GoSurvey.Text.Basic

namespace GoSurvey.Text

/-- How many bytes a text is written with. -/
def byteLength : Text → Nat
  | [] => 0
  | c :: rest => c.utf8Size + byteLength rest

/-- The character that stands for bytes that are none. -/
def replacement : Char := Char.ofNat 0xFFFD

/-- A character begun but not completed. -/
structure Partial where
  /-- The value of the bits so far. -/
  value : Nat
  /-- How many bytes are missing. -/
  missing : Nat
  /-- The least next byte that continues the character. -/
  low : Nat
  /-- The greatest next byte that continues the character. -/
  high : Nat

/-- What a byte means where no character is begun. -/
inductive Lead where
  | complete (c : Char)
  | begins (p : Partial)
  | invalid

/-- The meaning of a byte at the start of a character. The bounds on the second byte keep out
overlong forms, surrogates and values beyond U+10FFFF. -/
def lead (b : Nat) : Lead :=
  if b < 0x80 then .complete (Char.ofNat b)
  else if b < 0xC2 then .invalid
  else if b < 0xE0 then .begins ⟨b - 0xC0, 1, 0x80, 0xBF⟩
  else if b = 0xE0 then .begins ⟨0, 2, 0xA0, 0xBF⟩
  else if b = 0xED then .begins ⟨0xD, 2, 0x80, 0x9F⟩
  else if b < 0xF0 then .begins ⟨b - 0xE0, 2, 0x80, 0xBF⟩
  else if b = 0xF0 then .begins ⟨0, 3, 0x90, 0xBF⟩
  else if b < 0xF4 then .begins ⟨b - 0xF0, 3, 0x80, 0xBF⟩
  else if b = 0xF4 then .begins ⟨4, 3, 0x80, 0x8F⟩
  else .invalid

/-- Decodes bytes after a character begun, if there is one. -/
def decodeFrom : Option Partial → List UInt8 → Text
  | none, [] => []
  | some _, [] => [replacement]
  | begun, byte :: rest =>
    let b := byte.toNat
    let fresh : Text :=
      match lead b with
      | .complete c => c :: decodeFrom none rest
      | .begins p => decodeFrom (some p) rest
      | .invalid => replacement :: decodeFrom none rest
    match begun with
    | none => fresh
    | some p =>
      if p.low ≤ b ∧ b ≤ p.high then
        let value := p.value * 0x40 + (b - 0x80)
        if p.missing = 1 then Char.ofNat value :: decodeFrom none rest
        else decodeFrom (some ⟨value, p.missing - 1, 0x80, 0xBF⟩) rest
      else replacement :: fresh

/-- Bytes as UTF-8. -/
def decodeUtf8 (bytes : List UInt8) : Text := decodeFrom none bytes

/-- A newline for every line end, be it a carriage return, a newline, or the two together. -/
def unifyNewlines : Text → Text
  | [] => []
  | c :: rest =>
    if c = '\r' then
      if rest.head? = some newline then unifyNewlines rest else newline :: unifyNewlines rest
    else c :: unifyNewlines rest

/-- The text of a file with these bytes. -/
def ofBytes (bytes : List UInt8) : Text := unifyNewlines (decodeUtf8 bytes)

end GoSurvey.Text
