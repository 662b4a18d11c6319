/-
Command-line arguments. The words after a command are options and
positional arguments in any order; the options are those that the
command declares.

An option may be shortened as long as it stays the only one that begins
like that; its value follows as the next word, after an equals sign, or,
for an option of one letter, directly. A word that begins with a hyphen
is positional if it is a negative number or has a space in it.
-/
import GoSurvey.Text.Digit

namespace GoSurvey.Cli

open Text

/-- What stands after an option. -/
inductive ValueKind where
  /-- Nothing. -/
  | flag
  /-- Any text. -/
  | text
  /-- A whole number. -/
  | number
  deriving DecidableEq, Repr

/-- An option as a command declares it. -/
structure OptionSpec where
  name : Text
  kind : ValueKind
  deriving DecidableEq, Repr

/-- A positional argument as a command declares it. -/
structure PositionalSpec where
  name : Text
  kind : ValueKind
  required : Bool
  deriving DecidableEq, Repr

/-- What a command takes. -/
structure Signature where
  positionals : List PositionalSpec
  options : List OptionSpec
  deriving DecidableEq, Repr

/-- The positional arguments, and the options with their values, in the order of the words. -/
structure Arguments where
  positionals : List Text := []
  options : List (Text × Text) := []
  deriving DecidableEq, Repr

/-- Why there are no arguments. -/
inductive Refusal where
  /-- Help is asked for. -/
  | help
  /-- The words do not fit the command. -/
  | unusable
  deriving DecidableEq, Repr

/-- What asks for help in full. -/
def helpOption : OptionSpec := ⟨"--help", .flag⟩

/-- What asks for help in short. -/
def shortHelpOption : OptionSpec := ⟨"-h", .flag⟩

/-- Whether a word is a negative number, with or without a fraction. -/
def isNegativeNumber : Text → Bool
  | '-' :: rest =>
    let whole := rest.takeWhile isDigit
    match rest.dropWhile isDigit with
    | [] => !whole.isEmpty
    | '.' :: fraction => !fraction.isEmpty && fraction.all isDigit
    | _ => false
  | _ => false

/-- What a word is. -/
inductive WordKind where
  | positional
  /-- An option, with the value that is written together with it. -/
  | option (spec : OptionSpec) (attached : Option Text)
  /-- Begins like an option, but is none, or several. -/
  | unknown
  deriving DecidableEq, Repr

/-- The options that a word with a hyphen at its start may be short for. -/
def candidates (options : List OptionSpec) (word : Text) : List WordKind :=
  if startsWith "--" word then
    let (name, attached) :=
      match cut? "=" word with
      | some (name, value) => (name, some value)
      | none => (word, none)
    (options.filter fun o => startsWith name o.name).map fun o => .option o attached
  else
    options.filterMap fun o =>
      if o.name = word.take 2 then some (.option o (some (word.drop 2)))
      else if startsWith word o.name then some (.option o none)
      else none

/-- What a word is, given the options there are. -/
def wordKind (options : List OptionSpec) (word : Text) : WordKind :=
  if !startsWith "-" word then .positional
  else
    match options.find? (·.name == word) with
    | some o => .option o none
    | none =>
      if word.length = 1 then .positional
      else
        let whole :=
          (cut? "=" word).bind fun (name, value) =>
            (options.find? (·.name == name)).map fun o => WordKind.option o (some value)
        match whole with
        | some kind => kind
        | none =>
          match candidates options word with
          | [kind] => kind
          | _ :: _ :: _ => .unknown
          | [] => if isNegativeNumber word || List.elem ' ' word then .positional else .unknown

/-- Adds a positional argument. -/
def Arguments.addPositional (a : Arguments) (word : Text) : Arguments :=
  { a with positionals := word :: a.positionals }

/-- Adds an option with its value. -/
def Arguments.addOption (a : Arguments) (o : OptionSpec) (value : Text) : Arguments :=
  { a with options := (o.name, value) :: a.options }

/-- The words after which all others are positional. -/
def separator : Text := "--"

/-- Sorts words into options and positional arguments. `waiting` is an option whose value has to
come next. -/
def sortWords (options : List OptionSpec) :
    (waiting : Option OptionSpec) → List Text → Except Refusal Arguments
  | some _, [] => .error .unusable
  | none, [] => .ok {}
  | some o, word :: rest =>
    if word ≠ separator ∧ wordKind options word = .positional then
      (sortWords options none rest).map (·.addOption o word)
    else .error .unusable
  | none, word :: rest =>
    if word = separator then .ok { positionals := rest }
    else
      match wordKind options word with
      | .positional => (sortWords options none rest).map (·.addPositional word)
      | .unknown => .error .unusable
      | .option o attached =>
        if o = helpOption ∨ o = shortHelpOption then
          if attached.isNone then .error .help else .error .unusable
        else
          match o.kind, attached with
          | .flag, none =>
            (sortWords options none rest).map (·.addOption o [])
          | .flag, some _ => .error .unusable
          | _, none => sortWords options (some o) rest
          | _, some value =>
            (sortWords options none rest).map (·.addOption o value)

/-- Whether a text is a value of a kind. -/
def ValueKind.admits : ValueKind → Text → Bool
  | .number, t => (toInt? t).isSome
  | _, _ => true

/-- Whether the positional arguments are those that are declared. -/
def fits : List PositionalSpec → List Text → Bool
  | [], words => words.isEmpty
  | spec :: specs, [] => !spec.required && fits specs []
  | spec :: specs, word :: rest => spec.kind.admits word && fits specs rest

/-- The arguments in the words after a command. -/
def Signature.parse (s : Signature) (words : List Text) : Except Refusal Arguments := do
  let options := shortHelpOption :: helpOption :: s.options
  let a ← sortWords options none words
  let admitted := a.options.all fun (name, value) =>
    (options.filter (·.name == name)).all fun o => o.kind.admits value
  if fits s.positionals a.positionals && admitted then .ok a else .error .unusable

namespace Arguments

/-- Whether a flag is set. -/
def isSet (a : Arguments) (name : Text) : Bool := a.options.any (·.1 == name)

/-- The value of an option; if the option is repeated, its last value. -/
def value? (a : Arguments) (name : Text) : Option Text := a.options.reverse.lookup name

/-- The text after an option, or else a default. -/
def textOf (a : Arguments) (name default : Text) : Text := (a.value? name).getD default

/-- The number after an option, or else a default. -/
def numberOf (a : Arguments) (name : Text) (default : Int) : Int :=
  ((a.value? name).bind toInt?).getD default

/-- The positional argument at a place, or else a default. -/
def positional (a : Arguments) (index : Nat) (default : Text) : Text :=
  a.positionals[index]?.getD default

/-- The number in a positional argument. -/
def positionalNumber (a : Arguments) (index : Nat) : Int :=
  ((a.positionals[index]?).bind toInt?).getD 0

end Arguments
end GoSurvey.Cli
