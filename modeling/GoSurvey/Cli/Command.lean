/-
The commands and what each of them takes.
-/
import GoSurvey.Cli.Argument

namespace GoSurvey.Cli

open Text

/-- Where a command looks, and how it answers. -/
structure Scope where
  path : Text
  includeVendor : Bool
  ignoreFile : Bool
  json : Bool
  deriving DecidableEq, Repr

/-- A command with its arguments. -/
inductive Command where
  | structure (file path : Text) (json : Bool)
  | project (scope : Scope)
  | duplicates (scope : Scope)
  | definition (file : Text) (line column : Int) (json : Bool)
  | symbol (name : Text) (scope : Scope)
  | usages (name : Text) (scope : Scope)
  | callGraph (scope : Scope)
  | patterns (count : Int) (scope : Scope)
  | callPath (source target : Text) (scope : Scope)
  | bottlenecks (count : Int) (scope : Scope)
  | reachable (function : Text) (depth : Int) (scope : Scope)
  | routes (scope : Scope)
  | trace (id : Text) (scope : Scope)
  | resolve (input path : Text)
  | mainFlow (scope : Scope)
  /-- Serves the analyses as tools. -/
  | serve
  /-- Serves the analyses over the web. -/
  | api (path : Text)
  deriving DecidableEq, Repr

/-- The directory that is looked at where none is given. -/
def here : Text := "."

/-- A required positional argument. -/
def argument (name : Text) : PositionalSpec := ⟨name, .text, true⟩

/-- A required positional argument that is a whole number. -/
def number (name : Text) : PositionalSpec := ⟨name, .number, true⟩

/-- The directory of a project as a positional argument. -/
def pathArgument : PositionalSpec := ⟨"path", .text, false⟩

/-- The directory of a project as an option. -/
def pathOption : OptionSpec := ⟨"--path", .text⟩

/-- The option for JSON. -/
def jsonOption : OptionSpec := ⟨"--json", .flag⟩

/-- The options of every command about a project. -/
def projectOptions : List OptionSpec :=
  [⟨"--include-vendor", .flag⟩, ⟨"--gitignore", .flag⟩, jsonOption]

/-- The number of results. -/
def countOption : OptionSpec := ⟨"-n", .number⟩

/-- The scope in arguments, given the path. -/
def scopeAt (a : Arguments) (path : Text) : Scope :=
  ⟨path, a.isSet "--include-vendor", a.isSet "--gitignore", a.isSet "--json"⟩

/-- The scope of a command whose only positional argument is the path. -/
def scopeOf (a : Arguments) : Scope := scopeAt a (a.positional 0 here)

/-- The scope of a command with the path as an option. -/
def scopeWithOption (a : Arguments) : Scope := scopeAt a (a.textOf "--path" here)

/-- A command as it is declared: its name, what it takes, and what the arguments mean. -/
structure CommandSpec where
  name : Text
  signature : Signature
  build : Arguments → Command

/-- A command about a project, with further options. -/
def aboutProject (name : Text) (options : List OptionSpec) (build : Arguments → Command) :
    CommandSpec :=
  ⟨name, ⟨[pathArgument], projectOptions ++ options⟩, build⟩

/-- A command about something in a project, with further options. -/
def withinProject (name : Text) (positionals : List PositionalSpec) (options : List OptionSpec)
    (build : Arguments → Command) : CommandSpec :=
  ⟨name, ⟨positionals, options ++ pathOption :: projectOptions⟩, build⟩

/-- How many results are listed where no number is given. -/
def defaultCount : Int := 10

/-- How far calls are followed where no depth is given. -/
def defaultDepth : Int := 3

/-- The commands. -/
def commands : List CommandSpec :=
  [⟨"structure", ⟨[argument "file"], [pathOption, jsonOption]⟩, fun a =>
      .structure (a.positional 0 []) (a.textOf "--path" here) (a.isSet "--json")⟩,
   aboutProject "project" [] fun a => .project (scopeOf a),
   aboutProject "duplicates" [] fun a => .duplicates (scopeOf a),
   ⟨"definition", ⟨[argument "file", number "line", number "column"], [jsonOption]⟩, fun a =>
      .definition (a.positional 0 []) (a.positionalNumber 1) (a.positionalNumber 2)
        (a.isSet "--json")⟩,
   withinProject "symbol" [argument "name"] [] fun a =>
      .symbol (a.positional 0 []) (scopeWithOption a),
   withinProject "usages" [argument "name"] [] fun a =>
      .usages (a.positional 0 []) (scopeWithOption a),
   aboutProject "callgraph" [] fun a => .callGraph (scopeOf a),
   aboutProject "patterns" [countOption] fun a =>
      .patterns (a.numberOf "-n" defaultCount) (scopeOf a),
   withinProject "call-path" [argument "from_function", argument "to_function"] [] fun a =>
      .callPath (a.positional 0 []) (a.positional 1 []) (scopeWithOption a),
   aboutProject "bottlenecks" [countOption] fun a =>
      .bottlenecks (a.numberOf "-n" defaultCount) (scopeOf a),
   withinProject "reachable" [argument "function"] [⟨"--depth", .number⟩] fun a =>
      .reachable (a.positional 0 []) (a.numberOf "--depth" defaultDepth) (scopeWithOption a),
   aboutProject "routes" [] fun a => .routes (scopeOf a),
   withinProject "trace" [argument "route_id"] [] fun a =>
      .trace (a.positional 0 []) (scopeWithOption a),
   ⟨"resolve", ⟨[argument "input"], [pathOption]⟩, fun a =>
      .resolve (a.positional 0 []) (a.textOf "--path" here)⟩,
   aboutProject "main-flow" [] fun a => .mainFlow (scopeOf a),
   ⟨"serve", ⟨[], [⟨"--http", .flag⟩, ⟨"--port", .number⟩]⟩, fun _ => .serve⟩,
   aboutProject "api" [⟨"--port", .number⟩, ⟨"--open", .flag⟩] fun a =>
      .api (a.positional 0 here)]

/-- The options before the command, which only make the program say more. -/
def globalOptions : List OptionSpec := [⟨"-v", .flag⟩, ⟨"--verbose", .flag⟩]

/-- Whether a word is the short form of a global option, perhaps repeated. -/
def isRepeatedShort (word : Text) : Bool :=
  match word with
  | '-' :: letters => !letters.isEmpty && letters.all (· == 'v')
  | _ => false

/-- The command that words name. -/
def parse : List Text → Except Refusal Command
  | [] => .error .unusable
  | word :: rest =>
    if isRepeatedShort word then parse rest
    else
      match wordKind (shortHelpOption :: helpOption :: globalOptions) word with
      | .option o none => if globalOptions.contains o then parse rest else .error .help
      | .option _ (some _) => .error .unusable
      | .unknown => .error .unusable
      | .positional =>
        match commands.find? (·.name == word) with
        | none => .error .unusable
        | some spec => (spec.signature.parse rest).map spec.build

end GoSurvey.Cli
