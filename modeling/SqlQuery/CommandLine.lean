import SqlQuery.Dialect
import SqlQuery.Node.Document
import SqlQuery.Node.Outline
import SqlQuery.Node.Render

/-!
# The command line

A run of the program as a function: from the arguments, the environment and
the standard input to what is printed and the exit code.

Arguments are read from left to right, and the first fault ends the reading.
An option takes its value from the rest of its argument or from the argument
after it, provided that one is no option itself; options of one letter may
share an argument.  No option may be given twice.  After `--` every argument
is the query.

## Main definitions

* `CommandLine.read` — the reading of the arguments.
* `CommandLine.run` — the outcome of a run.
-/

namespace SqlQuery

/-- The form in which a tree is printed. -/
inductive Format where
  | sql | tree | json
deriving DecidableEq, Repr

/-- The format with a given name. -/
def Format.ofName? : String → Option Format
  | "sql" => some .sql
  | "tree" => some .tree
  | "json" => some .json
  | _ => none

/-- A text without the blanks at its end. -/
def trimEnd (s : String) : String :=
  String.ofList (s.toList.reverse.dropWhile Text.isBlank).reverse

/-- The printed form of a tree. -/
def Format.print (format : Format) (node : Node) : String :=
  match format with
  | .sql => node.render
  | .tree => trimEnd node.outline
  | .json => node.toJson.pretty

namespace CommandLine

/-- The options of the program. -/
inductive Flag where
  | dialect | format | verbose | version | help
deriving DecidableEq, Repr

namespace Flag

def ofLetter? : Char → Option Flag
  | 'd' => some .dialect
  | 'f' => some .format
  | 'v' => some .verbose
  | 'V' => some .version
  | 'h' => some .help
  | _ => none

def ofWord? : String → Option Flag
  | "dialect" => some .dialect
  | "format" => some .format
  | "verbose" => some .verbose
  | "version" => some .version
  | "help" => some .help
  | _ => none

/-- Whether the option has a value. -/
def takesValue : Flag → Bool
  | .dialect | .format => true
  | .verbose | .version | .help => false

end Flag

/-- What the arguments ask for. -/
structure Settings where
  dialect : Option Dialect := none
  format : Option Format := none
  verbose : Bool := false
  query : Option String := none

/-- Why the reading of the arguments ends early. -/
inductive Stop where
  /-- The arguments are wrong. -/
  | usage
  /-- The version is asked for. -/
  | version
  /-- An explanation is asked for. -/
  | help
deriving DecidableEq, Repr

/-- Takes note of an option that has no value. -/
def Settings.raise (settings : Settings) : Flag → Except Stop Settings
  | .verbose => if settings.verbose then .error .usage else .ok { settings with verbose := true }
  | .version => .error .version
  | .help => .error .help
  | .dialect | .format => .error .usage

/-- Takes note of an option and its value. -/
def Settings.assign (settings : Settings) (flag : Flag) (value : String) :
    Except Stop Settings :=
  match flag with
  | .dialect =>
    match settings.dialect, Dialect.ofName value with
    | none, .ok dialect => .ok { settings with dialect := some dialect }
    | _, _ => .error .usage
  | .format =>
    match settings.format, Format.ofName? value with
    | none, some format => .ok { settings with format := some format }
    | _, _ => .error .usage
  | .verbose | .version | .help => .error .usage

/-- Takes note of an argument that is no option. -/
def Settings.addQuery (settings : Settings) (text : String) : Except Stop Settings :=
  match settings.query with
  | none => .ok { settings with query := some text }
  | some _ => .error .usage

/-- Options of one letter in one argument.  The first that takes a value takes
the letters after it, less an equals sign in front; if there are none, it is
left open. -/
def readLetters (settings : Settings) : List Char → Except Stop (Settings × Option Flag)
  | [] => .ok (settings, none)
  | c :: cs =>
    match Flag.ofLetter? c with
    | none => .error .usage
    | some flag =>
      if flag.takesValue then
        match cs with
        | [] => .ok (settings, some flag)
        | '=' :: value => (settings.assign flag (String.ofList value)).map (·, none)
        | value => (settings.assign flag (String.ofList value)).map (·, none)
      else
        match settings.raise flag with
        | .ok settings => readLetters settings cs
        | .error stop => .error stop

/-- A long option, with a value after an equals sign if there is one. -/
def readWord (settings : Settings) (cs : List Char) : Except Stop (Settings × Option Flag) :=
  let name := String.ofList (cs.takeWhile (· != '='))
  match Flag.ofWord? name, cs.dropWhile (· != '=') with
  | none, _ => .error .usage
  | some flag, [] =>
    if flag.takesValue then .ok (settings, some flag)
    else (settings.raise flag).map (·, none)
  | some flag, _ :: value => (settings.assign flag (String.ofList value)).map (·, none)

/-- Reads the remaining arguments.  `pending` is an option whose value must be
the next argument. -/
def readFrom (settings : Settings) (pending : Option Flag) :
    List String → Except Stop Settings
  | [] => if pending.isSome then .error .usage else .ok settings
  | arg :: args =>
    match arg.toList, pending with
    | ['-', '-'], some _ => .error .usage
    | ['-', '-'], none => args.foldlM Settings.addQuery settings
    | '-' :: _ :: _, some _ => .error .usage
    | '-' :: '-' :: word, none =>
      match readWord settings word with
      | .ok (settings, pending) => readFrom settings pending args
      | .error stop => .error stop
    | '-' :: c :: letters, none =>
      match readLetters settings (c :: letters) with
      | .ok (settings, pending) => readFrom settings pending args
      | .error stop => .error stop
    | _, some flag =>
      match settings.assign flag arg with
      | .ok settings => readFrom settings none args
      | .error stop => .error stop
    | _, none =>
      match settings.addQuery arg with
      | .ok settings => readFrom settings none args
      | .error stop => .error stop

/-- The dialect: the one asked for, else that of the environment, else the
generic one. -/
def chooseDialect (asked : Option Dialect) (environment : Option String) :
    Except Stop Dialect :=
  match asked, environment with
  | some dialect, _ => .ok dialect
  | none, some name => (Dialect.ofName name).mapError fun _ => .usage
  | none, none => .ok .generic

/-- A run's task: a query, or none if it is to come from the standard input,
with the dialect to read it in and the format to print it in. -/
structure Task where
  dialect : Dialect
  format : Format
  query : Option String

/-- The task that the arguments and the environment ask for. -/
def read (args : List String) (environment : Option String) : Except Stop Task := do
  let settings ← readFrom {} none args
  let dialect ← chooseDialect settings.dialect environment
  return { dialect := dialect, format := settings.format.getD .sql, query := settings.query }

/-- What a run leaves behind. -/
structure Outcome where
  exitCode : Nat
  output : String := ""
  errors : String := ""
deriving DecidableEq, Repr

/-- The name and version of the program. -/
def versionText : String := "quill-sql 0.1.0\n"

/-- A short account of the arguments. -/
def usageText : String :=
  "Usage: quill-sql [OPTIONS] [QUERY]\n\n" ++
  "Options:\n" ++
  "  -d, --dialect <DIALECT>  generic or mysql\n" ++
  "  -f, --format <FORMAT>    sql, tree or json\n" ++
  "  -v, --verbose\n" ++
  "  -h, --help\n" ++
  "  -V, --version\n"

/-- The outcome of a task for a given query. -/
def Task.perform (task : Task) (query : String) : Outcome :=
  match parse query task.dialect with
  | .ok node => { exitCode := 0, output := task.format.print node ++ "\n" }
  | .error e =>
    { exitCode := 1
      errors := "Error: failed to parse query as " ++ task.dialect.name ++
        "\n\nCaused by:\n    " ++ e.message ++ "\n" }

/-- The outcome when the reading of the arguments ended early. -/
def Stop.outcome : Stop → Outcome
  | .usage => { exitCode := 2, errors := usageText }
  | .version => { exitCode := 0, output := versionText }
  | .help => { exitCode := 0, output := usageText }

/-- A run with the given arguments, environment and standard input. -/
def run (args : List String) (environment : Option String) (input : String) : Outcome :=
  match read args environment with
  | .error stop => stop.outcome
  | .ok task => task.perform (task.query.getD input)

end CommandLine

end SqlQuery
