import Census.Options
import Census.Text.Numeral

/-!
# The command line

A command line is read word by word. An option that takes a value finds it behind an equals sign or in
the next word, and its value is judged when the reading moves on from it. The first thing wrong, in
that order, ends the reading, and so do the two options that ask for information.
-/

namespace Census
namespace CommandLine

/-- The options that take a value. -/
inductive Flag
  | input
  | tokenFile
  | countsPath
  | summaryPath
  | service
  | retryBudget
  | deadline
  | userAgent
  | logLevel
  | logForm
deriving DecidableEq

namespace Flag

def name : Flag → String
  | input => "input"
  | tokenFile => "token-file"
  | countsPath => "counts-path"
  | summaryPath => "summary-path"
  | service => "api-base"
  | retryBudget => "retry-budget"
  | deadline => "fetch-timeout-seconds"
  | userAgent => "user-agent"
  | logLevel => "log-level"
  | logForm => "log-format"

def all : List Flag :=
  [input, tokenFile, countsPath, summaryPath, service, retryBudget, deadline, userAgent, logLevel,
    logForm]

def ofName? (name : String) : Option Flag := all.find? fun f => f.name = name

end Flag

/-- What ends the reading before there are options. -/
inductive Halt
  | help
  | version
  /-- A word that is no option, or that no option takes as its value. -/
  | unknown
  /-- An option without a value, or one that is not among its choices. -/
  | noValue
  /-- A value that is not a number in range. -/
  | notNumber
  /-- An option that was given before. -/
  | repeated
  /-- A value for an option that takes none. -/
  | unwanted
deriving DecidableEq

namespace Halt

/-- Whether something is wrong with the command line. -/
def isFault : Halt → Bool
  | help | version => false
  | _ => true

def message : Halt → String
  | help | version => ""
  | unknown => "error: unexpected argument found\n"
  | noValue => "error: invalid or missing value for an option\n"
  | notNumber => "error: invalid number for an option\n"
  | repeated => "error: an option cannot be used multiple times\n"
  | unwanted => "error: unexpected value for an option found\n"

end Halt

/-! ## Help -/

/-- What an option is for, and its default. -/
def Flag.about : Flag → String × String
  | input =>
    ("Terms file: linguist-style languages.json or one term per line", Options.standard.input)
  | tokenFile =>
    ("File holding the API token (GITHUB_TOKEN takes precedence when set)",
      Options.standard.tokenFile)
  | countsPath => ("Output file for the term -> count mapping", Options.standard.countsPath)
  | summaryPath => ("Output file for the run summary", Options.standard.summaryPath)
  | service => ("Base URL of the search API", Options.standard.service)
  | retryBudget =>
    ("Retry passes over failed terms after the primary sweep",
      toString Options.standard.retryBudget)
  | deadline => ("Per-search timeout in seconds", toString Options.standard.deadline)
  | userAgent => ("HTTP User-Agent header value", Options.standard.userAgent)
  | logLevel => ("Log level: error|warn|info|debug|trace", "info")
  | logForm => ("Log format: plain|json", "plain")

def callLine : String := "Usage: " ++ programName ++ " [OPTIONS]\n"

def Flag.help (f : Flag) : String :=
  "      --" ++ f.name ++ " <VALUE>\n          " ++ f.about.1 ++ " [default: " ++ f.about.2 ++ "]\n"

def helpText : String :=
  "Counts GitHub repositories per language within the search API quota.\n\n" ++ callLine
    ++ "\nOptions:\n" ++ String.join (Flag.all.map Flag.help)
    ++ "  -h, --help\n          Print help\n  -V, --version\n          Print version\n"

/-- What follows the message about a fault. -/
def usageText : String :=
  "\n" ++ callLine ++ "\nFor more information, try '--help'.\n"

/-- A path that names something. -/
def path (value : String) : Except Halt String := if value = "" then .error .noValue else .ok value

/-- The choice of a given name. -/
def choice {α : Type} (choices : List (String × α)) (value : String) : Except Halt α :=
  match choices.lookup value with
  | some a => .ok a
  | none => .error .noValue

def levels : List (String × Log.Level) :=
  [("error", .error), ("warn", .warn), ("info", .info), ("debug", .debug), ("trace", .trace)]

def forms : List (String × Log.Form) := [("plain", .plain), ("json", .json)]

/-- A number of passes. It may carry a minus sign, but then it has to be 0. -/
def passes (value : String) : Except Halt Nat :=
  match Numeral.int? 0 Numeral.most32 value.toList with
  | some n => .ok n.toNat
  | none => .error .notNumber

def seconds (value : String) : Except Halt Nat :=
  match Numeral.nat? Numeral.most64 value.toList with
  | some n => .ok n
  | none => .error .notNumber

/-- The options with the value of one of them put in. -/
def put (o : Options) (value : String) : Flag → Except Halt Options
  | .input => (path value).map fun v => { o with input := v }
  | .tokenFile => (path value).map fun v => { o with tokenFile := v }
  | .countsPath => (path value).map fun v => { o with countsPath := v }
  | .summaryPath => (path value).map fun v => { o with summaryPath := v }
  | .service => .ok { o with service := value }
  | .retryBudget => (passes value).map fun v => { o with retryBudget := v }
  | .deadline => (seconds value).map fun v => { o with deadline := v }
  | .userAgent => .ok { o with userAgent := value }
  | .logLevel => (choice levels value).map fun v => { o with logLevel := v }
  | .logForm => (choice forms value).map fun v => { o with logForm := v }

/-- The options so far. -/
structure Reading where
  options : Options
  /-- The options that have been put in. -/
  given : List Flag
  /-- The option that is being read, with its value if that has come. -/
  open? : Option (Flag × Option String)
deriving DecidableEq

namespace Reading

def start : Reading := { options := .standard, given := [], open? := none }

/-- Judges an option and its value. -/
def enter (r : Reading) (flag : Flag) (value : String) : Except Halt Reading :=
  if flag ∈ r.given then .error .repeated
  else
    (put r.options value flag).map fun options =>
      { options, given := flag :: r.given, open? := none }

/-- Judges the option that is being read, if there is one. -/
def settle (r : Reading) : Except Halt Reading :=
  match r.open? with
  | none => .ok r
  | some (_, none) => .error .noValue
  | some (flag, some value) => r.enter flag value

/-- Judges the option that is being read, and halts at any rate. -/
def halt (r : Reading) (h : Halt) : Except Halt Reading :=
  match r.settle with
  | .error h => .error h
  | .ok _ => .error h

end Reading

inductive Word
  /-- A name behind two dashes, and what stands behind an equals sign. -/
  | long (name : String) (value : Option String)
  /-- Letters behind one dash, of which the first one counts. -/
  | short (letter : Char)
  | plain (text : String)
deriving DecidableEq

namespace Word

/-- A name and what stands behind the first equals sign. -/
def ofLong (cs : List Char) : Word :=
  match cs.dropWhile (· ≠ '=') with
  | [] => .long (String.ofList cs) none
  | _ :: value => .long (String.ofList (cs.takeWhile (· ≠ '='))) (some (String.ofList value))

def ofText (text : String) : Word :=
  match text.toList with
  | '-' :: '-' :: cs => ofLong cs
  | '-' :: c :: _ => .short c
  | _ => .plain text

end Word

def step (r : Reading) : Word → Except Halt Reading
  | .long "help" none => r.halt .help
  | .long "version" none => r.halt .version
  | .long "help" (some _) => .error .unwanted
  | .long "version" (some _) => .error .unwanted
  | .long name value =>
    match Flag.ofName? name, value with
    | none, _ => .error .unknown
    | some flag, some value =>
      match r.settle with
      | .error h => .error h
      | .ok r => r.enter flag value
    | some flag, none =>
      match r.settle with
      | .error h => .error h
      | .ok r => .ok { r with open? := some (flag, none) }
  | .short 'h' => r.halt .help
  | .short 'V' => r.halt .version
  | .short _ => .error .unknown
  | .plain text =>
    match r.open? with
    | some (flag, none) => .ok { r with open? := some (flag, some text) }
    | _ => .error .unknown

/-- The word behind which nothing is an option any more. -/
def escape : String := "--"

/-- Reads the words that are left. -/
def read (r : Reading) : List String → Except Halt Options
  | [] => r.settle.map Reading.options
  | word :: rest =>
    if word = escape then
      if rest = [] then r.settle.map Reading.options else .error .unknown
    else
      match step r (.ofText word) with
      | .error h => .error h
      | .ok r => read r rest

def ofWords (words : List String) : Except Halt Options := read .start words

end CommandLine
end Census
