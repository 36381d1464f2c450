import Census.CommandLine
import Census.Environment.Settings
import Census.Log.Filter
import Census.Survey

/-!
# The program

The program reads the settings file and the command line, sets up its log, carries out a census, and
says how it went. Findings go to the standard output; the log and failures go to the standard error.
-/

namespace Census
namespace Program

/-! ## The log -/

/-- The variable that holds a specification of what is logged, and the one that tells whether the log
has colors. -/
def filterVariable : String := "RUST_LOG"

def colorVariable : String := "RUST_LOG_STYLE"

/-- What is logged and how. -/
structure Journal where
  filter : Log.Filter
  form : Log.Form
  /-- Whether control sequences are kept. -/
  colors : Bool
  warnings : List String
deriving DecidableEq

namespace Journal

/-- Targets that have more to say than is of use. -/
def quiet : List String := ["reqwest", "hyper", "hyper_util"]

/-- The journal for a level and a form. The level counts for everything that no rule of the
specification is about, and for the census whatever the specification says. -/
def make (level : Log.Level) (form : Log.Form) (e : Environment) : Journal :=
  let spec := e.value? filterVariable
  let filter := match spec with
    | some spec => Log.Filter.ofSpec spec.toList
    | none => .empty
  let filter := filter.add { name := none, threshold := some level }
  let filter := quiet.foldl (fun f name => f.add { name := some name, threshold := some .info }) filter
  { filter := filter.add { name := some programName, threshold := some level }
    form
    colors := e.value? colorVariable = some "always"
    warnings := match spec with
      | some spec => Log.Filter.warnings spec.toList
      | none => [] }

/-- How a line is shown. -/
def shown (j : Journal) (line : String) : String :=
  if j.colors then line else Text.Terminal.shown line

/-- The notes that are shown, stamped with one time. -/
def lines (j : Journal) (stamp : Int) (notes : List Log.Note) : String :=
  String.join ((notes.filter j.filter.shows).map fun n => j.shown (n.line j.form stamp))

/-- A whole log: the warnings, and the notes that are shown. -/
def text (j : Journal) (stamp : Int) (notes : List Log.Note) : String :=
  String.join j.warnings ++ j.lines stamp notes

/-- What is said when a second journal is opened. -/
def secondMessage : String :=
  "Logger initialization error: attempted to set a logger after the logging system was already "
    ++ "initialized"

end Journal

/-! ## What is said at the end -/

def findingsText (f : Survey.Findings) : String :=
  let s := f.summary
  let unused := ", " ++ toString s.retriesLeft ++ " retr" ++ Ledger.plural s.retriesLeft "y" "ies"
    ++ " unused"
  let lines :=
    [Report.outcomeText s.resolved s.targeted s.failed unused f.elapsed.inSeconds,
      "Counts saved in " ++ f.countsPath, "Summary saved in " ++ f.summaryPath]
    ++ (if s.incomplete = [] then []
        else ["Counted from incomplete results: " ++ String.intercalate ", " s.incomplete])
    ++ (if s.unresolved = [] then []
        else "Unresolved terms:" :: s.unresolved.map fun t => "  " ++ t)
  String.join (lines.map (· ++ "\n"))

def failureText (f : Survey.Failure) : String := programName ++ " error: " ++ f.message ++ "\n"

def versionText : String := programName ++ " " ++ programVersion ++ "\n"

/-! ## A run -/

/-- What a run of the program starts from. -/
structure Start where
  words : List String
  environment : Environment
  disk : Disk
  /-- The directory in which the program lies. -/
  home : String
  server : Http.Server
  /-- How bodies are made text of. -/
  decode : Http.Decoder
  began : Instant
  /-- How many times the service can be probed. -/
  probes : Nat

/-- What a run of the program leaves behind. -/
structure Finish where
  status : Nat
  output : String
  errors : String
  disk : Disk
  requests : List (List Http.Request)

/-- A run that the command line ended. -/
def halted (h : CommandLine.Halt) (disk : Disk) : Finish where
  status := if h.isFault then 2 else 0
  output := match h with
    | .help => CommandLine.helpText
    | .version => versionText
    | _ => ""
  errors := if h.isFault then h.message ++ CommandLine.usageText else ""
  disk := disk
  requests := []

/-- How a census ends, with the text of its log. -/
def ended (result : Except Survey.Failure Survey.Findings) (log : String) (disk : Disk)
    (requests : List (List Http.Request)) : Finish :=
  match result with
  | .ok f => { status := 0, output := findingsText f, errors := log, disk, requests }
  | .error f => { status := f.status, output := "", errors := log ++ failureText f, disk, requests }

def survey (o : Options) (e : Environment) (s : Start) : Finish :=
  let course := Survey.carryOut o
    { disk := s.disk, token := e.value? Credential.variableName, server := s.server,
      decode := s.decode, began := s.began, probes := s.probes }
  let journal := Journal.make o.logLevel o.logForm e
  ended course.result (journal.text (s.began.nanos / 1000000) course.notes) course.disk course.requests

/-- Runs the program. -/
def run (s : Start) : Finish :=
  match CommandLine.ofWords s.words with
  | .error h => halted h s.disk
  | .ok o => survey o (s.environment.load s.disk s.home) s

end Program
end Census
