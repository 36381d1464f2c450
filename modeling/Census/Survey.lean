import Census.Survey.Failure
import Census.Survey.Traffic

/-!
# A whole census

A census looks at its options, loads the token and the terms, sets up its client, sweeps, and writes
the two result files. Nothing is asked of the service before everything is loaded, and no file is
written before both sweeps have come to an end.
-/

namespace Census
namespace Survey

/-- Where a census takes place. -/
structure Setting where
  disk : Disk
  /-- What the environment holds as a token. -/
  token : Option String
  server : Http.Server
  /-- How bodies are made text of. -/
  decode : Http.Decoder
  began : Instant
  /-- How many times the service can be probed. -/
  probes : Nat

/-- What a census found out. -/
structure Findings where
  summary : Report.Summary
  elapsed : Span
  countsPath : String
  summaryPath : String
deriving DecidableEq

/-- What became of a census: its result, the disk after it, what was logged, and the requests that
the server got, all of it in the order in which it happened. -/
structure Course where
  result : Except Failure Findings
  disk : Disk
  notes : List Log.Note
  requests : List (List Http.Request)

/-- A census that ended before it made a request. -/
def Course.early (failure : Failure) (disk : Disk) (notes : List Log.Note) : Course :=
  { result := .error failure, disk, notes, requests := [] }

/-- What a census has when it turns to the service: a client, the terms, and what was logged. -/
structure Prepared where
  client : Http.Client
  terms : List Term
  notes : List Log.Note

/-- The census up to the first request. A failure comes with what was logged before it. -/
def prepare (o : Options) (decode : Http.Decoder) (disk : Disk) (token : Option String) :
    Except (Failure × List Log.Note) Prepared :=
  match o.fault? with
  | some f => .error (.options f, [])
  | none =>
    match Credential.load disk o.tokenFile token with
    | .error f => .error (.credential f o.tokenFile, [])
    | .ok (token, source) =>
      let loaded := [Credential.noteSource source o.tokenFile]
      match Terms.load disk o.input with
      | .error f => .error (.terms f o.input, loaded)
      | .ok terms =>
        let loaded := loaded ++ [Terms.noteLoaded terms.length o.input]
        match Http.Client.make decode token o.userAgent with
        | .error f => .error (.client f, loaded)
        | .ok client => .ok { client, terms, notes := loaded }

def noteStart (o : Options) (l : Ledger) : Log.Note :=
  ⟨.info, Log.target "run", "Starting census of " ++ toString l.worklist.length ++ " terms against "
    ++ o.base ++ " (retry budget " ++ toString o.retryBudget ++ ")"⟩

/-- The run that a census begins with. -/
def Prepared.run (p : Prepared) (o : Options) (began : Instant) : Sweep.Run :=
  let start := Sweep.Run.start (.start p.terms o.retryBudget) began
  start.say (p.notes ++ [noteStart o start.ledger])

/-- Both sweeps, the second one only after the first has come to an end. -/
def sweeps (pace : Sweep.Pace) (service : Sweep.Service) (probes : List Quota.Probe)
    (run : Sweep.Run) : Except Failure Unit × Sweep.Run :=
  let first := Sweep.primary pace service probes run
  match first.ending with
  | .stopped f => (.error (.sweep .primary f), first.run)
  | .overflowed => (.error .overflowed, first.run)
  | .unprobed => (.error .unprobed, first.run)
  | .complete =>
    let second := Sweep.retry pace service first.rest first.run
    match second.ending with
    | .stopped f => (.error (.sweep .retry f), second.run)
    | .overflowed => (.error .overflowed, second.run)
    | .unprobed => (.error .unprobed, second.run)
    | .complete => (.ok (), second.run)

/-- Writes the result files of a run: the findings, the disk, and what was logged. -/
def finish (o : Options) (disk : Disk) (run : Sweep.Run) :
    Except Report.Fault Findings × Disk × List Log.Note :=
  let summary := Report.Summary.ofLedger run.ledger run.began run.elapsed
  let searched := [Report.noteSearches run.ledger run.elapsed]
  match Report.writeCounts disk o.countsPath run.ledger with
  | .error f => (.error f, disk, searched)
  | .ok (disk, written) =>
    let counted := searched ++ [Report.noteCounts written o.countsPath]
    match Report.writeSummary disk o.summaryPath summary with
    | .error f => (.error f, disk, counted)
    | .ok disk =>
      (.ok { summary, elapsed := run.elapsed, countsPath := o.countsPath,
             summaryPath := o.summaryPath },
        disk,
        counted ++ [Report.noteSummary o.summaryPath] ++ run.ledger.tally.notes
          ++ [Report.noteOutcome summary.targeted summary.resolved summary.failed
                run.elapsed.inSeconds])

/-- What becomes of a census after its sweeps. -/
def conclude (o : Options) (disk : Disk) (swept : Except Failure Unit × Sweep.Run)
    (requests : List (List Http.Request)) : Course :=
  let notes := swept.2.notes.reverse
  match swept.1 with
  | .error f => { result := .error f, disk, notes, requests }
  | .ok () =>
    match finish o disk swept.2 with
    | (result, disk, more) =>
      { result := result.mapError .report, disk, notes := notes ++ more, requests }

def carryOut (o : Options) (s : Setting) : Course :=
  match prepare o s.decode s.disk s.token with
  | .error (f, notes) => .early f s.disk notes
  | .ok p =>
    let swept :=
      sweeps (.ofDeadline o.span) (Search.service p.client s.server o.base)
        (probes p.client s.server o.base s.probes) (p.run o s.began)
    conclude o s.disk swept (requests p.client s.server o.base swept.2.events.reverse)

end Survey
end Census
