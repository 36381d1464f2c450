import Census.Http.Wire
import Census.Program
import Std.Async.DNS
import Std.Async.TCP
import Std.Async.Timer

/-!
# The command line

This is the outer layer: it copies what a census needs from the file system, talks to the service, and
sleeps. What is asked for next is found by carrying out the census with the answers so far, so that no
decision is made here. Connections are plain; a service that wants a secure one counts as refusing.
-/

namespace Census
namespace Main

open Std.Async

/-! ## Time -/

def present : IO Instant := do
  return ⟨(← Std.Time.Timestamp.now).toNanosecondsSinceUnixEpoch.toInt⟩

def sleepUntil (i : Instant) : IO Unit := do
  let millis := (← present).nanosUntil i / 1000000
  IO.sleep millis.toNat.toUInt32

/-! ## The service -/

/-- The exchanges so far. -/
abbrev Known := List (Http.Request × Http.Exchange)

/-- The service as far as it is known. What is not known has no answer yet. -/
def Known.server (k : Known) : Http.Server := fun r _ => (k.lookup r).getD .silent

/-- Connects to the first of the addresses that answers. -/
def connect : List Std.Net.SocketAddress → Async (Option TCP.Socket.Client)
  | [] => return none
  | address :: rest => do
    try
      let socket ← TCP.Socket.Client.mk
      socket.connect address
      return some socket
    catch _ => connect rest

/-- The addresses of a host. -/
def addresses (url : Http.Url) : Async (List Std.Net.SocketAddress) := do
  let port := UInt16.ofNat (url.port.getD 80)
  try
    let found ← DNS.getAddrInfo url.host ""
    return found.toList.map fun
      | .v4 a => .v4 ⟨a, port⟩
      | .v6 a => .v6 ⟨a, port⟩
  catch _ => return []

/-- Collects what comes in until the connection is closed. -/
partial def receive (socket : TCP.Socket.Client) (received : ByteArray) : Async ByteArray := do
  match ← socket.recv? 65536 with
  | some more => receive socket (received ++ more)
  | none => return received

/-- Makes a request, however long it takes. -/
def converse (r : Http.Request) : Async Http.Exchange := do
  if r.url.secure then return .refused
  match ← connect (← addresses r.url) with
  | none => return .refused
  | some socket =>
    try
      socket.send r.wire.toUTF8
      return .ofBytes (← receive socket .empty).toList
    catch _ => return .dropped

/-- Makes a request and waits for its answer at most for a given time. -/
def exchange (deadline : Span) (r : Http.Request) : Async Http.Exchange :=
  (converse r).race do
    sleep (.ofNat deadline.millis)
    return .silent

/-- Makes the requests of a transfer, each of which follows from the answers before it. -/
def consult (deadline : Span) (transfer : Http.Server → Http.Transfer) :
    Nat → Known → Async Known
  | 0, known => return known
  | fuel + 1, known => do
    match (transfer known.server).requests.getLast? with
    | none => return known
    | some r =>
      if (known.lookup r).isSome then return known
      else consult deadline transfer fuel ((r, ← exchange deadline r) :: known)

def mostRequests : Nat := Http.Client.mostHops + 1

/-- What a census has learned from its service. -/
structure Learned where
  answers : List Quota.ProbeAnswer
  /-- The replies, in the order of the searches. -/
  replies : List (Term × Sweep.Reply)
  batches : Nat

/-- The service that replies as it has done so far. -/
def Learned.service (l : Learned) : Sweep.Service :=
  .inOrder fun t n => (((l.replies.filter fun r => r.1 = t)[n]?).map Prod.snd).getD ⟨none, .zero⟩

/-- A census that talks to its service. -/
structure Talk where
  client : Http.Client
  base : String
  pace : Sweep.Pace
  start : Sweep.Run
  journal : Program.Journal

def searchReply (t : Talk) (term : Term) : Async (Term × Sweep.Reply) := do
  let began ← IO.monoNanosNow
  let known ← consult t.pace.deadline
    (fun server => Search.searchTransfer t.client server t.base term 0) mostRequests []
  let took : Span := ⟨(← IO.monoNanosNow) - began⟩
  let reply := (Search.search t.client known.server t.base term 0).reply
  return (term, { reply with delay := took.shorter t.pace.deadline })

def probeAnswer (t : Talk) (now : Instant) : Async Quota.ProbeAnswer := do
  let known ← consult t.pace.deadline
    (fun server => Quota.probeTransfer t.client server t.base 0) mostRequests []
  return Quota.probe t.client known.server t.base 0 now

def batches (events : List Sweep.Event) : List (List Term) :=
  events.filterMap fun
    | .fetched batch _ => some batch
    | .probed _ _ => none

/-- Shows the notes behind the first `told` ones. -/
def tell (t : Talk) (run : Sweep.Run) (told : Nat) : IO Nat := do
  let notes := run.notes.reverse
  IO.eprint (t.journal.lines ((← present).nanos / 1000000) (notes.drop told))
  return notes.length

/-- Carries the sweeps on until nothing is left to be asked. -/
partial def carryOn (t : Talk) (l : Learned) (told : Nat) :
    IO ((Except Survey.Failure Unit × Sweep.Run) × Nat) := do
  let swept := Survey.sweeps t.pace l.service (l.answers.map Quota.Probe.giving) t.start
  let run := swept.2
  match batches run.events with
  | batch :: earlier =>
    if l.batches ≤ earlier.length then
      let replies ← (Async.concurrentlyAll (batch.toArray.map (searchReply t))).block
      return ← carryOn t { l with replies := l.replies ++ replies.toList, batches := l.batches + 1 } told
  | [] => pure ()
  let told ← tell t run told
  match swept.1 with
  | .error .unprobed =>
    sleepUntil run.now
    let answer ← (probeAnswer t run.now).block
    carryOn t { l with answers := l.answers ++ [answer] } told
  | _ => return (swept, told)

/-! ## Files -/

/-- Copies what lies on the way to a path. -/
def copyPath (disk : Disk) (path : String) : IO Disk := do
  let absolute := path.startsWith "/"
  let here ← IO.currentDir
  let mut disk := disk
  let mut place := if absolute then [] else disk.workingDirectory
  let mut walked := if absolute then "/" else "."
  for name in (Disk.namesOf path).filter (· ≠ "") do
    walked := walked ++ "/" ++ name
    place := if name = ".." then place.dropLast else if name = "." then place else place ++ [name]
    if place ≠ [] then
      if ← (here / walked).isDir then
        disk := disk.put place .directory
      else if ← (here / walked).pathExists then
        disk := disk.put place (.file (← IO.FS.readBinFile walked).toList)
  return disk

/-- Copies what lies on the way to each of the paths. -/
def copyPaths (paths : List String) : IO Disk := do
  let place := (Disk.namesOf (← IO.currentDir).toString).filter (· ≠ "")
  paths.foldlM copyPath (.empty place)

/-- Writes a file that the census has written. -/
def keep (before after : Disk) (path : String) : IO Unit := do
  match after.read path with
  | .ok content =>
    if before.read path |>.toOption |>.any (· = content) then return ()
    IO.FS.writeBinFile path ⟨content.toArray⟩
  | .error _ => return ()

/-! ## The program -/

/-- The variables that the program looks at. -/
def variableNames : List String :=
  [Credential.variableName, Program.filterVariable, Program.colorVariable]

def readEnvironment : IO Environment := do
  let values ← variableNames.filterMapM fun name => return (← IO.getEnv name).map fun v => (name, v)
  return { values }

/-- The paths at which a settings file may lie. -/
def settingsPaths (here home : String) : List String :=
  let place := (Disk.namesOf here).filter (· ≠ "")
  ((List.range (place.length + 1)).map fun n =>
    String.join ((place.take n ++ [Environment.fileName]).map ("/" ++ ·)))
  ++ [home ++ "/" ++ Environment.fileName]

/-- Shows how a census ended, keeps its files, and gives the status. -/
def close (o : Options) (before : Disk) (log : String) (course : Survey.Course) : IO UInt32 := do
  let finish := Program.ended course.result log course.disk course.requests
  keep before course.disk o.countsPath
  keep before course.disk o.summaryPath
  IO.eprint finish.errors
  IO.print finish.output
  return finish.status.toUInt32

/-- Bodies are read as UTF-8, whatever their headers say, and a byte order mark is dropped. -/
def decode : Http.Decoder := fun _ body =>
  match body with
  | 0xEF :: 0xBB :: 0xBF :: rest => Text.lenient rest
  | body => Text.lenient body

def survey (o : Options) (e : Environment) : IO UInt32 := do
  let journal := Program.Journal.make o.logLevel o.logForm e
  IO.eprint (String.join journal.warnings)
  let disk ← copyPaths [o.input, o.tokenFile, o.countsPath, o.summaryPath]
  let began ← present
  let stamp := began.nanos / 1000000
  match Survey.prepare o decode disk (e.value? Credential.variableName) with
  | .error (f, notes) => close o disk (journal.lines stamp notes) (.early f disk notes)
  | .ok p =>
    let t : Talk :=
      { client := p.client, base := o.base, pace := .ofDeadline o.span, start := p.run o began,
        journal }
    let (swept, told) ← carryOn t { answers := [], replies := [], batches := 0 } 0
    let course := Survey.conclude o disk swept []
    let stamp := (← present).nanos / 1000000
    close o disk (journal.lines stamp (course.notes.drop told)) course

def run (words : List String) : IO UInt32 := do
  match CommandLine.ofWords words with
  | .error h =>
    let finish := Program.halted h (.empty [])
    IO.eprint finish.errors
    IO.print finish.output
    return finish.status.toUInt32
  | .ok o =>
    let here := (← IO.currentDir).toString
    let home := ((← IO.appPath).parent.map toString).getD here
    let e := (← readEnvironment).load (← copyPaths (settingsPaths here home)) home
    survey o e

end Main
end Census

def main (words : List String) : IO UInt32 := Census.Main.run words
