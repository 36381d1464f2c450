import Census.Http.Client
import Census.Json.Fields
import Census.Quota.Probe
import Census.Search.Query

/-!
# Probing a server

A probe is one request for the document on the limits of the service. A response that says the quota
is used up is an exhausted window whatever its body holds; a status other than success is a fault with
the start of the body; and a document is read for the window of the searches.
-/

namespace Census
namespace Quota

/-- What is looked at in the document on limits. -/
structure Document where
  remaining : Nat
  reset : Int
deriving DecidableEq

namespace Document

/-- A field that has to be there. -/
def need? (fields : Json.Fields) (name : String) (place : Nat) : Option (List Char) :=
  (fields.find? name place).bind id

/-- The window of the searches in its own document. -/
def ofSearch? (raw : List Char) : Option Document := do
  let fields ← Json.Fields.ofText? raw
  let remaining ← need? fields "remaining" 0
  let reset ← need? fields "reset" 1
  if fields.fits 2 then some { remaining := ← Json.nat64? remaining, reset := ← Json.int64? reset }
  else none

/-- The window of the searches among the resources. -/
def ofResources? (raw : List Char) : Option Document := do
  let fields ← Json.Fields.ofText? raw
  let search ← need? fields "search" 0
  if fields.fits 1 then ofSearch? search else none

/-- The window of the searches in the whole document. -/
def ofText? (body : String) : Option Document := do
  let fields ← Json.Fields.ofText? body.toList
  let resources ← need? fields "resources" 0
  if fields.fits 1 then ofResources? resources else none

end Document

/-- The most characters of a body that a fault quotes. -/
def excerptLength : Nat := 200

def excerpt (body : String) : String := String.ofList (body.toList.take excerptLength)

/-- What the body of a successful response says. -/
def windowOfBody (body : String) : ProbeAnswer :=
  match Document.ofText? body with
  | none => .error (.unreadable "not a rate-limit document")
  | some doc =>
    match Window.ofSeconds? doc.remaining doc.reset with
    | some w => .ok w
    | none => .error (.unreadable ("reset timestamp out of range: " ++ toString doc.reset))

/-- What a response says at an instant. -/
def answerOf (client : Http.Client) (received : Http.Received) (address : String) (now : Instant) :
    ProbeAnswer :=
  if isLimit received.status received.headers then .ok (.ofLimit received.headers now)
  else if ¬ Http.isSuccess received.status then
    .error (.badStatus received.status (excerpt ((client.text? received).getD "")))
  else
    match client.text? received with
    | none => .error (.unreachable (Http.Failure.brokenBody.message address))
    | some body => windowOfBody body

def probeAddress (base : String) : String := Search.baseOf base ++ "/rate_limit"

/-- The exchange of the `n`-th probe, counted from 0. -/
def probeTransfer (client : Http.Client) (server : Http.Server) (base : String) (n : Nat) :
    Http.Transfer :=
  client.get server n (Http.Url.ofText? (probeAddress base))

/-- The answer to the `n`-th probe, if it is made at an instant. -/
def probe (client : Http.Client) (server : Http.Server) (base : String) (n : Nat) : Probe :=
  fun now =>
    match (probeTransfer client server base n).result with
    | .error f => .error (.unreachable (f.message (probeAddress base)))
    | .ok received => answerOf client received (probeAddress base) now

end Quota
end Census
