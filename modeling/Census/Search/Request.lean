import Census.Http.Client
import Census.Search.Judgement
import Census.Search.Query
import Census.Sweep.Service

/-!
# Searching with a server

The search for a term is one request, and its outcome is the judgement on the response. Where no
complete response arrives the search has failed.
-/

namespace Census
namespace Search

/-- What came of one search: the requests that the server got, and the outcome or the failure. -/
structure Searched where
  requests : List Http.Request
  result : Except Http.Failure Outcome

namespace Searched

/-- The outcome that counts: a failed exchange is a failure for another reason. -/
def outcome (s : Searched) : Outcome :=
  match s.result with
  | .ok o => o
  | .error _ => .failed .other

/-- The reply in a sweep. An exchange that times out is waited for to the end. -/
def reply (s : Searched) : Sweep.Reply :=
  match s.result with
  | .error .timeOut => ⟨none, .zero⟩
  | _ => .now s.outcome

end Searched

/-- The exchange of a search for a term that was searched for `n` times before. -/
def searchTransfer (client : Http.Client) (server : Http.Server) (base : String) (t : Term)
    (n : Nat) : Http.Transfer :=
  client.get server n (url? base t)

/-- Searches for a term that was searched for `n` times before. -/
def search (client : Http.Client) (server : Http.Server) (base : String) (t : Term) (n : Nat) :
    Searched :=
  let transfer := searchTransfer client server base t n
  { requests := transfer.requests
    result := match transfer.result with
      | .error f => .error f
      | .ok received =>
        match client.text? received with
        | none => .error .brokenBody
        | some body => .ok (judge received.status received.headers body) }

/-- A server as a service to search with. -/
def service (client : Http.Client) (server : Http.Server) (base : String) : Sweep.Service :=
  .inOrder fun t n => (search client server base t n).reply

end Search
end Census
