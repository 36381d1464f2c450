import Census.Quota.Request
import Census.Search.Request
import Census.Sweep.Run

/-!
# The requests of a census

The requests that a server got follow from what the census did: each probe and each search of a batch
is one request, unless the server sent it elsewhere or could not be reached.
-/

namespace Census
namespace Survey

open Sweep

/-- The probes that come to an end one after the other, `count` of them. -/
def probes (client : Http.Client) (server : Http.Server) (base : String) (count : Nat) :
    List Quota.Probe :=
  (List.range count).map (Quota.probe client server base)

/-- The requests of a batch. `asked` tells how often a term was searched for before. -/
def batchRequests (client : Http.Client) (server : Http.Server) (base : String)
    (asked : Term → Nat) : List Term → List Http.Request
  | [] => []
  | t :: rest =>
    (Search.search client server base t (asked t)).requests
      ++ batchRequests client server base (fun u => if u = t then asked u + 1 else asked u) rest

/-- The requests of events, probe by probe and batch by batch, the oldest event first. They come
after `probed` probes and the searches that `asked` counts. -/
def requestsFrom (client : Http.Client) (server : Http.Server) (base : String) (probed : Nat)
    (asked : Term → Nat) : List Event → List (List Http.Request)
  | [] => []
  | .probed _ _ :: rest =>
    (Quota.probeTransfer client server base probed).requests
      :: requestsFrom client server base (probed + 1) asked rest
  | .fetched batch _ :: rest =>
    batchRequests client server base asked batch
      :: requestsFrom client server base probed (fun t => asked t + batch.count t) rest

/-- The requests of events, the oldest event first. -/
def requests (client : Http.Client) (server : Http.Server) (base : String) (events : List Event) :
    List (List Http.Request) :=
  requestsFrom client server base 0 (fun _ => 0) events

end Survey
end Census
