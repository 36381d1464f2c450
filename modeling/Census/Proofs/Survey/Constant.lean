import Census.Proofs.Http.Query
import Census.Proofs.Survey.Finish
import Census.Proofs.Sweep.Findings

/-!
# What a census finds with a constant server

When a server answers every search for one query alike, what a census finds can be said term by term:
a term is counted when the response to its own query is a count, and is unresolved when it is not.
Batches, quotas, probes that fail and retries play no part in that, as long as both sweeps come to an
end. Between the two stands the address: the server sees an encoded query, and the response that it
has is the one for the query that was meant.
-/

namespace Census

namespace Search

/-- The server answers each search that a client makes at `u` with the response to its query, and
the response does not lead elsewhere. -/
def Responds (client : Http.Client) (server : Http.Server) (u : Http.Url)
    (respond : String → Http.Response) : Prop :=
  ∀ (url : Http.Url) (q : String) (n : Nat),
    { url with query := none } = u → url.parameter? "q" = some q →
      server (client.request url) n = .answered (respond q)
        ∧ Http.Client.destination? url (respond q) = none

/-- What the response to the query for a term stands for, when its body is made text of in a given
way. -/
def verdict (decode : Http.Decoder) (respond : String → Http.Response) (t : Term) : Outcome :=
  let r := respond (query t)
  judge r.status r.headers (decode r.headers r.body)

theorem send_answered {server : Http.Server} {request : Http.Request} {n hops : Nat}
    {r : Http.Response} (answered : server request n = .answered r)
    (stays : Http.Client.destination? request.url r = none) :
    Http.Client.send server n hops request
      = ⟨[request], .ok { status := r.status, headers := r.headers, body := some r.body }⟩ := by
  unfold Http.Client.send
  simp only [answered, stays]

section Responds

variable {client : Http.Client} {server : Http.Server} {base : String} {u : Http.Url}
  {respond : String → Http.Response}

/-- Every search for a term comes to what the response to its query stands for. -/
theorem search_of_responds (address : Http.Url.ofText? (address base) = some u)
    (bare : u.query = none) (responds : Responds client server u respond) (t : Term) (n : Nat) :
    (search client server base t n).result = .ok (verdict client.decode respond t) := by
  have url : url? base t = some (u.withParameter "q" (query t)) := by
    rw [url?, address]
    rfl
  -- Without their queries, all searches are at one address.
  have here : { u.withParameter "q" (query t) with query := none } = u := by
    rw [Http.Url.withoutQuery_withParameter]
    exact congrArg (fun q => { u with query := q }) bare.symm
  obtain ⟨answered, stays⟩ :=
    responds _ _ n here (Http.Url.parameter?_withParameter bare "q" (query t))
  have transfer : (searchTransfer client server base t n).result
      = .ok { status := (respond (query t)).status, headers := (respond (query t)).headers
              body := some (respond (query t)).body } := by
    rw [searchTransfer, url, Http.Client.get]
    exact congrArg Http.Transfer.result (send_answered answered stays)
  simp only [search, transfer]
  rfl

theorem constant_of_responds (address : Http.Url.ofText? (address base) = some u)
    (bare : u.query = none) (responds : Responds client server u respond) (deadline : Span) :
    (service client server base).Constant deadline (verdict client.decode respond) := by
  intro t n
  have result := search_of_responds address bare responds t n
  rw [reply_service, Searched.reply, result]
  simp only [Searched.outcome, result]
  exact outcomeBy_now _ deadline

end Responds

end Search

namespace Survey

open Sweep Ledger

/-! ## What is read off the ledger -/

section Ledger

variable {l : Ledger} {outcome : Term → Outcome}

/-- The counts that outcomes give, in the order of a list. -/
def countsBy (outcome : Term → Outcome) (ts : List Term) : List (Term × Nat) :=
  ts.filterMap fun t => match outcome t with
    | .counted n _ => some (t, n)
    | .failed _ => none

theorem countsInOrder_of_standing (h : ∀ t ∈ l.worklist, l.standing t = .of (outcome t)) :
    l.countsInOrder = countsBy outcome l.worklist := by
  refine List.filterMap_congr fun t ht => ?_
  have count : l.counted[t]? = (Standing.of (outcome t)).count := congrArg Standing.count (h t ht)
  rw [count]
  cases outcome t <;> rfl

theorem unresolved_of_standing (h : ∀ t ∈ l.worklist, l.standing t = .of (outcome t)) :
    l.unresolved = l.worklist.filter fun t => !(outcome t).isCounted := by
  refine List.filter_congr fun t ht => ?_
  have failed : l.failed.contains t = (Standing.of (outcome t)).failed :=
    congrArg Standing.failed (h t ht)
  rw [failed]
  cases outcome t <;> rfl

end Ledger

/-! ## What comes of the census -/

/-- A census of a constant server that comes through its sweeps writes the counts of exactly those
terms whose own responses are counts, and lists all others as unresolved. -/
theorem finds_verdicts_of_constant_server (o : Options) (s : Setting) (client : Http.Client)
    (terms : List Term) (u : Http.Url) (respond : String → Http.Response) (p q : Place)
    (begins : Begins o s client terms)
    (countsPlace : s.disk.place? o.countsPath = some p)
    (summaryPlace : s.disk.place? o.summaryPath = some q) (apart : p ≠ q)
    (address : Http.Url.ofText? (Search.address o.base) = some u) (bare : u.query = none)
    (responds : Search.Responds client s.server u respond)
    (first : (firstSweep o s client terms).ending = .complete)
    (second : (secondSweep o s client terms).ending = .complete) :
    ∃ f text, (carryOut o s).result = .ok f
      ∧ (carryOut o s).disk.readText o.countsPath = .ok text
      ∧ Report.countsOf? text = some (countsBy (Search.verdict client.decode respond) terms.eraseDups)
      ∧ (carryOut o s).disk.readText o.summaryPath = .ok f.summary.text
      ∧ (f.summary.targeted ≤ Numeral.most64 →
        Report.Summary.ofText? f.summary.text = some f.summary)
      ∧ f.summary.unresolved
        = terms.eraseDups.filter fun t => !(Search.verdict client.decode respond t).isCounted := by
  have done := swept_of_complete first second
  obtain ⟨f, written⟩ := finish_of_places countsPlace summaryPlace (swept o s client terms).2
  have different : s.disk.Apart o.countsPath o.summaryPath := by
    intro place here there
    rw [countsPlace] at here
    rw [summaryPlace] at there
    exact apart (Option.some.inj (here.trans there.symm))
  have finished := begins.finished different done written
  have closed := closed_swept done
  have constant := Search.constant_of_responds address bare responds (Pace.ofDeadline o.span).deadline
  have standing : ∀ t ∈ (swept o s client terms).2.ledger.worklist,
      (swept o s client terms).2.ledger.standing t = .of (Search.verdict client.decode respond t) := by
    intro t ht
    have listed : t ∈ terms := by
      rw [closed.worklist, ← firsts_eq_eraseDups] at ht
      exact mem_firsts.mp ht
    rw [swept, standing_of_constant constant done, if_pos listed]
  -- All that the files say is read off the ledger, in which every term stands as its response says.
  generalize (swept o s client terms).2.ledger = l at closed standing finished
  obtain ⟨⟨began, elapsed, report⟩, ⟨text, readCounts, decoded⟩, readSummary, decodes⟩ := finished
  refine ⟨f, text, (begins.carryOut_of_finish done written).1, readCounts, ?_, readSummary,
    decodes, ?_⟩
  · rw [decoded, countsInOrder_of_standing standing, closed.worklist]
  · rw [report, ← closed.worklist]
    exact unresolved_of_standing standing

/-- Names that have to be encoded, a probe that fails, quotas of one search, and a retry that does
not help. -/
theorem finds_verdicts_of_encoded_names :
    let respond : String → Http.Response := fun q =>
      ⟨200, [], Text.bytes (if q = "language:C++" then "\x7b\"total_count\":5\x7d"
        else if q = "language:\"Vim Snippet\"" then "[3,true]" else "<html>")⟩
    let server : Http.Server := fun r n =>
      if r.url.path = "/v3/rate_limit" then
        if n = 1 then .dropped else .answered
          ⟨200, [], Text.bytes
            "\x7b\"resources\":\x7b\"search\":\x7b\"remaining\":1,\"reset\":0\x7d\x7d\x7d"⟩
      else match r.url.parameter? "q" with
        | some q => .answered (respond q)
        | none => .silent
    let o : Options :=
      { Options.standard with input := "terms", service := "http://api/v3/", retryBudget := 1 }
    let terms : List Term := ["C++", "C#", "Vim Snippet"]
    let s : Setting :=
      { disk := (Disk.empty ["home"]).store "terms" (Text.bytes
          "\x7b\"C++\":\x7b\"color\":1\x7d,\"C#\":\x7b\"color\":2\x7d,\"Vim Snippet\":\x7b\"color\":3\x7d\x7d")
        token := some "secret", server, decode := fun _ body => Text.lenient body, began := ⟨0⟩
        probes := 6 }
    let client : Http.Client :=
      { authorization := "token secret", userAgent := o.userAgent, decode := s.decode }
    let u : Http.Url :=
      { secure := false, host := "api", port := none, path := "/v3/search/repositories"
        query := none }
    Begins o s client terms ∧ Search.Responds client server u respond
      ∧ countsBy (Search.verdict client.decode respond) terms.eraseDups = [("C++", 5), ("Vim Snippet", 3)]
      ∧ ∃ f text, (carryOut o s).result = .ok f
        ∧ (carryOut o s).disk.readText o.countsPath = .ok text
        ∧ Report.countsOf? text = some (countsBy (Search.verdict client.decode respond) terms.eraseDups)
        ∧ (carryOut o s).disk.readText o.summaryPath = .ok f.summary.text
        ∧ (f.summary.targeted ≤ Numeral.most64 →
          Report.Summary.ofText? f.summary.text = some f.summary)
        ∧ f.summary.unresolved
          = terms.eraseDups.filter fun t => !(Search.verdict client.decode respond t).isCounted := by
  intro respond server o terms s client u
  have begins : Begins o s client terms :=
    { valid := by decide +kernel
      credential := ⟨("secret", .environment), by decide +kernel,
        Http.Client.make_of_isValue (by decide +kernel) (by decide +kernel)⟩
      listed := by decide +kernel }
  have responds : Search.Responds client server u respond := by
    intro url q n here parameter
    have path : url.path = "/v3/search/repositories" := congrArg Http.Url.path here
    have elsewhere : ¬ url.path = "/v3/rate_limit" := by
      rw [path]
      decide
    constructor
    · simp only [server, Http.Client.request, if_neg elsewhere, parameter]
    · rfl
  refine ⟨begins, responds, by decide +kernel, ?_⟩
  exact finds_verdicts_of_constant_server o s client terms u respond
    ["home", "repository_usage.json"] ["home", "repository_usage_summary.json"] begins
    (by decide +kernel) (by decide +kernel) (by decide) (by decide +kernel) rfl responds
    (by decide +kernel) (by decide +kernel)

end Survey
end Census
