import Census.Proofs.Sweep.Arrival
import Census.Survey

/-!
# How a census begins

Four things can keep a census from turning to the service: its options, the token, the terms, and a
token or a name that does not fit into a header. They are looked at in this order, and the first of
them that fails is the failure of the census (`FailsFirst`). When none of them does, the census has a
client and terms (`Begins`), and what becomes of it is what its two sweeps come to.

What is logged plays no part in that, so the sweeps are those of a run that starts with an empty log.
-/

namespace Census
namespace Survey

open Sweep

variable {o : Options} {s : Setting} {client : Http.Client} {terms : List Term}

/-- The first of the four steps that fails, each of those before it having come through. -/
inductive FailsFirst (o : Options) (decode : Http.Decoder) (disk : Disk) (token : Option String) :
    Failure → Prop
  | options {f : Options.Fault} (fails : o.fault? = some f) : FailsFirst o decode disk token (.options f)
  | credential {f : Credential.Fault} (valid : o.fault? = none)
      (fails : Credential.load disk o.tokenFile token = .error f) :
      FailsFirst o decode disk token (.credential f o.tokenFile)
  | terms {f : Terms.Fault} {loaded : String × Credential.Source} (valid : o.fault? = none)
      (credential : Credential.load disk o.tokenFile token = .ok loaded)
      (fails : Terms.load disk o.input = .error f) : FailsFirst o decode disk token (.terms f o.input)
  | client {f : Http.ClientFault} {loaded : String × Credential.Source} {terms : List Term}
      (valid : o.fault? = none) (credential : Credential.load disk o.tokenFile token = .ok loaded)
      (listed : Terms.load disk o.input = .ok terms)
      (fails : Http.Client.make decode loaded.1 o.userAgent = .error f) :
      FailsFirst o decode disk token (.client f)

/-- None of the four steps fails, and these are the client and the terms. -/
structure Begins (o : Options) (s : Setting) (client : Http.Client) (terms : List Term) : Prop where
  valid : o.fault? = none
  credential : ∃ loaded, Credential.load s.disk o.tokenFile s.token = .ok loaded
    ∧ Http.Client.make s.decode loaded.1 o.userAgent = .ok client
  listed : Terms.load s.disk o.input = .ok terms

theorem prepare_of_failsFirst {decode : Http.Decoder} {disk : Disk} {token : Option String}
    {f : Failure}
    (h : FailsFirst o decode disk token f) : ∃ notes, prepare o decode disk token = .error (f, notes) := by
  cases h with
  | options fails => exact ⟨_, by rw [prepare, fails]⟩
  | credential valid fails => exact ⟨_, by rw [prepare, valid]; simp only [fails]; rfl⟩
  | terms valid credential fails =>
    exact ⟨_, by rw [prepare, valid]; simp only [credential, fails]; rfl⟩
  | client valid credential listed fails =>
    exact ⟨_, by rw [prepare, valid]; simp only [credential, listed, fails]; rfl⟩

theorem Begins.prepare_eq (h : Begins o s client terms) :
    ∃ notes, prepare o s.decode s.disk s.token = .ok { client, terms, notes } := by
  obtain ⟨loaded, credential, made⟩ := h.credential
  exact ⟨_, by rw [prepare, h.valid]; simp only [credential, h.listed, made]; rfl⟩

/-- Either one of the steps is the first to fail, or the census begins. -/
theorem failsFirst_or_begins (o : Options) (s : Setting) :
    (∃ f, FailsFirst o s.decode s.disk s.token f) ∨ ∃ client terms, Begins o s client terms := by
  cases valid : o.fault? with
  | some f => exact Or.inl ⟨_, FailsFirst.options valid⟩
  | none =>
    cases credential : Credential.load s.disk o.tokenFile s.token with
    | error f => exact Or.inl ⟨_, FailsFirst.credential valid credential⟩
    | ok loaded =>
      cases listed : Terms.load s.disk o.input with
      | error f => exact Or.inl ⟨_, FailsFirst.terms valid credential listed⟩
      | ok terms =>
        cases made : Http.Client.make s.decode loaded.1 o.userAgent with
        | error f => exact Or.inl ⟨_, FailsFirst.client valid credential listed made⟩
        | ok client => exact Or.inr ⟨client, terms, valid, ⟨loaded, credential, made⟩, listed⟩

/-! ## The sweeps of a census -/

/-- The primary sweep of a census with this client over these terms. -/
def firstSweep (o : Options) (s : Setting) (client : Http.Client) (terms : List Term) : Phase :=
  phase .primary (.ofDeadline o.span) (Search.service client s.server o.base)
    (probes client s.server o.base s.probes) (.start (.start terms o.retryBudget) s.began)

/-- The retry sweep after it, with the probes that it left. -/
def secondSweep (o : Options) (s : Setting) (client : Http.Client) (terms : List Term) : Phase :=
  phase .retry (.ofDeadline o.span) (Search.service client s.server o.base)
    (firstSweep o s client terms).rest (firstSweep o s client terms).run

/-- What the two sweeps come to. -/
def swept (o : Options) (s : Setting) (client : Http.Client) (terms : List Term) :
    Except Failure Unit × Run :=
  sweeps (.ofDeadline o.span) (Search.service client s.server o.base)
    (probes client s.server o.base s.probes) (.start (.start terms o.retryBudget) s.began)

theorem swept_eq (o : Options) (s : Setting) (client : Http.Client) (terms : List Term) :
    swept o s client terms
      = match (firstSweep o s client terms).ending with
        | .stopped f => (.error (.sweep .primary f), (firstSweep o s client terms).run)
        | .overflowed => (.error .overflowed, (firstSweep o s client terms).run)
        | .unprobed => (.error .unprobed, (firstSweep o s client terms).run)
        | .complete =>
          match (secondSweep o s client terms).ending with
          | .stopped f => (.error (.sweep .retry f), (secondSweep o s client terms).run)
          | .overflowed => (.error .overflowed, (secondSweep o s client terms).run)
          | .unprobed => (.error .unprobed, (secondSweep o s client terms).run)
          | .complete => (.ok (), (secondSweep o s client terms).run) :=
  rfl

theorem sweeps_alike (pace : Pace) (service : Service) (probes : List Quota.Probe) {a b : Run}
    (h : Alike a b) :
    (sweeps pace service probes a).1 = (sweeps pace service probes b).1
      ∧ Alike (sweeps pace service probes a).2 (sweeps pace service probes b).2 := by
  have same : service.reply = service.reply := rfl
  have first := phase_alike same .primary pace probes h
  simp only [phase] at first
  have second := phase_alike same .retry pace (primary pace service probes b).rest first.run
  simp only [phase] at second
  simp only [sweeps, first.ending, first.rest]
  cases (primary pace service probes b).ending with
  | stopped f => exact ⟨rfl, first.run⟩
  | overflowed => exact ⟨rfl, first.run⟩
  | unprobed => exact ⟨rfl, first.run⟩
  | complete =>
    simp only [second.ending]
    cases (retry pace service (primary pace service probes b).rest
        (primary pace service probes b).run).ending with
    | stopped f => exact ⟨rfl, second.run⟩
    | overflowed => exact ⟨rfl, second.run⟩
    | unprobed => exact ⟨rfl, second.run⟩
    | complete => exact ⟨rfl, second.run⟩

theorem finish_alike (o : Options) (disk : Disk) {run run' : Run} (h : Alike run run') :
    (finish o disk run).1 = (finish o disk run').1
      ∧ (finish o disk run).2.1 = (finish o disk run').2.1 := by
  simp only [finish, h.ledger, h.began, h.elapsed, and_self]

theorem conclude_alike (o : Options) (disk : Disk) {swept swept' : Except Failure Unit × Run}
    (same : swept.1 = swept'.1) (h : Alike swept.2 swept'.2)
    (requests requests' : List (List Http.Request)) :
    (conclude o disk swept requests).result = (conclude o disk swept' requests').result
      ∧ (conclude o disk swept requests).disk = (conclude o disk swept' requests').disk := by
  unfold conclude
  rw [same]
  cases swept'.1 with
  | error f => exact ⟨rfl, rfl⟩
  | ok _ =>
    have finished := finish_alike o disk h
    exact ⟨congrArg (Except.mapError Failure.report) finished.1, finished.2⟩

/-- The result and the files of a census that begins are those that its sweeps lead to. -/
theorem Begins.carryOut_eq (h : Begins o s client terms) (requests : List (List Http.Request)) :
    (carryOut o s).result = (conclude o s.disk (swept o s client terms) requests).result
      ∧ (carryOut o s).disk = (conclude o s.disk (swept o s client terms) requests).disk := by
  obtain ⟨notes, prepared⟩ := h.prepare_eq
  -- The run of the census has the notes of its preparation, and nothing else that the other lacks.
  have start : Alike (Prepared.run { client, terms, notes } o s.began)
      (.start (.start terms o.retryBudget) s.began) := ⟨rfl, rfl, rfl, rfl⟩
  obtain ⟨same, alike⟩ := sweeps_alike (.ofDeadline o.span) (Search.service client s.server o.base)
    (probes client s.server o.base s.probes) start
  simp only [carryOut, prepared]
  exact conclude_alike o s.disk same alike _ requests

end Survey
end Census
