import Census.Proofs.Survey.Begin

/-!
# A census that fails has changed nothing

A census that cannot begin says so before it makes a request, and a census whose service cannot be
probed any more leaves the files alone, however much it has counted by then. Only a result file that
cannot be written ends a census after it began to write.
-/

namespace Census
namespace Survey

open Sweep

variable {o : Options} {s : Setting}

theorem carryOut_of_failsFirst {f : Failure} (h : FailsFirst o s.decode s.disk s.token f) :
    (carryOut o s).result = .error f ∧ (carryOut o s).requests = []
      ∧ (carryOut o s).disk = s.disk := by
  obtain ⟨notes, prepared⟩ := prepare_of_failsFirst h
  simp only [carryOut, prepared]
  exact ⟨rfl, rfl, rfl⟩

theorem conclude_of_error {disk : Disk} {swept : Except Failure Unit × Run} {f : Failure}
    (h : swept.1 = .error f) (requests : List (List Http.Request)) :
    (conclude o disk swept requests).result = .error f
      ∧ (conclude o disk swept requests).disk = disk := by
  simp only [conclude, h, and_self]

/-- Sweeps that do not come to an end leave no trace on the disk. -/
theorem Begins.carryOut_of_error {client : Http.Client} {terms : List Term} {f : Failure}
    (h : Begins o s client terms) (fails : (swept o s client terms).1 = .error f) :
    (carryOut o s).result = .error f ∧ (carryOut o s).disk = s.disk := by
  obtain ⟨result, disk⟩ := h.carryOut_eq []
  rw [result, disk]
  exact conclude_of_error fails []

theorem result_of_finished {disk : Disk} {swept : Except Failure Unit × Run} {f : Failure}
    {requests : List (List Http.Request)} (h : swept.1 = .ok ())
    (fails : (conclude o disk swept requests).result = .error f) : ∃ r, f = .report r := by
  simp only [conclude, h] at fails
  cases written : (finish o disk swept.2).1 with
  | error r =>
    rw [written] at fails
    exact ⟨r, (Except.error.inj fails).symm⟩
  | ok findings =>
    rw [written] at fails
    cases fails

/-- The first step that fails before the first request is the failure of the census, which has then
made no request and changed no file. A census that loses its service in either sweep says so and has
changed no file either, and so has every other one that fails, unless what it fails at is writing its
results. -/
theorem failures_come_before_side_effects (o : Options) (s : Setting) :
    (∀ f, FailsFirst o s.decode s.disk s.token f →
      (carryOut o s).result = .error f ∧ (carryOut o s).requests = []
        ∧ (carryOut o s).disk = s.disk)
      ∧ (∀ client terms, Begins o s client terms →
        (∀ f, (firstSweep o s client terms).ending = .stopped f →
          (carryOut o s).result = .error (.sweep .primary f) ∧ (carryOut o s).disk = s.disk)
          ∧ ∀ f, (firstSweep o s client terms).ending = .complete →
            (secondSweep o s client terms).ending = .stopped f →
            (carryOut o s).result = .error (.sweep .retry f) ∧ (carryOut o s).disk = s.disk)
      ∧ ∀ f, (carryOut o s).result = .error f → (∀ r, f ≠ .report r) →
        (carryOut o s).disk = s.disk := by
  refine ⟨fun f h => carryOut_of_failsFirst h, fun client terms h => ⟨?_, ?_⟩, ?_⟩
  · intro f stopped
    have fails : (swept o s client terms).1 = .error (.sweep .primary f) := by
      rw [swept_eq, stopped]
    exact h.carryOut_of_error fails
  · intro f complete stopped
    have fails : (swept o s client terms).1 = .error (.sweep .retry f) := by
      rw [swept_eq, complete, stopped]
    exact h.carryOut_of_error fails
  · intro f fails other
    rcases failsFirst_or_begins o s with ⟨f', h⟩ | ⟨client, terms, h⟩
    · exact (carryOut_of_failsFirst h).2.2
    · cases outcome : (swept o s client terms).1 with
      | error f' => exact (h.carryOut_of_error outcome).2
      | ok done =>
        -- Past the sweeps there is only the writing that can fail.
        rw [(h.carryOut_eq []).1] at fails
        obtain ⟨r, report⟩ := result_of_finished outcome fails
        exact absurd report (other r)

/-- The service goes away for good after the primary sweep, which has counted a term. -/
theorem failures_come_before_side_effects_of_outage :
    let server : Http.Server := fun r n =>
      if r.url.path = "/rate_limit" then
        if n = 0 then .answered
          ⟨200, [], Text.bytes
            "\x7b\"resources\":\x7b\"search\":\x7b\"remaining\":5,\"reset\":0\x7d\x7d\x7d"⟩
        else .refused
      else if r.url.query = some "q=language%3AGo" then
        .answered ⟨200, [], Text.bytes "\x7b\"total_count\":7\x7d"⟩
      else .answered ⟨200, [], Text.bytes "<html>"⟩
    let o : Options := { Options.standard with input := "terms", service := "http://api" }
    let s : Setting :=
      { disk := (Disk.empty ["home"]).store "terms" (Text.bytes "Go\nC\n"), token := some "secret",
        server, decode := fun _ body => Text.lenient body, began := ⟨0⟩, probes := 9 }
    let client : Http.Client :=
      { authorization := "token secret", userAgent := o.userAgent, decode := s.decode }
    let outage : Quota.ProbeFault :=
      .unreachable "error sending request for url (http://api/rate_limit)"
    Begins o s client ["Go", "C"]
      ∧ (secondSweep o s client ["Go", "C"]).run.ledger.countsInOrder = [("Go", 7)]
      ∧ (carryOut o s).result = .error (.sweep .retry outage) ∧ (carryOut o s).disk = s.disk := by
  intro server o s client outage
  have begins : Begins o s client ["Go", "C"] :=
    { valid := by decide +kernel
      credential := ⟨("secret", .environment), by decide +kernel,
        Http.Client.make_of_isValue (by decide +kernel) (by decide +kernel)⟩
      listed := by decide +kernel }
  have complete : (firstSweep o s client ["Go", "C"]).ending = .complete := by decide +kernel
  have stopped : (secondSweep o s client ["Go", "C"]).ending = .stopped outage := by decide +kernel
  have counted : (secondSweep o s client ["Go", "C"]).run.ledger.countsInOrder = [("Go", 7)] := by
    decide +kernel
  have after := ((failures_come_before_side_effects o s).2.1 client ["Go", "C"] begins).2
  exact ⟨begins, counted, after outage complete stopped⟩

end Survey
end Census
