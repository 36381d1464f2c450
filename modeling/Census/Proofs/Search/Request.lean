import Census.Proofs.Search.Judgement
import Census.Search.Request

/-!
# What a search comes to

A search is judged by the response that the client received, and only a number that fits 64 bits is
taken for a count. A search that comes to a count has therefore received a response, and its count is
one of those numbers, whatever the server sends.
-/

namespace Census
namespace Search

variable {client : Http.Client} {server : Http.Server} {base : String} {t : Term} {n : Nat}

theorem judge_counted_le {status : Nat} {headers : Http.Headers} {body : String} {count : Nat}
    {incomplete : Bool} (h : judge status headers body = .counted count incomplete) :
    count ≤ Numeral.most64 := by
  obtain ⟨-, -, counted⟩ := judge_eq_counted_iff.mp h
  exact Nat.le_sub_one_of_lt (lt_of_judgeBody_eq_counted counted)

/-! ## Searches -/

theorem outcomeBy_now (o : Outcome) (deadline : Span) :
    (Sweep.Reply.now o).outcomeBy deadline = o := by
  have due : Span.zero ≤ deadline := Nat.zero_le deadline.nanos
  simp only [Sweep.Reply.now, Sweep.Reply.outcomeBy]
  exact if_pos due

theorem reply_service (client : Http.Client) (server : Http.Server) (base : String) (t : Term)
    (n : Nat) : (service client server base).reply t n = (search client server base t n).reply := by
  simp only [service, Sweep.Service.inOrder]

/-- A reply is a count only when the search came to that count. -/
theorem Searched.result_of_counted {x : Searched} {deadline : Span} {count : Nat}
    {incomplete : Bool} (h : x.reply.outcomeBy deadline = .counted count incomplete) :
    x.result = .ok (.counted count incomplete) := by
  unfold reply at h
  split at h
  · cases h
  · rw [outcomeBy_now, outcome] at h
    split at h
    · next o result => rw [result, h]
    · cases h

theorem search_ok {o : Outcome} (h : (search client server base t n).result = .ok o) :
    ∃ received body, (searchTransfer client server base t n).result = .ok received
      ∧ client.text? received = some body ∧ o = judge received.status received.headers body := by
  simp only [search] at h
  split at h
  · cases h
  · next received result =>
    split at h
    · cases h
    · next body text =>
      injection h with judged
      exact ⟨received, body, result, text, judged.symm⟩

theorem count_of_reply_le {deadline : Span} {count : Nat} {incomplete : Bool}
    (h : ((service client server base).reply t n).outcomeBy deadline = .counted count incomplete) :
    count ≤ Numeral.most64 := by
  rw [reply_service] at h
  have result := Searched.result_of_counted h
  obtain ⟨received, body, -, -, judged⟩ := search_ok result
  exact judge_counted_le judged.symm

end Search
end Census
