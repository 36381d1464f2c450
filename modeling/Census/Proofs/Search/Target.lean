import Census.Proofs.Http.Target
import Census.Proofs.Search.Base
import Census.Proofs.Search.Query
import Census.Search.Request

/-!
# What a search asks for

The first request of a search is for the address of the searches with the query of the term as a
parameter. Where the address of the service has no query of its own, the server reads that parameter as
it was meant, and searches for different terms have different targets (`targets_tell_terms_apart`).
-/

namespace Census
namespace Search

open Http (Client Request Server Url)

variable {base : String} {u : Url} {t : Term}

theorem bare_address (bare : Url.Bare base.toList) : Url.Bare (address base).toList := by
  obtain ⟨n, text⟩ := exists_slashes base
  rw [text, String.toList_append] at bare
  rw [address, String.toList_append]
  exact bare.of_append.append (by decide)

theorem url?_of_usable (usable : Url.ofText? (address base) = some u) (t : Term) :
    url? base t = some (u.withParameter "q" (query t)) := by
  rw [url?, usable]
  rfl

/-- The first request that a server gets is the one that was to be sent, wherever it leads. -/
theorem eq_of_head?_send {server : Server} {n hops : Nat} {request r : Request}
    (first : (Client.send server n hops request).requests.head? = some r) : r = request := by
  unfold Client.send at first
  simp only at first
  split at first
  case h_1 => cases first
  case h_2 => exact (Option.some.inj first).symm
  case h_3 => exact (Option.some.inj first).symm
  all_goals
    split at first
    all_goals exact (Option.some.inj first).symm

theorem url_of_head?_search {client : Client} {server : Server} {n : Nat} {r : Request}
    (usable : Url.ofText? (address base) = some u)
    (first : (search client server base t n).requests.head? = some r) :
    r.url = u.withParameter "q" (query t) := by
  have sent : (Client.send server n Client.mostHops
      (client.request (u.withParameter "q" (query t)))).requests.head? = some r := by
    simpa only [search, searchTransfer, url?_of_usable usable, Client.get] using first
  rw [eq_of_head?_send sent, Client.request]

/-- A service whose address has no query reads the query of the term from the target of its search,
which is what the server is asked first. Different terms have different queries and different
targets. -/
theorem targets_tell_terms_apart {base : String} {u : Url} (bare : Url.Bare base.toList)
    (usable : Url.ofText? (address base) = some u) :
    (∀ t, ∃ url, url? base t = some url
      ∧ (u.named url.target).parameter? "q" = some (query t)
      ∧ ∀ client server n r, (search client server base t n).requests.head? = some r →
          r.url.target = url.target) ∧
    ∀ s t, s ≠ t → query s ≠ query t
      ∧ (url? base s).map Url.target ≠ (url? base t).map Url.target := by
  have no_query : u.query = none := Url.query_eq_none_of_bare (bare_address bare) usable
  have no_mark : '?' ∉ u.path.toList := Url.mark_not_mem_path usable
  have read : ∀ t, (u.named (u.withParameter "q" (query t)).target).parameter? "q"
      = some (query t) := fun t => Url.parameter?_named_target no_mark no_query
  constructor
  · intro t
    refine ⟨_, url?_of_usable usable t, read t, fun client server n r first => ?_⟩
    rw [url_of_head?_search usable first]
  · intro s t different
    have queries : query s ≠ query t := query_injective.ne different
    refine ⟨queries, fun same => queries ?_⟩
    rw [url?_of_usable usable, url?_of_usable usable] at same
    have targets : (u.withParameter "q" (query s)).target = (u.withParameter "q" (query t)).target :=
      Option.some.inj same
    have names := read s
    rw [targets, read t] at names
    exact (Option.some.inj names).symm

/-- A term with white space, and the same text with quotation marks of its own around it. -/
theorem targets_tell_quoted_term_apart :
    let u : Url :=
      { secure := false, host := "h", port := none, path := "/v3/search/repositories"
        query := none }
    Url.Bare "http://h/v3/".toList ∧
    Url.ofText? (address "http://h/v3/") = some u ∧
    (url? "http://h/v3/" "C# 7&é").map Url.target
      = some "/v3/search/repositories?q=language%3A%22C%23+7%26%C3%A9%22" ∧
    (u.named "/v3/search/repositories?q=language%3A%22C%23+7%26%C3%A9%22").parameter? "q"
      = some (query "C# 7&é") ∧
    query "\"C# 7&é\"" ≠ query "C# 7&é" ∧
    (url? "http://h/v3/" "\"C# 7&é\"").map Url.target
      ≠ (url? "http://h/v3/" "C# 7&é").map Url.target := by
  intro u
  have bare : Url.Bare "http://h/v3/".toList := Url.bare_of_not_mem (by decide)
  have usable : Url.ofText? (address "http://h/v3/") = some u := by decide +kernel
  have target : (url? "http://h/v3/" "C# 7&é").map Url.target
      = some "/v3/search/repositories?q=language%3A%22C%23+7%26%C3%A9%22" := by decide +kernel
  obtain ⟨seen, apart⟩ := targets_tell_terms_apart bare usable
  obtain ⟨url, built, read, -⟩ := seen "C# 7&é"
  have same : url.target = "/v3/search/repositories?q=language%3A%22C%23+7%26%C3%A9%22" := by
    rw [built] at target
    exact Option.some.inj target
  rw [same] at read
  have different := apart "\"C# 7&é\"" "C# 7&é" (by decide)
  exact ⟨bare, usable, target, read, different.1, different.2⟩

end Search
end Census
