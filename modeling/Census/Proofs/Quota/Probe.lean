import Census.Proofs.Json.Raw
import Census.Proofs.Quota.Limit
import Census.Quota.Request
import Census.Sweep.Await

/-!
# What a probe answers

A response that says the quota is used up is an exhausted window, and the wait for quota goes on as
if no probe had failed before. A status other than success is a fault with the start of the body, and
the document of a successful response is a window just when it holds the two numbers of the searches.
-/

namespace Census
namespace Quota

open Json Sweep

/-- The members of the document on limits say how many searches remain and when the count starts
again. -/
def Finds (members : List (String × List Char)) (remaining : Nat) (reset : Int) : Prop :=
  ∃ resources inner search fields, values "resources" members = [resources]
    ∧ IsObject inner resources ∧ values "search" inner = [search] ∧ IsObject fields search
    ∧ (remaining < Nat.pow 2 64 ∧ values "remaining" fields = [(toString remaining).toList])
    ∧ (-8334601228800 ≤ reset ∧ reset ≤ 8210266876799)
    ∧ values "reset" fields = [(toString reset).toList]

/-- Neither the resources nor the searches among them are an array. -/
def NoArray (members : List (String × List Char)) : Prop :=
  ∀ resources ∈ values "resources" members, (∀ items, ¬ IsArray items resources)
    ∧ ∀ inner, IsObject inner resources → ∀ search ∈ values "search" inner,
      ∀ items, ¬ IsArray items search

/-- The start of a text, as far as it is quoted. -/
def IsExcerpt (e text : String) : Prop :=
  e.toList <+: text.toList ∧ e.toList.length ≤ 200
    ∧ ∀ p, p <+: text.toList → p.length ≤ 200 → p.length ≤ e.toList.length

theorem isExcerpt_excerpt (text : String) : IsExcerpt (excerpt text) text := by
  rw [IsExcerpt, excerpt, String.toList_ofList]
  refine ⟨List.take_prefix _ _, List.length_take_le _ _, fun p start short => ?_⟩
  rw [List.length_take]
  exact Nat.le_min.mpr ⟨short, start.length_le⟩

namespace Document

theorem need?_byName {members : List (String × List Char)} {name : String} {place : Nat}
    {raw : List Char} :
    need? (.byName members) name place = some raw ↔ values name members = [raw] := by
  rw [need?, Option.bind_eq_some_iff]
  simp only [id_eq, exists_eq_right, find?_eq_some_iff]

theorem ofSearch?_eq_some_iff {raw : List Char} (no_array : ∀ items, ¬ IsArray items raw)
    {r : Nat} {z : Int} :
    ofSearch? raw = some ⟨r, z⟩ ↔ ∃ fields, IsObject fields raw
      ∧ (r < Nat.pow 2 64 ∧ values "remaining" fields = [(toString r).toList])
      ∧ (-(Nat.pow 2 63 : Nat) ≤ z ∧ z < (Nat.pow 2 63 : Nat))
      ∧ values "reset" fields = [(toString z).toList] := by
  refine (ofText?_bind_eq_some_iff no_array).trans (exists_congr fun fields => ?_)
  refine and_congr_right fun object => ?_
  have remaining : (∃ raw, values "remaining" fields = [raw] ∧ nat64? raw = some r)
      ↔ r < Nat.pow 2 64 ∧ values "remaining" fields = [(toString r).toList] :=
    object.exists_value_iff fun _ value => nat64?_eq_some_iff value
  have reset : (∃ raw, values "reset" fields = [raw] ∧ int64? raw = some z)
      ↔ (-(Nat.pow 2 63 : Nat) ≤ z ∧ z < (Nat.pow 2 63 : Nat))
        ∧ values "reset" fields = [(toString z).toList] :=
    object.exists_value_iff fun _ value => int64?_eq_some_iff value
  rw [← remaining, ← reset]
  simp only [Option.bind_eq_bind, Option.bind_eq_some_iff, need?_byName, Fields.fits, if_true,
    Option.some.injEq, Document.mk.injEq]
  constructor
  · rintro ⟨v, found, w, found', r', read, z', read', rfl, rfl⟩
    exact ⟨⟨v, found, read⟩, w, found', read'⟩
  · rintro ⟨⟨v, found, read⟩, w, found', read'⟩
    exact ⟨v, found, w, found', r, read, z, read', rfl, rfl⟩

theorem ofResources?_eq_some_iff {raw : List Char} (no_array : ∀ items, ¬ IsArray items raw)
    {doc : Document} :
    ofResources? raw = some doc ↔ ∃ inner, IsObject inner raw
      ∧ ∃ search, values "search" inner = [search] ∧ ofSearch? search = some doc := by
  refine (ofText?_bind_eq_some_iff no_array).trans (exists_congr fun inner => ?_)
  simp only [Option.bind_eq_bind, Option.bind_eq_some_iff, need?_byName, Fields.fits, if_true]

theorem ofText?_eq_some_iff {body : String} {members : List (String × List Char)}
    (object : IsObject members body.toList) {doc : Document} :
    ofText? body = some doc
      ↔ ∃ resources, values "resources" members = [resources]
        ∧ ofResources? resources = some doc := by
  have read := ofText?_eq_byName_iff.mpr object
  simp only [ofText?, read, Option.bind_eq_bind, Option.bind_some, Option.bind_eq_some_iff,
    need?_byName, Fields.fits, if_true]

end Document

/-! ## Successful responses -/

section Bodies

variable {body : String} {members : List (String × List Char)}

theorem windowOfBody_eq_ok_iff {w : Window} :
    windowOfBody body = .ok w ↔ ∃ r z, Document.ofText? body = some ⟨r, z⟩
      ∧ (-8334601228800 ≤ z ∧ z ≤ 8210266876799) ∧ w = ⟨r, .ofSeconds z⟩ := by
  constructor
  · intro h
    unfold windowOfBody at h
    split at h
    · cases h
    next doc read =>
    split at h
    case h_2 => cases h
    next window named =>
    obtain rfl := Except.ok.inj h
    obtain ⟨i, seconds, rfl⟩ := Option.map_eq_some_iff.mp named
    refine ⟨doc.remaining, doc.reset, read, ?_, by rw [Instant.ofSeconds?_eq_some seconds]⟩
    unfold Instant.ofSeconds? at seconds
    split at seconds
    · assumption
    · cases seconds
  · rintro ⟨r, z, read, bounds, rfl⟩
    have seconds : Instant.ofSeconds? z = some (.ofSeconds z) := if_pos bounds
    simp only [windowOfBody, read, Window.ofSeconds?, seconds, Option.map_some]

theorem windowOfBody_cases (body : String) :
    (∃ w, windowOfBody body = .ok w) ∨ ∃ why, windowOfBody body = .error (.unreadable why) := by
  unfold windowOfBody
  split
  · exact .inr ⟨_, rfl⟩
  · split
    · exact .inl ⟨_, rfl⟩
    · exact .inr ⟨_, rfl⟩

theorem windowOfBody_object (object : IsObject members body.toList) (no_array : NoArray members)
    {r : Nat} {z : Int} :
    windowOfBody body = .ok ⟨r, .ofSeconds z⟩ ↔ Finds members r z := by
  rw [windowOfBody_eq_ok_iff]
  constructor
  · rintro ⟨r', z', read, bounds, same⟩
    obtain ⟨rfl, instants⟩ := Window.mk.inj same
    have seconds : z * 1000000000 = z' * 1000000000 := congrArg Instant.nanos instants
    obtain rfl : z = z' := by omega
    obtain ⟨resources, found, read⟩ := (Document.ofText?_eq_some_iff object).mp read
    obtain ⟨here, below⟩ := no_array resources (found ▸ List.mem_singleton_self _)
    obtain ⟨inner, object, search, found', read⟩ := (Document.ofResources?_eq_some_iff here).mp read
    have below := below inner object search (found' ▸ List.mem_singleton_self _)
    obtain ⟨fields, object', remaining, -, reset⟩ := (Document.ofSearch?_eq_some_iff below).mp read
    exact ⟨resources, inner, search, fields, found, object, found', object', remaining, bounds,
      reset⟩
  · rintro ⟨resources, inner, search, fields, found, object', found', object'', remaining, bounds,
      reset⟩
    obtain ⟨here, below⟩ := no_array resources (found ▸ List.mem_singleton_self _)
    have below := below inner object' search (found' ▸ List.mem_singleton_self _)
    have half : Nat.pow 2 63 = 9223372036854775808 := rfl
    have read := (Document.ofSearch?_eq_some_iff below).mpr
      ⟨fields, object'', remaining, by omega, reset⟩
    have read := (Document.ofResources?_eq_some_iff here).mpr ⟨inner, object', search, found', read⟩
    exact ⟨r, z, (Document.ofText?_eq_some_iff object).mpr ⟨resources, found, read⟩, bounds, rfl⟩

theorem windowOfBody_eq_unreadable (h : ∀ w, windowOfBody body ≠ .ok w) :
    ∃ why, windowOfBody body = .error (.unreadable why) :=
  (windowOfBody_cases body).resolve_left fun ⟨w, found⟩ => h w found

end Bodies

/-! ## Responses -/

section Responses

variable {client : Http.Client} {server : Http.Server} {base : String} {n status : Nat}
  {headers : Http.Headers} {bytes : List UInt8}

theorem isSuccess_iff : Http.isSuccess status = true ↔ 200 ≤ status ∧ status ≤ 299 := by
  rw [Http.isSuccess, decide_eq_true_eq]
  omega

theorem answerOf_limited_iff {address : String} {now : Instant} :
    Limited status headers
      ↔ ∀ body, answerOf client ⟨status, headers, body⟩ address now = .ok (.ofLimit headers now) := by
  constructor
  · intro limited body
    exact if_pos (isLimit_iff.mpr limited)
  · -- Without the signs of a limit, nothing is found where the body is missing.
    intro h
    by_contra unlimited
    rw [← isLimit_iff] at unlimited
    have missing := h none
    rw [answerOf, if_neg unlimited] at missing
    split at missing
    · cases missing
    · cases missing

theorem probe_of_limited
    (completed : (probeTransfer client server base n).result = .ok ⟨status, headers, some bytes⟩)
    (limited : Limited status headers) (now : Instant) :
    probe client server base n now = .ok (.ofLimit headers now) := by
  simp only [probe, completed, answerOf, if_pos (isLimit_iff.mpr limited)]

theorem probe_of_unlimited
    (completed : (probeTransfer client server base n).result = .ok ⟨status, headers, some bytes⟩)
    (unlimited : ¬ Limited status headers) (now : Instant) :
    probe client server base n now = if 200 ≤ status ∧ status ≤ 299
      then windowOfBody (client.decode headers bytes)
      else .error (.badStatus status (excerpt (client.decode headers bytes))) := by
  rw [← isLimit_iff] at unlimited
  simp only [probe, completed, answerOf, if_neg unlimited, isSuccess_iff, Http.Client.text?,
    Option.map_some, Option.getD_some, ite_not]

/-- After an exhausted window the wait goes on with all of its delays, unless there is no sleep until
the reset. -/
theorem awaitFrom_of_exhausted {pace : Pace} {b : Backoff} {p : Probe} {rest : List Probe}
    {run : Run} {w : Window} (answer : p run.now = .ok w) (exhausted : w.isExhausted = true) :
    (∀ d, pace.patience.sleep? w.resetsAt run.now = some d → ∃ waited,
      awaitFrom pace b (p :: rest) run = await pace rest waited ∧ waited.now = run.now.plus d)
    ∧ (pace.patience.sleep? w.resetsAt run.now = none →
      awaitFrom pace b (p :: rest) run = .overflowed w (run.probe (some w.remaining)) rest) := by
  refine ⟨fun d slept => ⟨_, awaitFrom_of_slept answer exhausted slept, ?_⟩,
    awaitFrom_of_overflow answer exhausted⟩
  show (⟨run.began.nanos + ((run.elapsed.nanos + d.nanos : Nat) : Int)⟩ : Instant)
    = ⟨run.began.nanos + run.elapsed.nanos + d.nanos⟩
  rw [Int.natCast_add, Int.add_assoc]

/-- What a probe answers when a response has come in completely. -/
theorem probe_exact
    (completed : (probeTransfer client server base n).result = .ok ⟨status, headers, some bytes⟩)
    (now : Instant) :
    let text := client.decode headers bytes
    let answer := probe client server base n now
    let limit := Window.ofLimit headers now
    (Limited status headers
      ↔ ∀ body, answerOf client ⟨status, headers, body⟩ (probeAddress base) now = .ok limit)
    ∧ (Limited status headers →
      answer = .ok limit ∧ limit.isExhausted = true
        ∧ ∀ pace b rest run, run.now = now →
          let waited := awaitFrom pace b (probe client server base n :: rest) run
          (∀ d, pace.patience.sleep? limit.resetsAt now = some d → ∃ later,
            waited = await pace rest later ∧ later.now = now.plus d)
          ∧ (pace.patience.sleep? limit.resetsAt now = none →
            waited = .overflowed limit (run.probe (some 0)) rest))
    ∧ (¬ Limited status headers → ¬ (200 ≤ status ∧ status ≤ 299) →
      ∃ e, answer = .error (.badStatus status e) ∧ IsExcerpt e text)
    ∧ (¬ Limited status headers → 200 ≤ status ∧ status ≤ 299 →
      (∀ members, IsObject members text.toList → NoArray members →
        (∀ r z, answer = .ok ⟨r, .ofSeconds z⟩ ↔ Finds members r z)
          ∧ ((∀ r z, ¬ Finds members r z) → ∃ why, answer = .error (.unreadable why)))
      ∧ (¬ IsJson text.toList → ∃ why, answer = .error (.unreadable why))) := by
  intro text answer limit
  refine ⟨?_, fun limited => ?_, fun unlimited failed => ?_, fun unlimited successful => ?_⟩
  · exact answerOf_limited_iff
  · have exhausted := probe_of_limited completed limited
    refine ⟨exhausted now, rfl, fun pace b rest run here => ?_⟩
    subst here
    exact awaitFrom_of_exhausted (exhausted run.now) rfl
  · refine ⟨excerpt text, ?_, isExcerpt_excerpt text⟩
    exact (probe_of_unlimited completed unlimited now).trans (if_neg failed)
  · have found : answer = windowOfBody text :=
      (probe_of_unlimited completed unlimited now).trans (if_pos successful)
    rw [found]
    refine ⟨fun members object no_array => ⟨fun r z => windowOfBody_object object no_array,
      fun none => ?_⟩, fun no_json => ?_⟩
    · refine windowOfBody_eq_unreadable fun w ok => ?_
      obtain ⟨r, z, -, -, rfl⟩ := windowOfBody_eq_ok_iff.mp ok
      exact none r z ((windowOfBody_object object no_array).mp ok)
    · refine windowOfBody_eq_unreadable fun w ok => ?_
      obtain ⟨r, z, read, -⟩ := windowOfBody_eq_ok_iff.mp ok
      rw [Document.ofText?, ofText?_eq_none no_json] at read
      cases read

/-- The numbers of the searches are found among others, below a name that is written with an
escape. -/
theorem probe_exact_nested :
    let fields := "\x7b\"reset\":-1,\"used\":1e400,\"remaining\":18446744073709551615\x7d"
    let resources := "\x7b\"core\":[],\"se\\u0061rch\": " ++ fields ++ "\x7d"
    let body := "\x7b\"resources\" : " ++ resources ++ ",\"rate\":null\x7d"
    let headers : Http.Headers := [⟨"X-RateLimit-Remaining", Text.bytes "0"⟩]
    let server : Http.Server := fun _ _ => .answered ⟨200, headers, Text.bytes body⟩
    let client : Http.Client :=
      { authorization := "token secret", userAgent := "census"
        decode := fun _ bytes => Text.lenient bytes }
    (probeTransfer client server "http://api" 0).result = .ok ⟨200, headers, some (Text.bytes body)⟩
      ∧ probe client server "http://api" 0 ⟨0⟩ = .ok ⟨18446744073709551615, .ofSeconds (-1)⟩ := by
  intro fields resources body headers server client
  have completed : (probeTransfer client server "http://api" 0).result
      = .ok ⟨200, headers, some (Text.bytes body)⟩ := by
    decide +kernel
  have read : client.decode headers (Text.bytes body) = body := by decide +kernel
  obtain ⟨-, -, -, successful⟩ := probe_exact completed ⟨0⟩
  obtain ⟨by_members, -⟩ := successful (by decide +kernel) (by decide)
  have top : IsObject [("resources", resources.toList), ("rate", "null".toList)] body.toList := by
    decide +kernel
  have inner : IsObject [("core", "[]".toList), ("search", fields.toList)] resources.toList := by
    decide +kernel
  have bucket : IsObject [("reset", "-1".toList), ("used", "1e400".toList),
      ("remaining", "18446744073709551615".toList)] fields.toList := by
    decide +kernel
  rw [read] at by_members
  have finds : Finds [("resources", resources.toList), ("rate", "null".toList)]
      18446744073709551615 (-1) :=
    ⟨_, _, _, _, rfl, inner, rfl, bucket, by decide +kernel, by decide, by decide +kernel⟩
  have no_array : NoArray [("resources", resources.toList), ("rate", "null".toList)] := by
    intro raw mem
    obtain rfl := List.mem_singleton.mp mem
    refine ⟨fun items => inner.not_isArray, fun members object search mem => ?_⟩
    obtain rfl := inner.unique object
    obtain rfl := List.mem_singleton.mp mem
    exact fun items => bucket.not_isArray
  exact ⟨completed, ((by_members _ top no_array).1 _ _).mpr finds⟩

end Responses

end Quota
end Census
