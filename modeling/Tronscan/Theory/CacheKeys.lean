import Tronscan.Api.Listing

/-!
# What a Cache Key Tells

An answer, the total and the page, is cached under a key made of the parameters
of the request, and served to every request with the same key. That is sound if
equal keys come with equal answers. The other key of a request, that of the total,
has no say in this.

They do not. The key has the names of the parameters in lower case, and nothing
between one parameter and the next. The answer is computed from the parameters as
they were sent, by name. So `?to=X`, which selects the transfers to `X`, and
`?TO=X`, which selects all of them, have the same key, and the first of the two
to come decides what both are told. So it is for `?count=1` and `?COUNT=1`, of which
only the first is told a total.

What an answer depends on is the parameters its endpoint reads. Requests that
agree on these have the same answer on every database, whatever else they send
and in whatever order. So a key is sound for two requests if it tells them apart
or they agree on what is read. Conversely, requests that page from the start and
are answered alike keep the same rows.

## Main definitions

* `ReadAlike`: Two requests agree on what an endpoint reads.
* `KeysSound`: If their keys are equal, so are their answers.
* `Listing.keeps`: A request keeps a row.

## Theorems

* `ReadAlike.compute_eq`: What is read decides the answer.
* `Listing.keeps_congr_of_compute`: The answer decides which rows are kept.
* `keysSound_of_readAlike`: When a key is sound.
* `not_keysSound_upperCase`: A key is unsound in general.
-/

namespace Tronscan

/-- Two requests agree on the parameters that an endpoint reads: those it has
    filters for, and those that sort, page and count. -/
structure ReadAlike (filterNames : List String) (request request' : Request) : Prop where
  filters : ∀ name ∈ filterNames, request.value name = request'.value name
  navigation : ∀ name ∈ BaseApi.navParams, request.getQueryString name = request'.getQueryString name

instance (filterNames : List String) (request request' : Request) :
    Decidable (ReadAlike filterNames request request') :=
  decidable_of_iff ((∀ name ∈ filterNames, request.value name = request'.value name) ∧
      ∀ name ∈ BaseApi.navParams, request.getQueryString name = request'.getQueryString name)
    ⟨fun h => ⟨h.1, h.2⟩, fun h => ⟨h.filters, h.navigation⟩⟩

/-- Requests whose answers are cached under the same key are answered alike, whatever the
    database. -/
def KeysSound {ρ : Type} (redisKeys : Request → RedisKeys)
    (findAll : Request → Database → Option (Nat × List ρ)) (request request' : Request) : Prop :=
  (redisKeys request).query = (redisKeys request').query →
    ∀ db, findAll request db = findAll request' db

variable [Platform] {ρ : Type} {listing : Listing ρ} {request request' : Request}

theorem ReadAlike.compute_eq {filterNames : List String}
    (h : ReadAlike filterNames request request')
    (hskip : ∀ name value, name ∉ filterNames →
      listing.filterBy (name, value) = some fun _ => true) (rows : List ρ) :
    listing.compute request rows = listing.compute request' rows := by
  refine Listing.compute_congr hskip h.filters (fun name hname => h.navigation name ?_) ?_ rows
  · simp only [List.mem_cons, List.not_mem_nil, or_false] at hname
    rcases hname with rfl | rfl | rfl <;> decide
  · rw [includeCount, includeCount, h.navigation "count" (by decide)]

/-- The filters of a request keep a row. -/
def Listing.keeps (listing : Listing ρ) (request : Request) (row : ρ) : Bool :=
  request.params.all fun param => (listing.filterBy param).any (· row)

omit [Platform] in
theorem sortBy_singleton (column : ρ → Int) (isDescendingOrder : Bool) (row : ρ) :
    sortBy column isDescendingOrder [row] = [row] := by
  cases isDescendingOrder <;> rfl

omit [Platform] in
/-- One row is in order already. -/
theorem sortWithRequest_singleton {sorter : String → Option (ρ → Int)} {sort : List ρ → List ρ}
    (h : sortWithRequest sorter request = some sort) (row : ρ) : sort [row] = [row] := by
  rw [sortWithRequest] at h
  split at h
  · cases h
    rfl
  · rename_i json _
    suffices hfold : ∀ (objs : List String) (query : List ρ → List ρ), query [row] = [row] →
        objs.foldlM (fun query obj => do
          let isDescendingOrder := obj.toList.head? == some '-'
          let property := if isDescendingOrder then String.ofList (obj.toList.drop 1) else obj
          let column ← sorter property
          return fun rows => sortBy column isDescendingOrder (query rows)) query = some sort →
        sort [row] = [row] from hfold (split json) id rfl h
    intro objs
    induction objs with
    | nil =>
        intro query hquery h
        cases h
        exact hquery
    | cons obj objs ih =>
        intro query hquery h
        rcases Option.bind_eq_some_iff.mp h with ⟨query', hquery', h⟩
        rcases Option.bind_eq_some_iff.mp hquery' with ⟨column, _, hquery'⟩
        cases hquery'
        refine ih _ ?_ h
        rw [hquery, sortBy_singleton]

/-- The answer from a table with one row, when the request does not page. -/
theorem Listing.compute_singleton {row : ρ} {answer : Nat × List ρ}
    (hstart : request.getQueryString "start" = none)
    (hlimit : request.getQueryString "limit" = none)
    (h : listing.compute request [row] = some answer) :
    answer.2 = if listing.keeps request row then [row] else [] := by
  rcases Option.bind_eq_some_iff.mp h with ⟨sort, hsort, h⟩
  rcases Option.bind_eq_some_iff.mp h with ⟨filter, hfilter, h⟩
  rcases Option.bind_eq_some_iff.mp h with ⟨limit, hpage, h⟩
  cases h
  have hpage : limit = fun rows => (rows.drop 0).take 100 := by
    rw [limitWithRequest, hstart, hlimit] at hpage
    exact (Option.some.inj hpage).symm
  rw [filterRequest, foldlM_filter] at hfilter
  split at hfilter
  · cases hfilter
    rw [hpage, sortWithRequest_singleton hsort, keeps]
    simp only [id_eq, List.drop_zero, List.filter_singleton]
    cases request.params.all fun param => (listing.filterBy param).any (· row) <;> rfl
  · cases hfilter

/-- Requests that do not page, and that are answered alike from every table with
    one row, keep the same rows. -/
theorem Listing.keeps_congr_of_compute (hstart : request.getQueryString "start" = none)
    (hlimit : request.getQueryString "limit" = none)
    (hstart' : request'.getQueryString "start" = none)
    (hlimit' : request'.getQueryString "limit" = none) {row : ρ}
    (hanswer : (listing.compute request [row]).isSome)
    (h : listing.compute request [row] = listing.compute request' [row]) :
    listing.keeps request row = listing.keeps request' row := by
  rcases Option.isSome_iff_exists.mp hanswer with ⟨answer, hanswer⟩
  have hkeeps := compute_singleton hstart hlimit hanswer
  have hkeeps' := compute_singleton hstart' hlimit' (h ▸ hanswer)
  rw [hkeeps] at hkeeps'
  revert hkeeps'
  cases listing.keeps request row <;> cases listing.keeps request' row <;> simp

/-- The three listings: a key is sound for two requests if it tells them apart or
    they agree on what is read. -/
theorem keysSound_of_readAlike (request request' : Request) :
    ((TransferApi.redisKeys request).query ≠ (TransferApi.redisKeys request').query ∨
        ReadAlike TransferApi.filterNames request request' →
      KeysSound TransferApi.redisKeys TransferApi.getTransfers request request') ∧
    ((TransactionApi.redisKeys request).query ≠ (TransactionApi.redisKeys request').query ∨
        ReadAlike TransactionApi.filterNames request request' →
      KeysSound TransactionApi.redisKeys TransactionApi.getTransactions request request') ∧
    ((BlockApi.redisKeys request).query ≠ (BlockApi.redisKeys request').query ∨
        ReadAlike BlockApi.filterNames request request' →
      KeysSound BlockApi.redisKeys BlockApi.getBlocks request request') := by
  refine ⟨fun h hkeys db => ?_, fun h hkeys db => ?_, fun h hkeys db => ?_⟩
  · rcases h with hne | h
    · exact absurd hkeys hne
    · exact h.compute_eq TransferApi.filterBy_skip db.transfers
  · rcases h with hne | h
    · exact absurd hkeys hne
    · exact h.compute_eq TransactionApi.filterBy_skip db.transactions
  · rcases h with hne | h
    · exact absurd hkeys hne
    · exact h.compute_eq BlockApi.filterBy_skip db.blocks

/-- The property as one would like to have it, of all requests to all endpoints. -/
def AllKeysSound : Prop :=
  ∀ request request' : Request,
    KeysSound TransferApi.redisKeys TransferApi.getTransfers request request' ∧
    KeysSound TransactionApi.redisKeys TransactionApi.getTransactions request request' ∧
    KeysSound BlockApi.redisKeys BlockApi.getBlocks request request'

omit [Platform]

/-- Two requests with the same key that differ in a parameter nobody reads. -/
theorem keysSound_of_readAlike_unread :
    (@TransferApi.redisKeys examplePlatform (exampleRequest "page" "1")).query =
        (@TransferApi.redisKeys examplePlatform (exampleRequest "PAGE" "1")).query ∧
      @KeysSound _ (@TransferApi.redisKeys examplePlatform)
        (@TransferApi.getTransfers examplePlatform)
        (exampleRequest "page" "1") (exampleRequest "PAGE" "1") :=
  ⟨by decide +kernel, (@keysSound_of_readAlike examplePlatform (exampleRequest "page" "1")
    (exampleRequest "PAGE" "1")).1 (Or.inr (by decide))⟩

/-- A database with one transfer, to nobody in particular. -/
def transferDatabase : Database where
  blocks := [⟨0, "", 0, 0, "", "", 0, "", 0, false⟩]
  transfers := [{ transactionHash := "", block := 0, timestamp := 0 }]
  wellFormed := ⟨by decide, by decide, by decide, by decide, by decide⟩

/-- The transfers to `X` and all the transfers are cached under one key. -/
theorem not_keysSound_upperCase : ¬ @AllKeysSound examplePlatform := by
  let _ := examplePlatform
  intro h
  have hkeys : (TransferApi.redisKeys (exampleRequest "to" "X")).query =
      (TransferApi.redisKeys (exampleRequest "TO" "X")).query := by decide +kernel
  have hanswer := (h (exampleRequest "to" "X") (exampleRequest "TO" "X")).1 hkeys transferDatabase
  have hlength : (TransferApi.getTransfers (exampleRequest "to" "X") transferDatabase).map
      (·.2.length) = some 0 := by decide +kernel
  have hlength' : (TransferApi.getTransfers (exampleRequest "TO" "X") transferDatabase).map
      (·.2.length) = some 1 := by decide +kernel
  rw [hanswer, hlength'] at hlength
  cases hlength

end Tronscan
