import Tronscan.Api.Listing
import Tronscan.Importer.Rows
import Tronscan.Importer.History

/-!
# The Cache of Transfers

A full node run with `cleanRedisCache` beside the requests for the transfers of an
address.

The run has two branches. One commits the queries of its blocks, in batches. The
other takes the addresses of the blocks, each once, and drops what is cached for
them: all keys that begin with `address/`, the address and a slash.

A request for an address looks its key up in the cache. If it finds nothing it
goes on in steps: it gets the total, from a cache of totals or the database, it
gets the page from the database, and it stores both for ten minutes. A total is
kept for one minute.

The branches and the requests proceed independently, and time passes.

## Main definitions

* `Listing.readTotals`, `Listing.readQuery`: The two halves of an answer.
* `CacheEntry`: A cached answer, with the request it answers.
* `CacheState`, `CacheEvent`, `cacheStep`: The run, the requests and the cache.

## Theorems

* `Listing.compute_eq`: The halves make an answer.
* `cacheStep_commit` and its kin: What each event does.
-/

namespace Tronscan

section Halves

variable [Platform] {ρ : Type} (listing : Listing ρ) (request : Request) (rows : List ρ)

/-- The number of rows that pass the filters. -/
def Listing.readTotals : Option Nat := do
  let sort ← sortWithRequest listing.sorter request
  let filter ← filterRequest listing.filterBy request
  return (filter (sort rows)).length

/-- The page. -/
def Listing.readQuery : Option (List ρ) := do
  let sort ← sortWithRequest listing.sorter request
  let filter ← filterRequest listing.filterBy request
  let limit ← limitWithRequest request
  return limit (filter (sort rows))

theorem Listing.compute_eq :
    listing.compute request rows = (do
      let total ← if includeCount request then listing.readTotals request rows else some 0
      let data ← listing.readQuery request rows
      return (total, data)) := by
  rw [compute, readTotals, readQuery]
  cases sortWithRequest listing.sorter request with
  | none => cases includeCount request <;> rfl
  | some sort =>
      cases filterRequest listing.filterBy request with
      | none => cases includeCount request <;> rfl
      | some filter => cases limitWithRequest request <;> cases includeCount request <;> rfl

end Halves

/-- An answer in the cache, and when it expires. The request it was computed for
    is not stored; the key stands for it. -/
structure CacheEntry where
  key : String
  request : Request
  answer : Nat × List TransferModel
  expires : Int

/-- A total in the cache. -/
structure TotalEntry where
  key : String
  total : Nat
  expires : Int

/-- How far a request has got that found nothing in the cache. -/
inductive FetchPhase where
  | missed
  | counted (total : Nat)
  | computed (answer : Nat × List TransferModel)
  | stored

/-- A request that is being answered, and how far it is. -/
structure Fetch where
  request : Request
  phase : FetchPhase

/-- The database and the cache, the queries the run has still to commit, the
    addresses it has still to clean, and the requests. -/
structure CacheState where
  clock : Int
  db : Database
  queries : List Query
  addresses : List String
  entries : List CacheEntry
  totals : List TotalEntry
  fetches : List Fetch

/-- What can happen to the database and to the caches. -/
inductive CacheEvent where
  /-- The next batch commits. -/
  | commit (size : Nat)
  /-- The next batch fails. -/
  | fail (size : Nat)
  /-- What is cached for an address is dropped. -/
  | remove (address : String)
  /-- A request is looked up. -/
  | lookup (request : Request)
  /-- A request gets its total. -/
  | count (i : Nat)
  /-- A request gets its page. -/
  | read (i : Nat)
  /-- A request stores its answer. -/
  | store (i : Nat)
  /-- Time passes. -/
  | wait (duration : Nat)

/-- `address/$address/*` -/
def matchesAddress (address key : String) : Bool :=
  ("address/" ++ address ++ "/").toList.isPrefixOf key.toList

variable [Platform]

/-- The key a response of the transfer listing is cached under. -/
def Request.key (request : Request) : String := (TransferApi.redisKeys request).query

/-- The total of a request: none is asked for, or it is cached, or it is read from
    the database and cached for a minute. -/
def countTotal (s : CacheState) (request : Request) : Option (Nat × List TotalEntry) :=
  match (TransferApi.redisKeys request).total with
  | none => some (0, s.totals)
  | some key =>
      match s.totals.find? fun entry => entry.key == key && decide (s.clock < entry.expires) with
      | some entry => some (entry.total, s.totals)
      | none => do
          let total ← TransferApi.listing.readTotals request s.db.transfers
          return (total, Lib.upsert (·.key) ⟨key, total, s.clock + 60000⟩ s.totals)

/-- One step; none where the event cannot happen. -/
def cacheStep (s : CacheState) : CacheEvent → Option CacheState
  | .commit size =>
      if 0 < size ∧ size ≤ 1000 then
        (execQueries (s.queries.take size) s.db).map fun db =>
          { s with db := db, queries := s.queries.drop size }
      else none
  | .fail size => some { s with queries := s.queries.drop size }
  | .remove address =>
      if address ∈ s.addresses then
        some { s with
          addresses := s.addresses.erase address
          entries := s.entries.filter fun entry => !matchesAddress address entry.key }
      else none
  | .lookup request =>
      if (request.queryParams.lookup "address").isSome then
        if s.entries.any fun entry => entry.key == request.key && decide (s.clock < entry.expires)
        then some s
        else some { s with fetches := s.fetches ++ [⟨request, .missed⟩] }
      else none
  | .count i => do
      let fetch ← s.fetches[i]?
      match fetch.phase with
      | .missed =>
          let (total, totals) ← countTotal s fetch.request
          some { s with
            totals := totals
            fetches := s.fetches.set i { fetch with phase := .counted total } }
      | _ => none
  | .read i => do
      let fetch ← s.fetches[i]?
      match fetch.phase with
      | .counted total =>
          let data ← TransferApi.listing.readQuery fetch.request s.db.transfers
          some { s with fetches := s.fetches.set i { fetch with phase := .computed (total, data) } }
      | _ => none
  | .store i => do
      let fetch ← s.fetches[i]?
      match fetch.phase with
      | .computed answer =>
          some { s with
            entries := Lib.upsert (·.key)
              ⟨fetch.request.key, fetch.request, answer, s.clock + 600000⟩ s.entries
            fetches := s.fetches.set i { fetch with phase := .stored } }
      | _ => none
  | .wait duration => some { s with clock := s.clock + duration }

section Steps

variable {s t : CacheState} {size i : Nat} {address : String} {request : Request}

theorem cacheStep_commit (h : cacheStep s (.commit size) = some t) :
    ∃ db, execQueries (s.queries.take size) s.db = some db ∧
      t = { s with db := db, queries := s.queries.drop size } := by
  simp only [cacheStep] at h
  split at h
  · rcases Option.map_eq_some_iff.mp h with ⟨db, hdb, rfl⟩
    exact ⟨db, hdb, rfl⟩
  · cases h

theorem cacheStep_remove (h : cacheStep s (.remove address) = some t) :
    address ∈ s.addresses ∧ t = { s with
      addresses := s.addresses.erase address
      entries := s.entries.filter fun entry => !matchesAddress address entry.key } := by
  simp only [cacheStep] at h
  split at h
  · rename_i hmem
    exact ⟨hmem, (Option.some.inj h).symm⟩
  · cases h

theorem cacheStep_lookup (h : cacheStep s (.lookup request) = some t) :
    ∃ fetches, t = { s with fetches := fetches } := by
  simp only [cacheStep] at h
  split at h
  · split at h
    · cases h
      exact ⟨_, rfl⟩
    · cases h
      exact ⟨_, rfl⟩
  · cases h

theorem cacheStep_count (h : cacheStep s (.count i) = some t) :
    ∃ totals fetches, t = { s with totals := totals, fetches := fetches } := by
  rcases Option.bind_eq_some_iff.mp h with ⟨fetch, _, h⟩
  split at h
  · rcases Option.bind_eq_some_iff.mp h with ⟨⟨total, totals⟩, _, h⟩
    cases h
    exact ⟨_, _, rfl⟩
  · cases h

theorem cacheStep_read (h : cacheStep s (.read i) = some t) :
    ∃ fetches, t = { s with fetches := fetches } := by
  rcases Option.bind_eq_some_iff.mp h with ⟨fetch, _, h⟩
  split at h
  · rcases Option.bind_eq_some_iff.mp h with ⟨data, _, h⟩
    cases h
    exact ⟨_, rfl⟩
  · cases h

theorem cacheStep_store (h : cacheStep s (.store i) = some t) :
    ∃ fetch answer fetches, s.fetches[i]? = some fetch ∧ fetch.phase = .computed answer ∧
      t = { s with
        entries := Lib.upsert (·.key)
          ⟨fetch.request.key, fetch.request, answer, s.clock + 600000⟩ s.entries
        fetches := fetches } := by
  rcases Option.bind_eq_some_iff.mp h with ⟨fetch, hfetch, h⟩
  split at h
  · rename_i answer hphase
    cases h
    exact ⟨fetch, answer, _, hfetch, hphase, rfl⟩
  · cases h

end Steps

end Tronscan
