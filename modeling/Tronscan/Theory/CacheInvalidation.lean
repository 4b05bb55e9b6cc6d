import Tronscan.Api.Cache
import Tronscan.Theory.AddressListing

/-!
# Invalidation Outrun

A full node run drops what is cached for the addresses of its blocks, so that
what is cached when it is through can be computed from the database as it is then.

The removal of an address and the commit of its transfers are steps of different
branches, and there is one removal for all the blocks an address is in. A request
that comes between the removal and the commit computes its answer from the old
rows and stores it, and nothing drops it any more. A request that is under way
when the removal comes stores an old answer after it.

While the removal of a key is still to come it does not matter what the cache has
under it. Afterwards a cached answer has to stay the answer. So a commit must not
change it, and what is stored must be the answer already. For a single step this
is exact.

## Main definitions

* `CacheState.Starts`: A run is about to start, and what is cached is current.
* `CacheEntry.Current`: The cached answer is that of the database.
* `CacheEntry.Pending`: The key is still to be dropped.
* `CacheEvent.Timely`: A step that does not outrun the invalidation.

## Theorems

* `cacheInv_step_iff`: Which steps keep what is cached current or pending.
* `CacheState.Starts.transfers_run`: The transfers a run brings are between addresses it
  cleans.
* `current_of_timely`: Runs of such steps.
* `not_alwaysCurrent_early`: A removal before the commit.
-/

namespace Tronscan

open BlockImporter

variable [Platform]

/-- The answer computed from the database is the cached one. -/
def CacheEntry.Current (db : Database) (entry : CacheEntry) : Prop :=
  TransferApi.getTransfers entry.request db = some entry.answer

/-- An address whose removal is still to come matches the key. -/
def CacheEntry.Pending (addresses : List String) (entry : CacheEntry) : Prop :=
  ∃ address ∈ addresses, matchesAddress address entry.key = true

/-- What is cached and has not expired is current, or its removal is still to come. -/
def CacheInv (s : CacheState) : Prop :=
  ∀ entry ∈ s.entries, s.clock < entry.expires →
    entry.Pending s.addresses ∨ entry.Current s.db

/-- A full node run of the blocks is about to start, and what is cached is
    current. -/
structure CacheState.Starts [Codec] (confirmBlocks : Bool) (blocks : List Block)
    (s : CacheState) : Prop where
  queries : s.queries = fullNodeQueries confirmBlocks blocks
  addresses : s.addresses = blockAddresses blocks
  current : ∀ entry ∈ s.entries, s.clock < entry.expires → entry.Current s.db

/-- The answer a request has computed and not stored. -/
def FetchPhase.answer : FetchPhase → Option (Nat × List TransferModel)
  | .computed answer => some answer
  | _ => none

/-- A batch changes no cached answer, and what is stored is the answer, unless the
    removal of its key is still to come. -/
def CacheEvent.Timely (s : CacheState) : CacheEvent → Prop
  | .commit size => ∀ db ∈ execQueries (s.queries.take size) s.db,
      ∀ entry ∈ s.entries, s.clock < entry.expires → entry.Pending s.addresses ∨
        TransferApi.getTransfers entry.request db = TransferApi.getTransfers entry.request s.db
  | .store i => ∀ fetch ∈ s.fetches[i]?, ∀ answer ∈ fetch.phase.answer,
      (∃ address ∈ s.addresses, matchesAddress address fetch.request.key = true) ∨
        TransferApi.getTransfers fetch.request s.db = some answer
  | _ => True

instance (db : Database) (entry : CacheEntry) : Decidable (entry.Current db) :=
  inferInstanceAs (Decidable (TransferApi.getTransfers entry.request db = some entry.answer))

instance (addresses : List String) (entry : CacheEntry) : Decidable (entry.Pending addresses) :=
  inferInstanceAs (Decidable (∃ address ∈ addresses, matchesAddress address entry.key = true))

instance (s : CacheState) : DecidablePred (CacheEvent.Timely s)
  | .commit size => inferInstanceAs (Decidable (∀ db ∈ execQueries (s.queries.take size) s.db, _))
  | .store i => inferInstanceAs (Decidable (∀ fetch ∈ s.fetches[i]?, _))
  | .fail _ | .remove _ | .lookup _ | .count _ | .read _ | .wait _ =>
      inferInstanceAs (Decidable True)

section Steps

variable {s t : CacheState} {e : CacheEvent}

theorem cacheInv_commit_iff {size : Nat} (hI : CacheInv s)
    (h : cacheStep s (.commit size) = some t) :
    CacheInv t ↔ CacheEvent.Timely s (.commit size) := by
  rcases cacheStep_commit h with ⟨db, hdb, rfl⟩
  constructor
  · intro hcurrent db' hdb' entry hentry hclock
    cases hdb.symm.trans hdb'
    rcases hcurrent entry hentry hclock with hpending | hnew
    · exact Or.inl hpending
    · rcases hI entry hentry hclock with hpending | hold
      · exact Or.inl hpending
      · exact Or.inr (hnew.trans hold.symm)
  · intro htimely entry hentry hclock
    rcases htimely db hdb entry hentry hclock with hpending | hsame
    · exact Or.inl hpending
    · exact (hI entry hentry hclock).imp_right hsame.trans

theorem cacheInv_store_iff {i : Nat} (hI : CacheInv s) (h : cacheStep s (.store i) = some t) :
    CacheInv t ↔ CacheEvent.Timely s (.store i) := by
  rcases cacheStep_store h with ⟨fetch, answer, fetches, hfetch, hphase, rfl⟩
  constructor
  · intro hcurrent fetch' hfetch' answer' hanswer'
    cases hfetch.symm.trans hfetch'
    rw [hphase] at hanswer'
    cases hanswer'
    -- What has just been stored has not expired.
    exact hcurrent _ (Lib.mem_upsert.mpr (Or.inl rfl)) (by simp only; omega)
  · intro htimely entry hentry hclock
    rcases Lib.mem_upsert.mp hentry with rfl | ⟨hentry, _⟩
    · exact htimely fetch hfetch answer (by rw [hphase]; rfl)
    · exact hI entry hentry hclock

/-- A removal drops all it was pending for. -/
theorem cacheInv_remove {address : String} (hI : CacheInv s)
    (h : cacheStep s (.remove address) = some t) : CacheInv t := by
  rcases cacheStep_remove h with ⟨hmem, rfl⟩
  intro entry hentry hclock
  rcases List.mem_filter.mp hentry with ⟨hentry, hnot⟩
  rcases hI entry hentry hclock with ⟨address', haddress', hmatch⟩ | hcurrent
  · have hother : address' ≠ address := by
      rintro rfl
      rw [hmatch] at hnot
      cases hnot
    exact Or.inl ⟨address', (List.mem_erase_of_ne hother).mpr haddress', hmatch⟩
  · exact Or.inr hcurrent

/-- The steps that keep what is cached current or pending. -/
theorem cacheInv_step_iff (hI : CacheInv s) (h : cacheStep s e = some t) :
    CacheInv t ↔ e.Timely s := by
  cases e with
  | commit size => exact cacheInv_commit_iff hI h
  | store i => exact cacheInv_store_iff hI h
  | remove address => exact iff_of_true (cacheInv_remove hI h) trivial
  | fail size =>
      cases h
      exact iff_of_true hI trivial
  | lookup request =>
      rcases cacheStep_lookup h with ⟨fetches, rfl⟩
      exact iff_of_true hI trivial
  | count i =>
      rcases cacheStep_count h with ⟨totals, fetches, rfl⟩
      exact iff_of_true hI trivial
  | read i =>
      rcases cacheStep_read h with ⟨fetches, rfl⟩
      exact iff_of_true hI trivial
  | wait duration =>
      cases h
      refine iff_of_true (fun entry hentry hclock => hI entry hentry ?_) trivial
      have hlater : s.clock + duration < entry.expires := hclock
      omega

end Steps

section Addresses

variable [Codec] {c : Bool} {blocks : List Block}

omit [Platform] in
/-- A transfer of a block is between addresses of one of its contracts. -/
theorem addresses_of_transfer {block : Block} {e : Extracted} (he : extract block = .ok e)
    {row : TransferModel} (hrow : row ∈ e.transfers) :
    ∃ tc ∈ block.transactionContracts, ∃ addresses,
      ContractUtils.getAddresses tc.2 = .ok addresses ∧
        row.transferFromAddress ∈ addresses ∧ row.transferToAddress ∈ addresses := by
  rcases Lib.bind_ok_iff.mp he with ⟨rows, -, he⟩
  rcases Lib.bind_ok_iff.mp he with ⟨models, hmodels, he⟩
  cases he
  rcases List.mem_filterMap.mp hrow with ⟨model, hmodel, htransfer⟩
  rcases Lib.mapM_ok_mem hmodels (List.reduceOption_mem_iff.mp hmodel) with ⟨tc, htc, hmodel⟩
  refine ⟨tc, htc, ?_⟩
  rcases Lib.bind_ok_iff.mp hmodel with ⟨message, hmessage, hmodel⟩
  simp only [ContractUtils.getAddresses, ContractUtils.getOwner, ContractUtils.getTo, hmessage]
  -- Only transfers, of the coin or of a token, have a row.
  cases message with
  | transfer m | transferAsset m =>
      cases hmodel
      cases htransfer
      exact ⟨_, rfl, List.mem_cons_self, List.mem_cons_of_mem _ (List.mem_singleton_self _)⟩
  | _ => cases hmodel <;> cases htransfer

omit [Platform] in
/-- The transfers a run inserts are between addresses of its blocks. -/
theorem mem_blockAddresses_of_transfer {row : TransferModel}
    (h : .insertTransfer row ∈ fullNodeQueries c blocks) :
    row.transferFromAddress ∈ blockAddresses blocks ∧
      row.transferToAddress ∈ blockAddresses blocks := by
  obtain ⟨block, hblock, e, he, hq⟩ := mem_fullNodeQueries.mp h
  have hmem := Query.mem_transferRow.mpr hq
  rw [(e.fullNodeQueries_rows c).2.2.1] at hmem
  obtain ⟨r, hr, rfl⟩ := List.mem_map.mp hmem
  obtain ⟨tc, htc, addresses, haddresses, hfrom, hto⟩ := addresses_of_transfer he hr
  exact ⟨mem_blockAddresses hblock htc haddresses hfrom, mem_blockAddresses hblock htc haddresses hto⟩

/-- So at any moment of a run the transfers that have come in are between addresses that
    were to be cleaned when it started. -/
theorem CacheState.Starts.transfers_run {s t : CacheState} {events : List CacheEvent}
    (hstart : s.Starts c blocks) (hrun : Lib.runFrom cacheStep s events = some t) :
    ∀ row ∈ t.db.transfers, row ∈ s.db.transfers ∨
      (row.transferFromAddress ∈ s.addresses ∧ row.transferToAddress ∈ s.addresses) := by
  have hinv := Lib.invariant_of_step
    (I := fun u : CacheState => (∀ q ∈ u.queries, q ∈ fullNodeQueries c blocks) ∧
      ∀ row ∈ u.db.transfers, row ∈ s.db.transfers ∨
        (row.transferFromAddress ∈ s.addresses ∧ row.transferToAddress ∈ s.addresses))
    ?_ s t events ⟨fun q hq => hstart.queries ▸ hq, fun row hrow => Or.inl hrow⟩ hrun
  · exact hinv.2
  · rintro u e v ⟨hqueries, htransfers⟩ h
    cases e with
    | commit size =>
        rcases cacheStep_commit h with ⟨db, hdb, rfl⟩
        have hbatch : ∀ q ∈ u.queries.take size, q ∈ fullNodeQueries c blocks := fun q hq =>
          hqueries q (List.mem_of_mem_take hq)
        refine ⟨fun q hq => hqueries q (List.mem_of_mem_drop hq), fun row hrow => ?_⟩
        have hrows := execQueries_import (fun q hq => isImport_fullNodeQueries q (hbatch q hq)) hdb
        rw [show db.transfers = _ from hrows.2.2.1] at hrow
        rcases List.mem_append.mp hrow with hrow | hrow
        · exact htransfers row hrow
        · rw [hstart.addresses]
          exact Or.inr (mem_blockAddresses_of_transfer (hbatch _ (Query.mem_transferRow.mp hrow)))
    | fail size =>
        cases h
        exact ⟨fun q hq => hqueries q (List.mem_of_mem_drop hq), htransfers⟩
    | remove address =>
        rcases cacheStep_remove h with ⟨-, rfl⟩
        exact ⟨hqueries, htransfers⟩
    | lookup request =>
        rcases cacheStep_lookup h with ⟨fetches, rfl⟩
        exact ⟨hqueries, htransfers⟩
    | count i =>
        rcases cacheStep_count h with ⟨totals, fetches, rfl⟩
        exact ⟨hqueries, htransfers⟩
    | read i =>
        rcases cacheStep_read h with ⟨fetches, rfl⟩
        exact ⟨hqueries, htransfers⟩
    | store i =>
        rcases cacheStep_store h with ⟨fetch, answer, fetches, -, -, rfl⟩
        exact ⟨hqueries, htransfers⟩
    | wait duration =>
        cases h
        exact ⟨hqueries, htransfers⟩

end Addresses

/-- When both branches are through, what is cached and has not expired is what the
    database answers. -/
theorem current_of_timely [Codec] {c : Bool} {blocks : List Block} {s t : CacheState}
    {events : List CacheEvent} (hstart : s.Starts c blocks)
    (htimely : Lib.Along cacheStep (fun s e => e.Timely s) s events)
    (hrun : Lib.runFrom cacheStep s events = some t) (haddresses : t.addresses = []) :
    ∀ entry ∈ t.entries, t.clock < entry.expires → entry.Current t.db := by
  have hI : CacheInv t :=
    Lib.invariant_along (fun s e t hI htimely h => (cacheInv_step_iff hI h).mpr htimely)
      s t events (fun entry hentry hclock => Or.inr (hstart.current entry hentry hclock))
      htimely hrun
  intro entry hentry hclock
  rcases hI entry hentry hclock with ⟨address, haddress, _⟩ | hcurrent
  · -- Nothing is pending.
    rw [haddresses] at haddress
    cases haddress
  · exact hcurrent

/-- The property as one would like to have it. -/
def AlwaysCurrent [Codec] : Prop :=
  ∀ (c : Bool) (blocks : List Block) (s t : CacheState) (events : List CacheEvent),
    s.Starts c blocks → Lib.runFrom cacheStep s events = some t → t.queries = [] →
    t.addresses = [] → ∀ entry ∈ t.entries, t.clock < entry.expires → entry.Current t.db

omit [Platform]

/-- A run of two blocks with one transfer is about to start, on a fresh database
    and with nothing cached. -/
def cacheStart : CacheState where
  clock := 0
  db := Database.empty
  queries := @fullNodeQueries exampleCodec false (listedChain exampleTransaction)
  addresses := @blockAddresses exampleCodec (listedChain exampleTransaction)
  entries := []
  totals := []
  fetches := []

/-- The owner of the transfer. -/
def cachedAddress : String := @encodeAddress exampleCodec exampleOwner

/-- A request for its transfers, up to where the response is stored. -/
def cachedRequest : List CacheEvent :=
  [.lookup (exampleRequest "address" cachedAddress), .count 0, .read 0, .store 0]

/-- The other address of the transfer. -/
def recipientAddress : String := @encodeAddress exampleCodec exampleRecipient

/-- The request, then the commit, then the removals. -/
def lateRemoval : List CacheEvent :=
  cachedRequest ++ [.commit 4, .remove recipientAddress, .remove cachedAddress]

/-- The removals, then the request, then the commit. -/
def earlyRemoval : List CacheEvent :=
  [.remove recipientAddress, .remove cachedAddress] ++ cachedRequest ++ [.commit 4]

theorem cacheStart_starts : @CacheState.Starts examplePlatform exampleCodec false
    (listedChain exampleTransaction) cacheStart := by
  refine @CacheState.Starts.mk examplePlatform exampleCodec _ _ _ ?_ ?_ ?_
  · rw [cacheStart]
  · rw [cacheStart]
  · intro entry hentry
    rw [cacheStart] at hentry
    exact absurd hentry List.not_mem_nil

theorem lateRemoval_timely :
    @Lib.Along _ _ (@cacheStep examplePlatform) (fun s e => @CacheEvent.Timely examplePlatform s e)
      cacheStart lateRemoval := by
  decide +kernel

/-- The answer computed before the commit is dropped after it. -/
theorem current_of_timely_late : ∃ t,
    Lib.runFrom (@cacheStep examplePlatform) cacheStart lateRemoval = some t ∧
    ∀ entry ∈ t.entries, t.clock < entry.expires → @CacheEntry.Current examplePlatform t.db entry := by
  have hrun : (Lib.runFrom (@cacheStep examplePlatform) cacheStart lateRemoval).map (·.addresses) =
      some [] := by decide +kernel
  rcases Option.map_eq_some_iff.mp hrun with ⟨t, hrun, haddresses⟩
  exact ⟨t, hrun, @current_of_timely examplePlatform exampleCodec false
    (listedChain exampleTransaction) cacheStart t lateRemoval cacheStart_starts
    lateRemoval_timely hrun haddresses⟩

/-- The answer computed before the commit stays. -/
theorem not_alwaysCurrent_early : ¬ @AlwaysCurrent examplePlatform exampleCodec := by
  intro h
  have hrun : (Lib.runFrom (@cacheStep examplePlatform) cacheStart earlyRemoval).map (fun t =>
      (t.queries.length, t.addresses.length, t.entries.any fun entry =>
        decide (t.clock < entry.expires) && !decide (@CacheEntry.Current examplePlatform t.db entry)))
      = some (0, 0, true) := by decide +kernel
  rcases Option.map_eq_some_iff.mp hrun with ⟨t, hrun, hend⟩
  simp only [Prod.mk.injEq, List.length_eq_zero_iff, List.any_eq_true, Bool.and_eq_true,
    Bool.not_eq_true', decide_eq_true_eq, decide_eq_false_iff_not] at hend
  rcases hend with ⟨hqueries, haddresses, entry, hentry, hclock, hstale⟩
  exact hstale (h false (listedChain exampleTransaction) cacheStart t earlyRemoval
    cacheStart_starts hrun hqueries haddresses entry hentry hclock)

end Tronscan
