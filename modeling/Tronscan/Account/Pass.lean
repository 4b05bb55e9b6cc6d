import Mathlib.Data.List.Perm.Basic
import Mathlib.Data.List.Perm.Subperm
import Mathlib.Logic.Function.Basic
import Tronscan.Account.Sync

/-!
# A Pass over the Dirty Accounts

`AccountImporter`: the source of the addresses that need a sync, and the flow that
syncs them.

The source is unfolded from nothing, a query at a time, until one comes back empty. A
query is made when the addresses of the last one have all been taken and the flow is
ready for another. The flow has up to eight syncs under way, in any order. One that
fails is repeated, so and so often, and dropped then. What it writes only counts once it
is written, so a query also finds the addresses that are under way.

The rows come in no order, and any 250 of those that are dirty may come back. A row that
has come back and cannot be read makes the query throw, and that is the end of the
stream. The syncs that are under way then go on without it. All the while others mark
addresses, and sync them too.

## Main definitions

* `SourceState`, `PassState`: The source, the accounts, the rest of the last batch, and the
  syncs under way.
* `PassEvent`, `passStep`: What the stream does, and what others do.
* `PassState.Starts`, `PassState.Done`: Where a pass begins and ends.

## Theorems

* `query_iff`: What a query may come back with.
* `passStep_query` and its kin: What each event does.
* `passStep_accounts`: A pass works on the accounts as anybody does.
-/

namespace Tronscan

/-- `parallel` of `buildAddressSynchronizerFlow`. -/
def parallel : Nat := 8

/-- How many calls `FutureUtils.retry` makes after the first, with the backoffs of
    `buildAddressSynchronizerFlow`. -/
def maxRetries : Nat := 8

/-- The source of the addresses: it goes on, a query has come back empty, or one has
    failed. -/
inductive SourceState where
  | reading
  | exhausted
  | failed
deriving DecidableEq

/-- The accounts, the addresses of the last query that are not taken yet, the syncs
    under way, how many calls each of them repeats, and the source. All addresses taken
    so far are kept, and those whose sync has ended with nothing to write or has failed
    for good. -/
structure PassState where
  accounts : AccountState
  queue : List String := []
  running : List Nat := []
  retries : Nat → Nat := fun _ => 0
  source : SourceState := .reading
  started : List String := []
  lost : List String := []

/-- What may happen next. Only `other` is none of the stream's doing. -/
inductive PassEvent where
  | query (addresses : List String)
  /-- The query throws, for a row that it cannot read or for any other reason. -/
  | queryFails
  /-- `syncAddress`, up to the answer of the node. -/
  | start (address : String) (account : Option Account) (now : Int)
  /-- The call has failed, and is repeated. -/
  | retry (sync : Nat) (account : Option Account) (now : Int)
  | build (sync : Nat) (now now' : Int)
  | write (sync : Nat) (now : Int)
  /-- The call that has written is through. -/
  | finish (sync : Nat)
  /-- The account is `null`, and there is nothing to write. -/
  | skip (sync : Nat)
  /-- The last call has failed. The flow drops the address. -/
  | giveUp (sync : Nat)
  | other (event : AccountEvent)

/-- The addresses of the dirty rows. -/
def dirtyAddresses (accounts : List AccountModel) : List String :=
  (dirtyRows accounts).map (·.address)

/-- What a query may come back with: the addresses of 250 dirty rows, or of all of them,
    that can be read. -/
def Selects (accounts : List AccountModel) (addresses : List String) : Prop :=
  (addresses.Nodup ∧ (∀ address ∈ addresses, address ∈ dirtyAddresses accounts) ∧
    addresses.length = min 250 (dirtyAddresses accounts).length) ∧
  ∀ row ∈ dirtyRows accounts, row.address ∈ addresses → row.Readable

instance decidableSelects (accounts : List AccountModel) (addresses : List String) :
    Decidable (Selects accounts addresses) :=
  inferInstanceAs (Decidable (_ ∧ _))

/-- The sync an event of others is about is none of the pass. -/
def AccountEvent.Avoids (running : List Nat) : AccountEvent → Prop
  | .build i _ _ | .write i _ => i ∉ running
  | _ => True

instance AccountEvent.decidableAvoids (running : List Nat) (event : AccountEvent) :
    Decidable (event.Avoids running) := by
  cases event <;> unfold AccountEvent.Avoids <;> infer_instance

/-- The flow asks the source for more. -/
def PassState.Asks (s : PassState) : Prop :=
  s.queue = [] ∧ s.source = .reading ∧ s.running.length < parallel

instance PassState.decidableAsks (s : PassState) : Decidable s.Asks := inferInstanceAs (Decidable (_ ∧ _ ∧ _))

variable [Codec]

/-- What an event does, if it may happen in this state. -/
def passStep (s : PassState) : PassEvent → Option PassState
  | .query addresses =>
      if s.Asks ∧ Selects s.accounts.accounts addresses then
        some { s with
          queue := addresses, source := if addresses = [] then .exhausted else .reading }
      else none
  | .queryFails => if s.Asks then some { s with source := .failed } else none
  | .start address account now =>
      match s.queue with
      | next :: rest =>
          if next = address ∧ s.running.length < parallel then do
            let accounts ← accountStep s.accounts (.read address account now)
            some { s with
              accounts := accounts
              queue := rest
              running := s.accounts.syncs.length :: s.running
              retries := Function.update s.retries s.accounts.syncs.length 0
              started := address :: s.started }
          else none
      | [] => none
  | .retry i account now => do
      let sync ← s.accounts.syncs[i]?
      if i ∈ s.running ∧ s.retries i < maxRetries then do
        let accounts ← accountStep s.accounts (.read sync.address account now)
        some { s with
          accounts := accounts
          running := s.accounts.syncs.length :: s.running.erase i
          retries := Function.update s.retries s.accounts.syncs.length (s.retries i + 1) }
      else none
  | .build i now now' =>
      if i ∈ s.running then
        (accountStep s.accounts (.build i now now')).map fun accounts =>
          { s with accounts := accounts }
      else none
  | .write i now =>
      if i ∈ s.running then
        (accountStep s.accounts (.write i now)).map fun accounts =>
          { s with accounts := accounts }
      else none
  | .finish i => do
      let sync ← s.accounts.syncs[i]?
      match sync.phase with
      | .written _ =>
          if i ∈ s.running then some { s with running := s.running.erase i } else none
      | _ => none
  | .skip i => do
      let sync ← s.accounts.syncs[i]?
      match sync.phase with
      | .read none =>
          if i ∈ s.running then
            some { s with running := s.running.erase i, lost := sync.address :: s.lost }
          else none
      | _ => none
  | .giveUp i => do
      let sync ← s.accounts.syncs[i]?
      if i ∈ s.running ∧ s.retries i = maxRetries then
        some { s with running := s.running.erase i, lost := sync.address :: s.lost }
      else none
  | .other event =>
      if event.Avoids s.running then
        (accountStep s.accounts event).map fun accounts => { s with accounts := accounts }
      else none

section Query

variable {accounts : List AccountModel} {addresses : List String}

omit [Codec] in
/-- The addresses of the rows that `findAddressesWhichNeedSync` finds, are those it may
    come back with when it has the rows in some order. -/
theorem query_iff (hpkey : (accounts.map (·.address)).Nodup) :
    Selects accounts addresses ↔ ∃ rows found, rows.Perm accounts ∧
      findAddressesWhichNeedSync rows = some found ∧ addresses = found.map (·.address) := by
  simp only [findAddressesWhichNeedSync_eq_some]
  unfold Selects dirtyAddresses dirtyRows
  constructor
  · rintro ⟨⟨hnodup, hsubset, hlength⟩, hreadable⟩
    set dirty := accounts.filter fun row => decide row.NeedsSync with hdef
    obtain ⟨taken, htaken, hsublist⟩ := hnodup.subperm hsubset
    obtain ⟨rest, hrest⟩ := hsublist.exists_perm_append
    -- The dirty rows in the order of the addresses, and then all the others.
    have hperm : (addresses ++ rest).Perm (dirty.map (·.address)) :=
      (hrest.trans (htaken.append_right rest)).symm
    obtain ⟨ordered, hmap, hordered⟩ : ∃ ordered : List AccountModel,
        addresses ++ rest = ordered.map (·.address) ∧ ordered.Perm dirty := by
      have hcomp := congrFun (congrFun (List.eq_map_comp_perm AccountModel.address) (addresses ++ rest))
        dirty
      exact hcomp.mpr hperm
    have hall : ∀ row ∈ ordered, decide row.NeedsSync = true := fun row hrow =>
      (List.mem_filter.mp (hordered.subset hrow)).2
    have hlengths := congrArg List.length hmap
    rw [List.length_append, List.length_map, hordered.length_eq] at hlengths
    rw [List.length_map] at hlength
    have hothers : (accounts.filter fun row => !decide row.NeedsSync).filter
        (fun row => decide row.NeedsSync) = [] := by
      rw [List.filter_filter, List.filter_eq_nil_iff]
      simp
    have hfound : addresses = (ordered.take 250).map (·.address) := by
      rw [List.map_take, ← hmap]
      rcases Nat.le_total 250 dirty.length with hle | hle
      · exact (List.take_left' (by omega)).symm
      · have hnil : rest = [] := List.eq_nil_of_length_eq_zero (by omega)
        rw [hnil, List.append_nil]
        exact (List.take_of_length_le (by omega)).symm
    refine ⟨ordered ++ accounts.filter fun row => !decide row.NeedsSync, ordered.take 250, ?_, ?_,
      hfound⟩
    · exact (hordered.append_right _).trans (List.filter_append_perm _ _)
    · rw [List.filter_append, List.filter_eq_self.mpr hall, hothers, List.append_nil]
      refine ⟨fun row hrow => ?_, rfl⟩
      refine hreadable row (hordered.subset (List.mem_of_mem_take hrow)) ?_
      rw [hfound]
      exact List.mem_map.mpr ⟨row, hrow, rfl⟩
  · rintro ⟨rows, found, hperm, ⟨hreadable, rfl⟩, rfl⟩
    have hdirty := hperm.filter fun row => decide row.NeedsSync
    have hkeys := (hperm.map (·.address)).nodup_iff.mpr hpkey
    rw [List.map_take]
    refine ⟨⟨?_, fun address h => ?_, ?_⟩, fun row hrow hmem => ?_⟩
    · exact ((List.take_sublist _ _).trans (List.filter_sublist.map _)).nodup hkeys
    · exact (hdirty.map _).subset (List.mem_of_mem_take h)
    · rw [List.length_take, List.length_map, List.length_map, hdirty.length_eq]
    · rw [← List.map_take] at hmem
      obtain ⟨found, hfound, haddress⟩ := List.mem_map.mp hmem
      -- Rows with one address are one row.
      have hsame : found = row := List.inj_on_of_nodup_map hkeys
        (List.mem_filter.mp (List.mem_of_mem_take hfound)).1 (hperm.symm.subset (List.mem_filter.mp hrow).1)
        haddress
      exact hreadable row (hsame ▸ hfound)

end Query

/-- Nothing has been queried yet. Whoever else is at work on the accounts may be. -/
structure PassState.Starts (s : PassState) : Prop where
  queue : s.queue = []
  running : s.running = []
  source : s.source = .reading
  started : s.started = []
  lost : s.lost = []

/-- The stream has completed. -/
structure PassState.Done (s : PassState) : Prop where
  source : s.source = .exhausted
  queue : s.queue = []
  running : s.running = []

section Steps

variable {s t : PassState} {address : String} {account : Option Account} {i : Nat} {now now' : Int}

theorem passStep_query {addresses : List String} (h : passStep s (.query addresses) = some t) :
    (s.Asks ∧ Selects s.accounts.accounts addresses) ∧
      t = { s with
        queue := addresses, source := if addresses = [] then .exhausted else .reading } := by
  rw [passStep] at h
  split at h
  · rename_i hguard
    exact ⟨hguard, (Option.some.inj h).symm⟩
  · cases h

theorem passStep_queryFails (h : passStep s .queryFails = some t) :
    s.Asks ∧ t = { s with source := .failed } := by
  rw [passStep] at h
  split at h
  · rename_i hasks
    exact ⟨hasks, (Option.some.inj h).symm⟩
  · cases h

theorem passStep_start (h : passStep s (.start address account now) = some t) :
    ∃ rest accounts, s.queue = address :: rest ∧ s.running.length < parallel ∧
      accountStep s.accounts (.read address account now) = some accounts ∧
      t = { s with
        accounts := accounts
        queue := rest
        running := s.accounts.syncs.length :: s.running
        retries := Function.update s.retries s.accounts.syncs.length 0
        started := address :: s.started } := by
  rw [passStep] at h
  split at h
  · rename_i next rest hqueue
    split at h
    · rename_i hguard
      obtain ⟨accounts, haccounts, h⟩ := Option.bind_eq_some_iff.mp h
      exact ⟨rest, accounts, by rw [hqueue, hguard.1], hguard.2, haccounts,
        (Option.some.inj h).symm⟩
    · cases h
  · cases h

theorem passStep_retry (h : passStep s (.retry i account now) = some t) :
    ∃ sync accounts, s.accounts.syncs[i]? = some sync ∧ i ∈ s.running ∧
      s.retries i < maxRetries ∧
      accountStep s.accounts (.read sync.address account now) = some accounts ∧
      t = { s with
        accounts := accounts
        running := s.accounts.syncs.length :: s.running.erase i
        retries := Function.update s.retries s.accounts.syncs.length (s.retries i + 1) } := by
  obtain ⟨sync, hsync, h⟩ := Option.bind_eq_some_iff.mp h
  split at h
  · rename_i hguard
    obtain ⟨accounts, haccounts, h⟩ := Option.bind_eq_some_iff.mp h
    exact ⟨sync, accounts, hsync, hguard.1, hguard.2, haccounts, (Option.some.inj h).symm⟩
  · cases h

theorem passStep_build (h : passStep s (.build i now now') = some t) :
    ∃ accounts, i ∈ s.running ∧ accountStep s.accounts (.build i now now') = some accounts ∧
      t = { s with accounts := accounts } := by
  rw [passStep] at h
  split at h
  · rename_i hmem
    obtain ⟨accounts, haccounts, rfl⟩ := Option.map_eq_some_iff.mp h
    exact ⟨accounts, hmem, haccounts, rfl⟩
  · cases h

theorem passStep_write (h : passStep s (.write i now) = some t) :
    ∃ accounts, i ∈ s.running ∧ accountStep s.accounts (.write i now) = some accounts ∧
      t = { s with accounts := accounts } := by
  rw [passStep] at h
  split at h
  · rename_i hmem
    obtain ⟨accounts, haccounts, rfl⟩ := Option.map_eq_some_iff.mp h
    exact ⟨accounts, hmem, haccounts, rfl⟩
  · cases h

theorem passStep_finish (h : passStep s (.finish i) = some t) :
    ∃ sync now, s.accounts.syncs[i]? = some sync ∧ sync.phase = .written now ∧ i ∈ s.running ∧
      t = { s with running := s.running.erase i } := by
  obtain ⟨sync, hsync, h⟩ := Option.bind_eq_some_iff.mp h
  split at h
  · rename_i now hphase
    split at h
    · rename_i hmem
      exact ⟨sync, now, hsync, hphase, hmem, (Option.some.inj h).symm⟩
    · cases h
  · cases h

theorem passStep_skip (h : passStep s (.skip i) = some t) :
    ∃ sync, s.accounts.syncs[i]? = some sync ∧ sync.phase = .read none ∧ i ∈ s.running ∧
      t = { s with running := s.running.erase i, lost := sync.address :: s.lost } := by
  obtain ⟨sync, hsync, h⟩ := Option.bind_eq_some_iff.mp h
  split at h
  · rename_i hphase
    split at h
    · rename_i hmem
      exact ⟨sync, hsync, hphase, hmem, (Option.some.inj h).symm⟩
    · cases h
  · cases h

theorem passStep_giveUp (h : passStep s (.giveUp i) = some t) :
    ∃ sync, s.accounts.syncs[i]? = some sync ∧ i ∈ s.running ∧ s.retries i = maxRetries ∧
      t = { s with running := s.running.erase i, lost := sync.address :: s.lost } := by
  obtain ⟨sync, hsync, h⟩ := Option.bind_eq_some_iff.mp h
  split at h
  · rename_i hguard
    exact ⟨sync, hsync, hguard.1, hguard.2, (Option.some.inj h).symm⟩
  · cases h

theorem passStep_other {event : AccountEvent} (h : passStep s (.other event) = some t) :
    ∃ accounts, event.Avoids s.running ∧ accountStep s.accounts event = some accounts ∧
      t = { s with accounts := accounts } := by
  rw [passStep] at h
  split at h
  · rename_i havoids
    obtain ⟨accounts, haccounts, rfl⟩ := Option.map_eq_some_iff.mp h
    exact ⟨accounts, havoids, haccounts, rfl⟩
  · cases h

/-- A pass works on the accounts as anybody does, only it marks nothing. -/
theorem passStep_accounts {e : PassEvent} (h : passStep s e = some t) :
    t.accounts = s.accounts ∨ ∃ event, accountStep s.accounts event = some t.accounts ∧
      ∀ address now, event = .mark address now → e = .other (.mark address now) := by
  cases e with
  | query addresses =>
      obtain ⟨-, rfl⟩ := passStep_query h
      exact Or.inl rfl
  | queryFails =>
      obtain ⟨-, rfl⟩ := passStep_queryFails h
      exact Or.inl rfl
  | start address account now =>
      obtain ⟨rest, accounts, -, -, haccounts, rfl⟩ := passStep_start h
      exact Or.inr ⟨_, haccounts, fun _ _ h => by cases h⟩
  | retry i account now =>
      obtain ⟨sync, accounts, -, -, -, haccounts, rfl⟩ := passStep_retry h
      exact Or.inr ⟨_, haccounts, fun _ _ h => by cases h⟩
  | build i now now' =>
      obtain ⟨accounts, -, haccounts, rfl⟩ := passStep_build h
      exact Or.inr ⟨_, haccounts, fun _ _ h => by cases h⟩
  | write i now =>
      obtain ⟨accounts, -, haccounts, rfl⟩ := passStep_write h
      exact Or.inr ⟨_, haccounts, fun _ _ h => by cases h⟩
  | finish i =>
      obtain ⟨sync, now, -, -, -, rfl⟩ := passStep_finish h
      exact Or.inl rfl
  | skip i =>
      obtain ⟨sync, -, -, -, rfl⟩ := passStep_skip h
      exact Or.inl rfl
  | giveUp i =>
      obtain ⟨sync, -, -, -, rfl⟩ := passStep_giveUp h
      exact Or.inl rfl
  | other event =>
      obtain ⟨accounts, -, haccounts, rfl⟩ := passStep_other h
      exact Or.inr ⟨_, haccounts, fun _ _ h => by rw [h]⟩

/-- What is known of the accounts whatever is done with them is known in a pass. -/
theorem invariant_pass {I : AccountState → Prop}
    (hstep : ∀ a e b, I a → accountStep a e = some b → I b) {es : List PassEvent}
    (hI : I s.accounts) (hrun : Lib.runFrom passStep s es = some t) : I t.accounts := by
  refine Lib.invariant_of_step (I := fun u => I u.accounts) (fun u e v hu h => ?_) s t es hI hrun
  rcases passStep_accounts h with hsame | ⟨event, hevent, -⟩
  · rw [hsame]
    exact hu
  · exact hstep u.accounts event v.accounts hu hevent

/-- Only queries change the source. -/
theorem passStep_source {e : PassEvent} (h : passStep s e = some t) :
    t.source = s.source ∨ (∃ addresses, e = .query addresses ∧
      t.source = if addresses = [] then .exhausted else .reading) ∨
      (e = .queryFails ∧ t.source = .failed) := by
  cases e with
  | query addresses =>
      obtain ⟨-, rfl⟩ := passStep_query h
      exact Or.inr (Or.inl ⟨addresses, rfl, rfl⟩)
  | queryFails =>
      obtain ⟨-, rfl⟩ := passStep_queryFails h
      exact Or.inr (Or.inr ⟨rfl, rfl⟩)
  | start address account now =>
      obtain ⟨rest, accounts, -, -, -, rfl⟩ := passStep_start h
      exact Or.inl rfl
  | retry i account now =>
      obtain ⟨sync, accounts, -, -, -, -, rfl⟩ := passStep_retry h
      exact Or.inl rfl
  | build i now now' =>
      obtain ⟨accounts, -, -, rfl⟩ := passStep_build h
      exact Or.inl rfl
  | write i now =>
      obtain ⟨accounts, -, -, rfl⟩ := passStep_write h
      exact Or.inl rfl
  | finish i =>
      obtain ⟨sync, now, -, -, -, rfl⟩ := passStep_finish h
      exact Or.inl rfl
  | skip i =>
      obtain ⟨sync, -, -, -, rfl⟩ := passStep_skip h
      exact Or.inl rfl
  | giveUp i =>
      obtain ⟨sync, -, -, -, rfl⟩ := passStep_giveUp h
      exact Or.inl rfl
  | other event =>
      obtain ⟨accounts, -, -, rfl⟩ := passStep_other h
      exact Or.inl rfl

/-- Only a query that finds nothing ends the source, and not in failure. -/
theorem query_of_exhausted {e : PassEvent} (h : passStep s e = some t)
    (hopen : s.source ≠ .exhausted) (hexhausted : t.source = .exhausted) : e = .query [] := by
  rcases passStep_source h with hsame | ⟨addresses, rfl, hsource⟩ | ⟨-, hsource⟩
  · exact absurd (hsame ▸ hexhausted) hopen
  · rw [hexhausted] at hsource
    by_cases hnil : addresses = []
    · rw [hnil]
    · rw [if_neg hnil] at hsource
      cases hsource
  · rw [hsource] at hexhausted
    cases hexhausted

end Steps

end Tronscan
