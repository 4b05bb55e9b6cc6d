import Tronscan.Lib.Pool
import Tronscan.Account.Pass
import Tronscan.Theory.DirtyMarks

/-!
# What a Pass Spends

A pass queries until nothing is dirty, and what it has handed to the syncs that are
under way is still dirty when it queries again. So an account whose node is slow to
answer is synced again and again at the same time, up to the eight syncs there are room
for. More it cannot be, unless syncs come to nothing: a node that has no such account or
that keeps failing leaves the address as dirty as it was.

That is the argument of `Lib.Pool`, where dirty addresses are items and syncs are
workers: `pool_step` says that a pass is such a pool. Calls that fail and are repeated,
the building of rows and whatever others do are nothing to the pool, or the work of
somebody else.

What the pool hands out bounds all the rest. A sync is a number of calls, each of which
reads, builds and writes, and `spent_step` says that every event of a pass is paid for by
an address that is taken.

## Main definitions

* `AccountsOk`, `PassInv`: The invariants, of the accounts and of a pass.
* `PassEvent.Quiet`: Nobody marks an address.
* `PassState.pool`, `PassEvent.toPool`: A pass as a pool.
* `PassState.work`: What the syncs that are under way can do yet.

## Theorems

* `mark_of_dirty`, `written_of_clean`: What makes an address dirty, and clean.
* `pool_step`, `pool_run`: A quiet pass is a run of the pool.
* `spent_step`, `countP_own_add_le`: A pass spends what the addresses it takes allow.
-/

namespace Tronscan

/-! ## What happens to the dirty rows -/

/-- Rows have their own addresses, no row was synced in the future, and a sync that has
    built its row has built a clean one. -/
structure AccountsOk (a : AccountState) : Prop where
  pkey : (a.accounts.map (·.address)).Nodup
  synced_le : ∀ row ∈ a.accounts, row.dateSynced ≤ a.clock
  clean : ∀ sync ∈ a.syncs, sync.Clean a.clock

section Rows

variable {accounts : List AccountModel} {address marked : String} {now : Int}

theorem mem_dirtyAddresses : address ∈ dirtyAddresses accounts ↔
    ∃ row ∈ accounts, row.NeedsSync ∧ row.address = address := by
  simp only [dirtyAddresses, dirtyRows, List.mem_map, List.mem_filter, decide_eq_true_eq, and_assoc]

theorem dirty_iff_mem {a : AccountState} : Dirty address a ↔ address ∈ dirtyAddresses a.accounts :=
  List.mem_map.symm

theorem nodup_dirtyAddresses (hpkey : (accounts.map (·.address)).Nodup) :
    (dirtyAddresses accounts).Nodup :=
  Lib.nodup_keys_filter _ hpkey

/-- Writing a clean row cleans its address. -/
theorem mem_dirtyAddresses_upsert {row : AccountModel} (hclean : row.dateUpdated < row.dateSynced) :
    address ∈ dirtyAddresses (Lib.upsert (·.address) row accounts) ↔
      address ≠ row.address ∧ address ∈ dirtyAddresses accounts := by
  simp only [mem_dirtyAddresses, Lib.mem_upsert]
  constructor
  · rintro ⟨r, rfl | ⟨hr, hne⟩, hneeds, rfl⟩
    · exact absurd hneeds (not_lt.mpr hclean.le)
    · exact ⟨hne, r, hr, hneeds, rfl⟩
  · rintro ⟨hne, r, hr, hneeds, rfl⟩
    exact ⟨r, Or.inr ⟨hr, hne⟩, hneeds, rfl⟩

/-- A mark makes nothing dirty but its own address. -/
theorem mem_dirtyAddresses_of_markDirty
    (h : address ∈ dirtyAddresses (markDirty marked now accounts)) (hne : marked ≠ address) :
    address ∈ dirtyAddresses accounts := by
  obtain ⟨row, hrow, hneeds, haddress⟩ := mem_dirtyAddresses.mp h
  exact mem_dirtyAddresses.mpr ⟨row, (mem_markDirty_other hne haddress).mp hrow, hneeds, haddress⟩

/-- It leaves dirty what is dirty. -/
theorem mem_dirtyAddresses_markDirty (hsynced : ∀ row ∈ accounts, row.dateSynced < now)
    (h : address ∈ dirtyAddresses accounts) :
    address ∈ dirtyAddresses (markDirty marked now accounts) := by
  obtain ⟨row, hrow, hneeds, haddress⟩ := mem_dirtyAddresses.mp h
  refine mem_dirtyAddresses.mpr ?_
  by_cases hmarked : marked = address
  · have hkey : Lib.hasKey (·.address) marked accounts = true :=
      Lib.hasKey_iff.mpr ⟨row, hrow, haddress.trans hmarked.symm⟩
    refine ⟨{ row with dateUpdated := now }, ?_, hsynced row hrow, haddress⟩
    rw [markDirty, if_pos hkey]
    exact List.mem_map.mpr ⟨row, hrow, if_pos (haddress.trans hmarked.symm)⟩
  · exact ⟨row, (mem_markDirty_other hmarked haddress).mpr hrow, hneeds, haddress⟩

theorem synced_le_markDirty {clock : Int} (hclock : clock ≤ now)
    (hsynced : ∀ row ∈ accounts, row.dateSynced ≤ clock) :
    ∀ row ∈ markDirty marked now accounts, row.dateSynced ≤ now := by
  intro row hrow
  rw [markDirty] at hrow
  split at hrow
  · obtain ⟨r, hr, rfl⟩ := List.mem_map.mp hrow
    have hle := (hsynced r hr).trans hclock
    split
    · exact hle
    · exact hle
  · rcases List.mem_append.mp hrow with hrow | hrow
    · exact (hsynced row hrow).trans hclock
    · rw [List.mem_singleton.mp hrow]

end Rows

section Accounts

variable [Codec] {a b : AccountState} {e : AccountEvent}

omit [Codec] in
theorem accountsOk_initial (h : a.Initial) : AccountsOk a := by
  refine ⟨h.accounts_pkey, h.synced_le, fun sync hsync => ?_⟩
  rw [h.syncs_nil] at hsync
  exact absurd hsync List.not_mem_nil

theorem accountStep_clock (h : accountStep a e = some b) : a.clock < b.clock := by
  cases e with
  | read address account now =>
      obtain ⟨hclock, rfl⟩ := accountStep_read h
      exact hclock
  | build i now now' =>
      obtain ⟨sync, account, -, -, hclock, hnow, rfl⟩ := accountStep_build h
      exact hclock.trans hnow
  | write i now =>
      obtain ⟨sync, row, -, -, hclock, rfl⟩ := accountStep_write h
      exact hclock
  | mark address now =>
      obtain ⟨hclock, rfl⟩ := accountStep_mark h
      exact hclock

theorem accountsOk_step (hok : AccountsOk a) (h : accountStep a e = some b) : AccountsOk b := by
  have hmono := (accountStep_clock h).le
  have hclean : ∀ sync ∈ a.syncs, sync.Clean b.clock := fun sync hsync =>
    clean_mono hmono (hok.clean sync hsync)
  have hsynced : ∀ row ∈ a.accounts, row.dateSynced ≤ b.clock := fun row hrow =>
    (hok.synced_le row hrow).trans hmono
  cases e with
  | read address account now =>
      obtain ⟨-, rfl⟩ := accountStep_read h
      refine ⟨hok.pkey, hsynced, fun sync hsync => ?_⟩
      rcases List.mem_append.mp hsync with hsync | hsync
      · exact hclean sync hsync
      · rw [List.mem_singleton.mp hsync]
        exact ⟨(fun _ h => by cases h), (fun _ h => by cases h)⟩
  | build i now now' =>
      obtain ⟨sync, account, -, -, hclock, hnow, rfl⟩ := accountStep_build h
      refine ⟨hok.pkey, hsynced, Lib.forall_mem_set hclean ⟨?_, fun _ h => by cases h⟩⟩
      intro row hrow
      cases hrow
      exact ⟨rfl, show now - 5000 < now' by omega, le_refl now'⟩
  | write i now =>
      obtain ⟨sync, row, hsync, hphase, hclock, rfl⟩ := accountStep_write h
      have hbuilt := (hok.clean sync (List.mem_of_getElem? hsync)).1 row hphase
      refine ⟨Lib.nodup_keys_upsert hok.pkey, ?_, Lib.forall_mem_set hclean ⟨?_, ?_⟩⟩
      · intro r hr
        rcases Lib.mem_upsert.mp hr with rfl | ⟨hr, -⟩
        · exact hbuilt.2.2.trans hclock.le
        · exact hsynced r hr
      · exact fun _ h => by cases h
      · intro t ht
        cases ht
        exact le_refl now
  | mark marked now =>
      obtain ⟨hclock, rfl⟩ := accountStep_mark h
      exact ⟨markDirty_pkey marked now hok.pkey, synced_le_markDirty hclock.le hok.synced_le, hclean⟩

/-- What a write makes of the dirty addresses. -/
theorem mem_dirtyAddresses_write {i : Nat} {now : Int} (hok : AccountsOk a)
    (h : accountStep a (.write i now) = some b) : ∃ sync, a.syncs[i]? = some sync ∧
      b.syncs[i]? = some { sync with phase := .written now } ∧ a.clock < now ∧
      ∀ address, address ∈ dirtyAddresses b.accounts ↔
        address ≠ sync.address ∧ address ∈ dirtyAddresses a.accounts := by
  obtain ⟨sync, row, hsync, hphase, hclock, rfl⟩ := accountStep_write h
  obtain ⟨haddress, hclean, -⟩ := (hok.clean sync (List.mem_of_getElem? hsync)).1 row hphase
  refine ⟨sync, hsync, ?_, hclock, fun address => ?_⟩
  · exact List.getElem?_set_self (List.getElem?_eq_some_iff.mp hsync).1
  · rw [mem_dirtyAddresses_upsert hclean, haddress]

/-- Unless an address is marked, no row gets dirty, and none that is dirty changes. -/
theorem dirtyRows_subset (hok : AccountsOk a) (h : accountStep a e = some b)
    (hunmarked : ∀ address now, e ≠ .mark address now) :
    ∀ row ∈ dirtyRows b.accounts, row ∈ dirtyRows a.accounts := by
  cases e with
  | read address account now =>
      obtain ⟨-, rfl⟩ := accountStep_read h
      exact fun _ hrow => hrow
  | build i now now' =>
      obtain ⟨sync, account, -, -, -, -, rfl⟩ := accountStep_build h
      exact fun _ hrow => hrow
  | write i now =>
      obtain ⟨sync, built, hsync, hphase, -, rfl⟩ := accountStep_write h
      have hclean := ((hok.clean sync (List.mem_of_getElem? hsync)).1 built hphase).2.1
      intro row hrow
      obtain ⟨hrow, hneeds⟩ := List.mem_filter.mp hrow
      rcases Lib.mem_upsert.mp hrow with rfl | ⟨hrow, -⟩
      · exact absurd (of_decide_eq_true hneeds) (not_lt.mpr hclean.le)
      · exact List.mem_filter.mpr ⟨hrow, hneeds⟩
  | mark address now => exact absurd rfl (hunmarked address now)

/-- Only marks make an address dirty. -/
theorem mark_of_dirty {address : String} (hok : AccountsOk a) (h : accountStep a e = some b)
    (hdirty : Dirty address b) (hclean : ¬ Dirty address a) : ∃ now, e = .mark address now := by
  by_cases hmark : ∃ marked now, e = .mark marked now
  · obtain ⟨marked, now, rfl⟩ := hmark
    obtain ⟨-, rfl⟩ := accountStep_mark h
    by_cases hmarked : marked = address
    · exact ⟨now, by rw [hmarked]⟩
    · rw [dirty_iff_mem] at hdirty hclean
      exact absurd (mem_dirtyAddresses_of_markDirty hdirty hmarked) hclean
  · obtain ⟨row, hrow, haddress⟩ := hdirty
    exact absurd ⟨row, dirtyRows_subset hok h (fun _ _ he => hmark ⟨_, _, he⟩) row hrow, haddress⟩
      hclean

/-- Only writes make it clean. -/
theorem written_of_clean {address : String} (hok : AccountsOk a) (h : accountStep a e = some b)
    (hdirty : Dirty address a) (hclean : ¬ Dirty address b) : WrittenSince address a.clock b := by
  rw [dirty_iff_mem] at hdirty hclean
  cases e with
  | read address account now =>
      obtain ⟨-, rfl⟩ := accountStep_read h
      exact absurd hdirty hclean
  | build i now now' =>
      obtain ⟨sync, account, -, -, -, -, rfl⟩ := accountStep_build h
      exact absurd hdirty hclean
  | write i now =>
      obtain ⟨sync, -, hsync, hclock, hwrite⟩ := mem_dirtyAddresses_write hok h
      have haddress : address = sync.address := by
        by_contra hne
        exact hclean ((hwrite address).mpr ⟨hne, hdirty⟩)
      exact ⟨_, List.mem_of_getElem? hsync, haddress.symm, now, rfl, hclock⟩
  | mark marked now =>
      obtain ⟨hclock, rfl⟩ := accountStep_mark h
      refine absurd (mem_dirtyAddresses_markDirty (fun row hrow => ?_) hdirty) hclean
      exact lt_of_le_of_lt (hok.synced_le row hrow) hclock

/-- What has been written stays so. -/
theorem writtenSince_step {address : String} {m : Int} (h : accountStep a e = some b)
    (hwritten : WrittenSince address m a) : WrittenSince address m b := by
  cases e with
  | read marked account now =>
      obtain ⟨-, rfl⟩ := accountStep_read h
      obtain ⟨sync, hsync, hwrote⟩ := hwritten
      exact ⟨sync, List.mem_append.mpr (Or.inl hsync), hwrote⟩
  | build i now now' =>
      obtain ⟨sync, account, hsync, hphase, -, -, rfl⟩ := accountStep_build h
      exact (writtenSince_set hsync (fun _ h => by rw [hphase] at h; cases h) rfl).mpr
        (Or.inr hwritten)
  | write i now =>
      obtain ⟨sync, row, hsync, hphase, -, rfl⟩ := accountStep_write h
      exact (writtenSince_set hsync (fun _ h => by rw [hphase] at h; cases h) rfl).mpr
        (Or.inr hwritten)
  | mark marked now =>
      obtain ⟨-, rfl⟩ := accountStep_mark h
      exact hwritten

/-- A sync keeps its address, and only its own events change it. -/
theorem syncs_step {i : Nat} {sync : AccountSync} (h : accountStep a e = some b)
    (hsync : a.syncs[i]? = some sync) : ∃ sync', b.syncs[i]? = some sync' ∧
      sync'.address = sync.address ∧ (e.Avoids [i] → sync' = sync) := by
  have hset {j : Nat} {old new : AccountSync} (hold : a.syncs[j]? = some old)
      (hnew : new.address = old.address) : ∃ sync', (a.syncs.set j new)[i]? = some sync' ∧
        sync'.address = sync.address ∧ (j ∉ [i] → sync' = sync) := by
    by_cases hij : j = i
    · subst hij
      cases hsync.symm.trans hold
      refine ⟨new, List.getElem?_set_self (List.getElem?_eq_some_iff.mp hold).1, hnew, fun h => ?_⟩
      exact absurd (List.mem_singleton_self j) h
    · exact ⟨sync, by rw [List.getElem?_set_ne hij, hsync], rfl, fun _ => rfl⟩
  cases e with
  | read marked account now =>
      obtain ⟨-, rfl⟩ := accountStep_read h
      refine ⟨sync, ?_, rfl, fun _ => rfl⟩
      exact (List.getElem?_append_left (List.getElem?_eq_some_iff.mp hsync).1).trans hsync
  | build j now now' =>
      obtain ⟨old, account, hold, -, -, -, rfl⟩ := accountStep_build h
      exact hset hold rfl
  | write j now =>
      obtain ⟨old, row, hold, -, -, rfl⟩ := accountStep_write h
      exact hset hold rfl
  | mark marked now =>
      obtain ⟨-, rfl⟩ := accountStep_mark h
      exact ⟨sync, hsync, rfl, fun _ => rfl⟩

end Accounts

/-! ## The pass is a pool -/

/-- Nobody marks an address. -/
def PassEvent.Quiet : PassEvent → Prop
  | .other (.mark _ _) => False
  | _ => True

/-- The sync is one of those there are, it has not been repeated too often, and what it
    has written is still clean. -/
def Tracked (a : AccountState) (retries : Nat → Nat) (i : Nat) : Prop :=
  ∃ sync, a.syncs[i]? = some sync ∧ retries i ≤ maxRetries ∧
    ∀ now, sync.phase = .written now → ¬ Dirty sync.address a

/-- What is known in a quiet pass: the syncs under way are different ones, and tracked. -/
structure PassInv (s : PassState) : Prop where
  ok : AccountsOk s.accounts
  nodup : s.running.Nodup
  tracked : ∀ i ∈ s.running, Tracked s.accounts s.retries i

section Invariant

variable [Codec] {s t : PassState} {a b : AccountState} {retries : Nat → Nat} {i : Nat}

omit [Codec] in
theorem Tracked.lt_length (h : Tracked a retries i) : i < a.syncs.length := by
  obtain ⟨sync, hsync, -⟩ := h
  exact (List.getElem?_eq_some_iff.mp hsync).1

omit [Codec] in
/-- A sync that is started later is another one. -/
theorem Tracked.update (h : Tracked a retries i) (n : Nat) :
    Tracked a (Function.update retries a.syncs.length n) i := by
  obtain ⟨sync, hsync, hle, hwritten⟩ := id h
  refine ⟨sync, hsync, ?_, hwritten⟩
  rwa [Function.update_of_ne h.lt_length.ne]

theorem tracked_step {e : AccountEvent} (hok : AccountsOk a) (h : accountStep a e = some b)
    (hunmarked : ∀ address now, e ≠ .mark address now) (htracked : Tracked a retries i) :
    Tracked b retries i := by
  obtain ⟨sync, hsync, hle, hwritten⟩ := htracked
  by_cases havoids : e.Avoids [i]
  · obtain ⟨sync', hsync', -, hsame⟩ := syncs_step h hsync
    rw [hsame havoids] at hsync'
    refine ⟨sync, hsync', hle, fun now hphase hdirty => ?_⟩
    obtain ⟨marked, hmark⟩ := mark_of_dirty hok h hdirty (hwritten now hphase)
    exact hunmarked _ _ hmark
  · -- The event is about the sync itself.
    cases e with
    | read address account now => exact absurd trivial havoids
    | mark address now => exact absurd trivial havoids
    | build j now now' =>
        obtain rfl : j = i := List.mem_singleton.mp (not_not.mp havoids)
        obtain ⟨old, account, hold, -, -, -, rfl⟩ := accountStep_build h
        have hlt := (List.getElem?_eq_some_iff.mp hold).1
        exact ⟨_, List.getElem?_set_self hlt, hle, fun _ h => by cases h⟩
    | write j now =>
        obtain rfl : j = i := List.mem_singleton.mp (not_not.mp havoids)
        obtain ⟨old, -, hnew, -, hdirty⟩ := mem_dirtyAddresses_write hok h
        exact ⟨_, hnew, hle, fun _ _ h => ((hdirty _).mp (dirty_iff_mem.mp h)).1 rfl⟩

/-- A sync that is started comes last. -/
theorem PassInv.read (hI : PassInv s) {address : String} {account : Option Account} {now : Int}
    {running : List Nat} {n : Nat} (hsub : ∀ i ∈ running, i ∈ s.running) (hnodup : running.Nodup)
    (hn : n ≤ maxRetries) (h : accountStep s.accounts (.read address account now) = some b) :
    (s.accounts.syncs.length :: running).Nodup ∧ ∀ i ∈ s.accounts.syncs.length :: running,
      Tracked b (Function.update s.retries s.accounts.syncs.length n) i := by
  refine ⟨List.nodup_cons.mpr ⟨fun hmem => ?_, hnodup⟩, List.forall_mem_cons.mpr ⟨?_, ?_⟩⟩
  · exact Nat.lt_irrefl _ (hI.tracked _ (hsub _ hmem)).lt_length
  · obtain ⟨-, rfl⟩ := accountStep_read h
    refine ⟨_, List.getElem?_concat_length, ?_, fun _ h => by cases h⟩
    rwa [Function.update_self]
  · intro i hi
    exact tracked_step hI.ok h (fun _ _ he => by cases he) ((hI.tracked i (hsub i hi)).update n)

theorem passInv_step {e : PassEvent} (hI : PassInv s) (hquiet : e.Quiet)
    (h : passStep s e = some t) : PassInv t := by
  have herase {i j : Nat} (hj : j ∈ s.running.erase i) : j ∈ s.running := List.mem_of_mem_erase hj
  have hkept {event : AccountEvent} {accounts : AccountState}
      (haccounts : accountStep s.accounts event = some accounts)
      (hunmarked : ∀ address now, event ≠ .mark address now) :
      PassInv { s with accounts := accounts } :=
    ⟨accountsOk_step hI.ok haccounts, hI.nodup,
      fun j hj => tracked_step hI.ok haccounts hunmarked (hI.tracked j hj)⟩
  cases e with
  | query addresses =>
      obtain ⟨-, rfl⟩ := passStep_query h
      exact ⟨hI.ok, hI.nodup, hI.tracked⟩
  | queryFails =>
      obtain ⟨-, rfl⟩ := passStep_queryFails h
      exact ⟨hI.ok, hI.nodup, hI.tracked⟩
  | start address account now =>
      obtain ⟨rest, accounts, -, -, haccounts, rfl⟩ := passStep_start h
      obtain ⟨hnodup, htracked⟩ := hI.read (fun _ hi => hi) hI.nodup (Nat.zero_le _) haccounts
      exact ⟨accountsOk_step hI.ok haccounts, hnodup, htracked⟩
  | retry i account now =>
      obtain ⟨sync, accounts, -, -, hlt, haccounts, rfl⟩ := passStep_retry h
      obtain ⟨hnodup, htracked⟩ := hI.read (fun _ => herase) (hI.nodup.erase i) hlt haccounts
      exact ⟨accountsOk_step hI.ok haccounts, hnodup, htracked⟩
  | build i now now' =>
      obtain ⟨accounts, -, haccounts, rfl⟩ := passStep_build h
      exact hkept haccounts fun _ _ he => by cases he
  | write i now =>
      obtain ⟨accounts, -, haccounts, rfl⟩ := passStep_write h
      exact hkept haccounts fun _ _ he => by cases he
  | finish i =>
      obtain ⟨sync, now, -, -, -, rfl⟩ := passStep_finish h
      exact ⟨hI.ok, hI.nodup.erase i, fun j hj => hI.tracked j (herase hj)⟩
  | skip i =>
      obtain ⟨sync, -, -, -, rfl⟩ := passStep_skip h
      exact ⟨hI.ok, hI.nodup.erase i, fun j hj => hI.tracked j (herase hj)⟩
  | giveUp i =>
      obtain ⟨sync, -, -, -, rfl⟩ := passStep_giveUp h
      exact ⟨hI.ok, hI.nodup.erase i, fun j hj => hI.tracked j (herase hj)⟩
  | other event =>
      obtain ⟨accounts, -, haccounts, rfl⟩ := passStep_other h
      refine hkept haccounts fun address now he => ?_
      rw [he] at hquiet
      exact hquiet

end Invariant

/-- The address a sync is about. -/
def addressOf (a : AccountState) (i : Nat) : String :=
  ((a.syncs[i]?).map (·.address)).getD ""

/-- A pass as a pool: the dirty addresses need work, and syncs are workers. -/
def PassState.pool (s : PassState) : Lib.Pool.State String where
  dirty := (dirtyAddresses s.accounts.accounts).toFinset
  queue := s.queue
  running := (s.running.map (addressOf s.accounts) : List String)
  exhausted := decide (s.source = .exhausted)
  started := s.started
  lost := s.lost

/-- What an event is to the pool, if anything. -/
def PassEvent.toPool (s : PassState) : PassEvent → List (Lib.Pool.Event String)
  | .query addresses => [.read addresses]
  | .start _ _ _ => [.start]
  | .write i _ | .other (.write i _) => [.clean (addressOf s.accounts i)]
  | .finish i => [.finish (addressOf s.accounts i)]
  | .skip i | .giveUp i => [.lose (addressOf s.accounts i)]
  | _ => []

section Simulation

open Lib.Pool (step)

variable [Codec] {s t : PassState} {e : PassEvent}

omit [Codec] in
theorem addressOf_eq {a : AccountState} {i : Nat} {sync : AccountSync}
    (hsync : a.syncs[i]? = some sync) : addressOf a i = sync.address := by
  rw [addressOf, hsync]
  rfl

theorem addressOf_step {a b : AccountState} {event : AccountEvent} {i : Nat}
    (h : accountStep a event = some b) (hi : i < a.syncs.length) : addressOf b i = addressOf a i := by
  obtain ⟨sync, hsync⟩ : ∃ sync, a.syncs[i]? = some sync := ⟨_, List.getElem?_eq_getElem hi⟩
  obtain ⟨sync', hsync', haddress, -⟩ := syncs_step h hsync
  rw [addressOf_eq hsync, addressOf_eq hsync', haddress]

/-- What is under way keeps its addresses. -/
theorem PassInv.map_addressOf (hI : PassInv s) {b : AccountState} {event : AccountEvent}
    (h : accountStep s.accounts event = some b) {running : List Nat}
    (hsub : ∀ i ∈ running, i ∈ s.running) :
    running.map (addressOf b) = running.map (addressOf s.accounts) :=
  List.map_congr_left fun i hi => addressOf_step h (hI.tracked i (hsub i hi)).lt_length

omit [Codec] in
theorem map_erase {α β : Type} [DecidableEq α] [DecidableEq β] (f : α → β) {l : List α} {x : α}
    (hx : x ∈ l) :
    ((l.erase x).map f : Multiset β) = (l.map f : Multiset β).erase (f x) := by
  rw [Multiset.coe_erase, Multiset.coe_eq_coe]
  have hperm := ((List.perm_cons_erase hx).map f).erase (f x)
  rw [List.map_cons, List.erase_cons_head] at hperm
  exact hperm.symm

/-- A sync that is started is one more worker on its address. -/
theorem PassInv.pool_read (hI : PassInv s) {address : String} {account : Option Account} {now : Int}
    {b : AccountState} (h : accountStep s.accounts (.read address account now) = some b)
    {running : List Nat} (hsub : ∀ i ∈ running, i ∈ s.running) :
    ((s.accounts.syncs.length :: running).map (addressOf b) : Multiset String) =
      address ::ₘ (running.map (addressOf s.accounts) : List String) ∧
      b.accounts = s.accounts.accounts := by
  have hmap := hI.map_addressOf h hsub
  obtain ⟨-, rfl⟩ := accountStep_read h
  refine ⟨?_, rfl⟩
  rw [List.map_cons, hmap, addressOf_eq List.getElem?_concat_length, Multiset.cons_coe]

theorem toFinset_write {a b : AccountState} {i : Nat} {now : Int} (hok : AccountsOk a)
    (h : accountStep a (.write i now) = some b) :
    (dirtyAddresses b.accounts).toFinset =
      (dirtyAddresses a.accounts).toFinset.erase (addressOf a i) := by
  obtain ⟨sync, hsync, -, -, hwrite⟩ := mem_dirtyAddresses_write hok h
  ext address
  rw [List.mem_toFinset, Finset.mem_erase, List.mem_toFinset, addressOf_eq hsync, hwrite address]

omit [Codec] in
theorem mem_pool_running {i : Nat} (hi : i ∈ s.running) :
    addressOf s.accounts i ∈ s.pool.running :=
  List.mem_map.mpr ⟨i, hi, rfl⟩

/-- A write of a sync, whoever made it, cleans its address. -/
theorem pool_write (hI : PassInv s) {i : Nat} {now : Int} {b : AccountState}
    (h : accountStep s.accounts (.write i now) = some b) :
    Lib.runFrom (step parallel 250) s.pool [.clean (addressOf s.accounts i)] =
      some { s with accounts := b }.pool := by
  refine Option.bind_eq_some_iff.mpr ⟨_, rfl, ?_⟩
  unfold PassState.pool
  rw [hI.map_addressOf h fun _ hi => hi, toFinset_write hI.ok h]
  rfl

/-- An event that touches neither the rows nor the syncs under way is nothing to it. -/
theorem pool_same (hI : PassInv s) {event : AccountEvent} {b : AccountState}
    (h : accountStep s.accounts event = some b) (hsame : b.accounts = s.accounts.accounts) :
    Lib.runFrom (step parallel 250) s.pool [] = some { s with accounts := b }.pool := by
  refine congrArg some ?_
  unfold PassState.pool
  rw [hI.map_addressOf h fun _ hi => hi, hsame]

/-- Every event of a quiet pass is at most one of the pool. -/
theorem pool_step (hI : PassInv s) (hquiet : e.Quiet) (h : passStep s e = some t) :
    Lib.runFrom (step parallel 250) s.pool (e.toPool s) = some t.pool := by
  have hself : ∀ i ∈ s.running, i ∈ s.running := fun _ hi => hi
  have hcard : s.pool.running.card = s.running.length := by
    rw [PassState.pool, Multiset.coe_card, List.length_map]
  cases e with
  | query addresses =>
      obtain ⟨⟨⟨hqueue, hreading, hroom⟩, ⟨hnodup, hmem, hlength⟩, -⟩, rfl⟩ := passStep_query h
      have hdirty := List.toFinset_card_of_nodup (nodup_dirtyAddresses hI.ok.pkey)
      have hexhausted : s.pool.exhausted = false := by
        rw [PassState.pool, hreading]
        rfl
      have hsize : addresses.length = min 250 s.pool.dirty.card := by
        rw [hlength, ← hdirty]
        rfl
      have hstep : step parallel 250 s.pool (.read addresses) =
          some { s.pool with queue := addresses, exhausted := addresses.isEmpty } :=
        if_pos ⟨hqueue, hexhausted, hcard ▸ hroom, hnodup,
          fun address haddress => List.mem_toFinset.mpr (hmem address haddress), hsize⟩
      refine Option.bind_eq_some_iff.mpr ⟨_, hstep, congrArg some ?_⟩
      unfold PassState.pool
      cases addresses <;> rfl
  | queryFails =>
      obtain ⟨⟨-, hreading, -⟩, rfl⟩ := passStep_queryFails h
      refine congrArg some ?_
      unfold PassState.pool
      rw [hreading]
      rfl
  | start address account now =>
      obtain ⟨rest, accounts, hqueue, hroom, haccounts, rfl⟩ := passStep_start h
      obtain ⟨hmap, hsame⟩ := hI.pool_read haccounts hself
      have hstep : step parallel 250 s.pool .start = some { s.pool with
          queue := rest
          running := address ::ₘ s.pool.running
          started := address :: s.pool.started } := by
        have hpool : s.pool.queue = address :: rest := hqueue
        simp only [step, hpool, if_pos (hcard ▸ hroom)]
      refine Option.bind_eq_some_iff.mpr ⟨_, hstep, ?_⟩
      unfold PassState.pool
      rw [hmap, hsame]
      rfl
  | retry i account now =>
      obtain ⟨sync, accounts, hsync, hi, -, haccounts, rfl⟩ := passStep_retry h
      obtain ⟨hmap, hsame⟩ := hI.pool_read haccounts fun _ hj => List.mem_of_mem_erase hj
      -- The address is under way before as after.
      have hmem : sync.address ∈ (s.running.map (addressOf s.accounts) : Multiset String) :=
        List.mem_map.mpr ⟨i, hi, addressOf_eq hsync⟩
      rw [map_erase _ hi, addressOf_eq hsync, Multiset.cons_erase hmem] at hmap
      refine congrArg some ?_
      unfold PassState.pool
      rw [hmap, hsame]
  | build i now now' =>
      obtain ⟨accounts, -, haccounts, rfl⟩ := passStep_build h
      refine pool_same hI haccounts ?_
      obtain ⟨sync, account, -, -, -, -, rfl⟩ := accountStep_build haccounts
      rfl
  | write i now =>
      obtain ⟨accounts, -, haccounts, rfl⟩ := passStep_write h
      exact pool_write hI haccounts
  | finish i =>
      obtain ⟨sync, now, hsync, hphase, hi, rfl⟩ := passStep_finish h
      -- What the sync has written is still clean.
      have hclean : addressOf s.accounts i ∉ s.pool.dirty := by
        obtain ⟨tracked, htracked, -, hwritten⟩ := hI.tracked i hi
        cases hsync.symm.trans htracked
        rw [addressOf_eq hsync]
        exact fun hmem => hwritten now hphase (dirty_iff_mem.mpr (List.mem_toFinset.mp hmem))
      refine Option.bind_eq_some_iff.mpr ⟨_, if_pos ⟨mem_pool_running hi, hclean⟩, ?_⟩
      unfold PassState.pool
      rw [map_erase _ hi]
      rfl
  | skip i =>
      obtain ⟨sync, hsync, -, hi, rfl⟩ := passStep_skip h
      refine Option.bind_eq_some_iff.mpr ⟨_, if_pos (mem_pool_running hi), ?_⟩
      unfold PassState.pool
      rw [map_erase _ hi, addressOf_eq hsync]
      rfl
  | giveUp i =>
      obtain ⟨sync, hsync, hi, -, rfl⟩ := passStep_giveUp h
      refine Option.bind_eq_some_iff.mpr ⟨_, if_pos (mem_pool_running hi), ?_⟩
      unfold PassState.pool
      rw [map_erase _ hi, addressOf_eq hsync]
      rfl
  | other event =>
      obtain ⟨accounts, -, haccounts, rfl⟩ := passStep_other h
      cases event with
      | read address account now => exact pool_same hI haccounts (hI.pool_read haccounts hself).2
      | build i now now' =>
          refine pool_same hI haccounts ?_
          obtain ⟨sync, account, -, -, -, -, rfl⟩ := accountStep_build haccounts
          rfl
      | write i now => exact pool_write hI haccounts
      | mark address now => exact absurd hquiet id

/-- A quiet pass is a run of the pool. -/
theorem pool_run {es : List PassEvent} (hI : PassInv s) (hquiet : ∀ e ∈ es, e.Quiet)
    (hrun : Lib.runFrom passStep s es = some t) :
    PassInv t ∧ ∃ fs, Lib.runFrom (step parallel 250) s.pool fs = some t.pool := by
  induction es generalizing s with
  | nil =>
      cases hrun
      exact ⟨hI, [], rfl⟩
  | cons e es ih =>
      rw [List.forall_mem_cons] at hquiet
      obtain ⟨u, hu, hrun⟩ := Option.bind_eq_some_iff.mp hrun
      obtain ⟨hIt, fs, hfs⟩ := ih (passInv_step hI hquiet.1 hu) hquiet.2 hrun
      refine ⟨hIt, e.toPool s ++ fs, ?_⟩
      rw [Lib.runFrom_append, pool_step hI hquiet.1 hu, Option.bind_some, hfs]

end Simulation

/-! ## What a pass spends -/

/-- What a call has still to do: to build, to write, and to end. -/
def SyncPhase.work : SyncPhase → Nat
  | .read _ => 3
  | .built _ => 2
  | .written _ => 1

/-- What a sync can do yet. A call that fails takes one event more than one that does
    not, which is the one that repeats it. -/
def syncWork (a : AccountState) (retries : Nat → Nat) (i : Nat) : Nat :=
  4 * (maxRetries - retries i) + (a.syncs[i]?).elim 0 (·.phase.work)

/-- What the syncs that are under way can do yet. -/
def PassState.work (s : PassState) : Nat :=
  (s.running.map (syncWork s.accounts s.retries)).sum

/-- One more if the source has ended. -/
def SourceState.closed : SourceState → Nat
  | .reading => 0
  | .exhausted | .failed => 1

/-- An event of the stream, not of somebody else. -/
def PassEvent.own : PassEvent → Bool
  | .other _ => false
  | _ => true

section Work

variable {s t : PassState} {a b : AccountState} {retries : Nat → Nat} {i : Nat}

theorem SyncPhase.work_pos (phase : SyncPhase) : 0 < phase.work := by
  cases phase <;> exact Nat.succ_pos _

theorem SourceState.closed_le (source : SourceState) : source.closed ≤ 1 := by
  cases source <;> decide

theorem syncWork_eq {sync : AccountSync} (hsync : a.syncs[i]? = some sync) :
    syncWork a retries i = 4 * (maxRetries - retries i) + sync.phase.work := by
  rw [syncWork, hsync]
  rfl

theorem syncWork_update {n : Nat} (hi : i < a.syncs.length) :
    syncWork b (Function.update retries a.syncs.length n) i = syncWork b retries i := by
  rw [syncWork, Function.update_of_ne hi.ne]
  rfl

theorem work_of_mem (hi : i ∈ s.running) :
    s.work = syncWork s.accounts s.retries i +
      ((s.running.erase i).map (syncWork s.accounts s.retries)).sum := by
  have hperm := (List.perm_cons_erase hi).map (syncWork s.accounts s.retries)
  rw [List.map_cons] at hperm
  rw [PassState.work, hperm.sum_eq, List.sum_cons]

/-- A sync that ends had something to do. -/
theorem work_erase {sync : AccountSync} (hsync : s.accounts.syncs[i]? = some sync)
    (hi : i ∈ s.running) :
    ((s.running.erase i).map (syncWork s.accounts s.retries)).sum + 1 ≤ s.work := by
  have hpos := sync.phase.work_pos
  rw [work_of_mem hi, syncWork_eq hsync]
  omega

variable [Codec]

theorem syncWork_step {e : AccountEvent} (h : accountStep a e = some b) (hi : i < a.syncs.length)
    (havoids : e.Avoids [i]) : syncWork b retries i = syncWork a retries i := by
  obtain ⟨sync, hsync⟩ : ∃ sync, a.syncs[i]? = some sync := ⟨_, List.getElem?_eq_getElem hi⟩
  obtain ⟨sync', hsync', -, hsame⟩ := syncs_step h hsync
  rw [syncWork_eq hsync, syncWork_eq hsync', hsame havoids]

/-- Syncs that an event is not about can do as much as before. -/
theorem PassInv.work_rest (hI : PassInv s) {e : AccountEvent} {running : List Nat}
    (hsub : ∀ i ∈ running, i ∈ s.running) (h : accountStep s.accounts e = some b)
    (havoids : ∀ i ∈ running, e.Avoids [i]) :
    (running.map (syncWork b s.retries)).sum =
      (running.map (syncWork s.accounts s.retries)).sum := by
  refine congrArg List.sum (List.map_congr_left fun i hi => ?_)
  exact syncWork_step h (hI.tracked i (hsub i hi)).lt_length (havoids i hi)

/-- A call of `syncAddress` that begins has all its work before it. -/
theorem PassInv.work_read (hI : PassInv s) {address : String} {account : Option Account}
    {now : Int} {running : List Nat} (n : Nat) (hsub : ∀ i ∈ running, i ∈ s.running)
    (h : accountStep s.accounts (.read address account now) = some b) :
    ((s.accounts.syncs.length :: running).map
        (syncWork b (Function.update s.retries s.accounts.syncs.length n))).sum =
      4 * (maxRetries - n) + 3 + (running.map (syncWork s.accounts s.retries)).sum := by
  have hrest := hI.work_rest hsub h fun _ _ => trivial
  have hupdate : running.map (syncWork b (Function.update s.retries s.accounts.syncs.length n)) =
      running.map (syncWork b s.retries) :=
    List.map_congr_left fun i hi => syncWork_update (hI.tracked i (hsub i hi)).lt_length
  obtain ⟨-, rfl⟩ := accountStep_read h
  rw [List.map_cons, List.sum_cons, hupdate, hrest, syncWork_eq List.getElem?_concat_length,
    Function.update_self]
  rfl

/-- A sync that goes on has less to do, and the others as much as before. -/
theorem PassInv.work_lt (hI : PassInv s) {e : AccountEvent} (hi : i ∈ s.running)
    (h : accountStep s.accounts e = some b) (havoids : ∀ j ≠ i, e.Avoids [j])
    (hlt : syncWork b s.retries i < syncWork s.accounts s.retries i) :
    { s with accounts := b }.work + 1 ≤ s.work := by
  have hrest := hI.work_rest (fun _ hj => List.mem_of_mem_erase hj) h fun j hj =>
    havoids j fun hji => List.Nodup.not_mem_erase hI.nodup (hji ▸ hj)
  have hnext := work_of_mem (s := { s with accounts := b }) hi
  rw [work_of_mem hi, hnext]
  show syncWork b s.retries i + ((s.running.erase i).map (syncWork b s.retries)).sum + 1 ≤ _
  omega

omit [Codec] in
/-- An event that leaves the source and its addresses alone is paid for by the syncs. -/
theorem spent_of_work {e : PassEvent} (hwork : e.own.toNat + t.work ≤ s.work)
    (hstarted : t.started = s.started) (hqueue : t.queue = s.queue) (hsource : t.source = s.source) :
    e.own.toNat + t.work + 37 * s.started.length + s.queue.length + s.source.closed ≤
      s.work + 37 * t.started.length + t.queue.length + t.source.closed := by
  rw [hstarted, hqueue, hsource]
  omega

/-- Every event of the stream is paid for, by what the syncs have to do less or by
    addresses that are taken. -/
theorem spent_step {e : PassEvent} (hI : PassInv s) (h : passStep s e = some t) :
    e.own.toNat + t.work + 37 * s.started.length + s.queue.length + s.source.closed ≤
      s.work + 37 * t.started.length + t.queue.length + t.source.closed := by
  have hself : ∀ i ∈ s.running, i ∈ s.running := fun _ hi => hi
  have havoids {i j : Nat} (hji : j ≠ i) : i ∉ [j] := fun h => hji (List.mem_singleton.mp h).symm
  cases e with
  | query addresses =>
      obtain ⟨⟨⟨hqueue, hreading, -⟩, -⟩, rfl⟩ := passStep_query h
      rw [hqueue, hreading]
      -- The last query closes the source, and every other one has found an address.
      cases addresses with
      | nil =>
          simp only [PassState.work, PassEvent.own, SourceState.closed, Bool.toNat_true, if_true]
          omega
      | cons address rest =>
          simp only [PassState.work, PassEvent.own, SourceState.closed, Bool.toNat_true,
            reduceCtorEq, if_false, List.length_cons, List.length_nil]
          omega
  | queryFails =>
      obtain ⟨⟨hqueue, hreading, -⟩, rfl⟩ := passStep_queryFails h
      rw [hqueue, hreading]
      simp only [PassState.work, PassEvent.own, SourceState.closed, Bool.toNat_true]
      omega
  | start address account now =>
      obtain ⟨rest, accounts, hqueue, -, haccounts, rfl⟩ := passStep_start h
      have hwork := hI.work_read 0 hself haccounts
      rw [hqueue, PassState.work, hwork]
      simp only [PassEvent.own, Bool.toNat_true, List.length_cons, maxRetries, PassState.work]
      omega
  | retry i account now =>
      obtain ⟨sync, accounts, hsync, hi, hlt, haccounts, rfl⟩ := passStep_retry h
      have hrest : ∀ j ∈ s.running.erase i, j ∈ s.running := fun _ => List.mem_of_mem_erase
      have hwork := hI.work_read (s.retries i + 1) hrest haccounts
      have hpos := sync.phase.work_pos
      refine spent_of_work ?_ rfl rfl rfl
      rw [work_of_mem hi, syncWork_eq hsync, PassState.work, hwork]
      simp only [PassEvent.own, Bool.toNat_true]
      omega
  | build i now now' =>
      obtain ⟨accounts, hi, haccounts, rfl⟩ := passStep_build h
      have hlt : syncWork accounts s.retries i < syncWork s.accounts s.retries i := by
        obtain ⟨sync, account, hsync, hphase, -, -, rfl⟩ := accountStep_build haccounts
        rw [syncWork_eq hsync, hphase,
          syncWork_eq (List.getElem?_set_self (List.getElem?_eq_some_iff.mp hsync).1)]
        exact Nat.lt_succ_self _
      have hwork := hI.work_lt hi haccounts (fun _ => havoids) hlt
      exact spent_of_work (Nat.add_comm 1 _ ▸ hwork) rfl rfl rfl
  | write i now =>
      obtain ⟨accounts, hi, haccounts, rfl⟩ := passStep_write h
      have hlt : syncWork accounts s.retries i < syncWork s.accounts s.retries i := by
        obtain ⟨sync, row, hsync, hphase, -, rfl⟩ := accountStep_write haccounts
        rw [syncWork_eq hsync, hphase,
          syncWork_eq (List.getElem?_set_self (List.getElem?_eq_some_iff.mp hsync).1)]
        exact Nat.lt_succ_self _
      have hwork := hI.work_lt hi haccounts (fun _ => havoids) hlt
      exact spent_of_work (Nat.add_comm 1 _ ▸ hwork) rfl rfl rfl
  | finish i =>
      obtain ⟨sync, now, hsync, -, hi, rfl⟩ := passStep_finish h
      exact spent_of_work (Nat.add_comm 1 _ ▸ work_erase hsync hi) rfl rfl rfl
  | skip i =>
      obtain ⟨sync, hsync, -, hi, rfl⟩ := passStep_skip h
      exact spent_of_work (Nat.add_comm 1 _ ▸ work_erase hsync hi) rfl rfl rfl
  | giveUp i =>
      obtain ⟨sync, hsync, hi, -, rfl⟩ := passStep_giveUp h
      exact spent_of_work (Nat.add_comm 1 _ ▸ work_erase hsync hi) rfl rfl rfl
  | other event =>
      obtain ⟨accounts, havoids, haccounts, rfl⟩ := passStep_other h
      have hwork := hI.work_rest hself haccounts fun i hi => by
        cases event with
        | build j now now' => exact fun hj => havoids (List.mem_singleton.mp hj ▸ hi)
        | write j now => exact fun hj => havoids (List.mem_singleton.mp hj ▸ hi)
        | read address account now => trivial
        | mark address now => trivial
      exact spent_of_work ((Nat.zero_add _).trans hwork).le rfl rfl rfl

/-- So are all the events of a pass. -/
theorem countP_own_add_le {es : List PassEvent} (hI : PassInv s) (hquiet : ∀ e ∈ es, e.Quiet)
    (hrun : Lib.runFrom passStep s es = some t) :
    es.countP PassEvent.own + t.work + 37 * s.started.length + s.queue.length + s.source.closed ≤
      s.work + 37 * t.started.length + t.queue.length + t.source.closed := by
  induction es generalizing s with
  | nil =>
      cases hrun
      rw [List.countP_nil]
      omega
  | cons e es ih =>
      rw [List.forall_mem_cons] at hquiet
      obtain ⟨u, hu, hrest⟩ := Option.bind_eq_some_iff.mp hrun
      have hstep := spent_step hI hu
      have hlater := ih (passInv_step hI hquiet.1 hu) hquiet.2 hrest
      have hcount : (e :: es).countP PassEvent.own = es.countP PassEvent.own + e.own.toNat := by
        rw [List.countP_cons]
        cases e.own <;> rfl
      omega

end Work

end Tronscan
