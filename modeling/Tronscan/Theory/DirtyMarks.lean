import Tronscan.Account.Sync
import Tronscan.Core.Wire
import Mathlib.Algebra.Order.Ring.Int

/-!
# Marks That Are Lost

A sync that read the account before a mark and writes its row after it cleans
the mark, although the row cannot reflect what the mark was about. The row it
writes carries the time it was built, which is later than its data.

So for an address that has been marked, being dirty comes down to one question:
has a sync written since the last mark? `dirty_iff` is that equivalence, for
every interleaving. When the data was read does not enter into it.

All of this is about an address with a row. The mark of an address without one
inserts a row whose dates are all the time of the mark, and such a row is clean.

## Main definitions

* `lastMark`: When an address was last marked.
* `Unseen`: No data written so far was read after the last mark.
* `WrittenSince`: A sync has written since the last mark.
* `MarkInv`: The invariant for an address.
* `MarkedDirty`: The address is dirty after a mark, and no other row changed.

## Theorems

* `selected_iff_dirty`: Which rows are selected, when there are few.
* `markInv_step`: Every event keeps the invariant.
* `dirty_iff`: A marked address is dirty until a sync writes.
* `not_marksKept_overtaken`: A mark between the read and the write of one sync.
* `markedDirty_iff`: A mark makes dirty exactly the addresses that have a row.
* `not_markedDirty_unknown`: A mark of an address without a row.
-/

namespace Tronscan

/-- When the address was last marked. -/
def lastMark (address : String) (s : AccountState) : Option Int :=
  ((s.marks.filter (·.1 = address)).getLast?).map (·.2)

/-- The sync of the address has written, at a time that satisfies the predicate. -/
def AccountSync.WroteFor (sync : AccountSync) (address : String) (p : Int → Prop) : Prop :=
  sync.address = address ∧ ∃ now, sync.phase = .written now ∧ p now

/-- The address was last marked after the node read of every sync that has
    written its row so far. -/
def Unseen (address : String) (s : AccountState) : Prop :=
  ∃ m, lastMark address s = some m ∧
    ∀ sync ∈ s.syncs, sync.WroteFor address (fun _ => True) → sync.readAt < m

/-- A sync has written the row since the given time. -/
def WrittenSince (address : String) (m : Int) (s : AccountState) : Prop :=
  ∃ sync ∈ s.syncs, sync.WroteFor address (m < ·)

/-- The address has a dirty row, one of those `findAddressesWhichNeedSync` selects
    250 of at a time. -/
def Dirty (address : String) (s : AccountState) : Prop :=
  ∃ row ∈ dirtyRows s.accounts, row.address = address

instance (address : String) (s : AccountState) : Decidable (Dirty address s) :=
  inferInstanceAs (Decidable (∃ row ∈ dirtyRows s.accounts, row.address = address))

/-- With no more than 250 dirty rows, a query that can read them selects them all. -/
theorem selected_iff_dirty {address : String} {s : AccountState} {rows : List AccountModel}
    (hfew : (dirtyRows s.accounts).length ≤ 250)
    (hrows : findAddressesWhichNeedSync s.accounts = some rows) :
    (∃ row ∈ rows, row.address = address) ↔ Dirty address s := by
  rw [findAddressesWhichNeedSync_eq_some, List.take_of_length_le hfew] at hrows
  obtain ⟨-, rfl⟩ := hrows
  exact Iff.rfl

/-- A sync that has built its row has built a clean one of its address. -/
def AccountSync.Clean (clock : Int) (sync : AccountSync) : Prop :=
  (∀ row, sync.phase = .built row →
    row.address = sync.address ∧ row.dateUpdated < row.dateSynced ∧ row.dateSynced ≤ clock) ∧
  ∀ now, sync.phase = .written now → now ≤ clock

/-- The invariant for an address with a row: after a mark, its row carries the
    mark until a sync writes, and is clean from then on. -/
structure MarkInv (address : String) (s : AccountState) : Prop where
  accounts_pkey : (s.accounts.map (·.address)).Nodup
  present : ∃ row ∈ s.accounts, row.address = address
  synced_le : ∀ row ∈ s.accounts, row.address = address → row.dateSynced ≤ s.clock
  clean : ∀ sync ∈ s.syncs, sync.Clean s.clock
  marked : ∀ m, lastMark address s = some m → m ≤ s.clock ∧
    ∀ row ∈ s.accounts, row.address = address →
      (WrittenSince address m s → row.dateUpdated < row.dateSynced) ∧
      (¬ WrittenSince address m s → row.dateUpdated = m ∧ row.dateSynced < m)

section Invariant

variable {address : String} {s t : AccountState}

theorem clean_mono {clock clock' : Int} (hclock : clock ≤ clock') {sync : AccountSync}
    (h : sync.Clean clock) : sync.Clean clock' := by
  refine ⟨fun row hrow => ?_, fun now hnow => ?_⟩
  · rcases h.1 row hrow with ⟨haddress, hclean, hle⟩
    exact ⟨haddress, hclean, by omega⟩
  · have hle := h.2 now hnow
    omega

theorem lastMark_mark {marked : String} {now : Int}
    (hmarks : t.marks = s.marks ++ [(marked, now)]) :
    lastMark address t = if marked = address then some now else lastMark address s := by
  rw [lastMark, hmarks, List.filter_append, List.getLast?_append]
  by_cases h : marked = address
  · rw [if_pos h, List.filter_cons_of_pos (by rwa [decide_eq_true_eq])]
    rfl
  · rw [if_neg h, List.filter_cons_of_neg (by rwa [decide_eq_true_eq])]
    rfl

/-- Marking keeps the keys, and touches no row of another address. -/
theorem markDirty_pkey {accounts : List AccountModel} (marked : String) (now : Int)
    (hpkey : (accounts.map (·.address)).Nodup) :
    ((markDirty marked now accounts).map (·.address)).Nodup := by
  rw [markDirty]
  split
  · rw [Lib.map_keys_update _ (fun r => by split <;> rfl)]
    exact hpkey
  · rename_i hfree
    exact Lib.nodup_keys_append hpkey (Lib.hasKey_eq_false.mp (Bool.not_eq_true _ ▸ hfree))

theorem mem_markDirty_other {accounts : List AccountModel} {marked : String} {now : Int}
    (hother : marked ≠ address) {row : AccountModel} (hrow : row.address = address) :
    row ∈ markDirty marked now accounts ↔ row ∈ accounts := by
  rw [markDirty]
  split
  · rw [List.mem_map]
    constructor
    · rintro ⟨r, hr, rfl⟩
      split at hrow
      · rename_i hmarked
        exact absurd (hmarked.symm.trans hrow) hother
      · rename_i hmarked
        rwa [if_neg hmarked]
    · exact fun hr => ⟨row, hr, if_neg fun h => hother (h.symm.trans hrow)⟩
  · rw [List.mem_append, List.mem_singleton, or_iff_left]
    rintro rfl
    exact hother hrow

/-- The marked row itself gets the time of the mark. -/
theorem mem_markDirty_self {accounts : List AccountModel} {now : Int}
    (hpresent : ∃ row ∈ accounts, row.address = address) {row : AccountModel}
    (hrow : row.address = address) (hmem : row ∈ markDirty address now accounts) :
    ∃ r ∈ accounts, r.address = address ∧ row = { r with dateUpdated := now } := by
  rw [markDirty, if_pos (Lib.hasKey_iff.mpr hpresent), List.mem_map] at hmem
  rcases hmem with ⟨r, hr, rfl⟩
  by_cases haddress : r.address = address
  · exact ⟨r, hr, haddress, if_pos haddress⟩
  · rw [if_neg haddress] at hrow
    exact absurd hrow haddress

/-- Events that concern neither the row nor the marks nor the writes of the
    address keep its invariant. -/
theorem markInv_frame (hI : MarkInv address s) (hpkey : (t.accounts.map (·.address)).Nodup)
    (hrows : ∀ row, row.address = address → (row ∈ t.accounts ↔ row ∈ s.accounts))
    (hclock : s.clock ≤ t.clock) (hclean : ∀ sync ∈ t.syncs, sync.Clean t.clock)
    (hmark : lastMark address t = lastMark address s)
    (hwritten : ∀ m, WrittenSince address m t ↔ WrittenSince address m s) :
    MarkInv address t := by
  rcases hI.present with ⟨row, hrow, haddress⟩
  refine ⟨hpkey, ⟨row, (hrows row haddress).mpr hrow, haddress⟩, ?_, hclean, ?_⟩
  · intro r hr hra
    have hle := hI.synced_le r ((hrows r hra).mp hr) hra
    omega
  · intro m hm
    rcases hI.marked m (hmark ▸ hm) with ⟨hle, hr⟩
    refine ⟨by omega, fun r hmem hra => ?_⟩
    rw [hwritten m]
    exact hr r ((hrows r hra).mp hmem) hra

theorem markInv_read {marked : String} {account : Option Account} {now : Int}
    (hI : MarkInv address s) (hclock : s.clock < now) : MarkInv address
      { s with clock := now, syncs := s.syncs ++ [⟨marked, now, .read account⟩] } := by
  refine markInv_frame hI hI.accounts_pkey (fun _ _ => Iff.rfl) (le_of_lt hclock) ?_ rfl ?_
  · intro sync hsync
    rcases List.mem_append.mp hsync with hsync | hsync
    · exact clean_mono (le_of_lt hclock) (hI.clean sync hsync)
    · rw [List.mem_singleton.mp hsync]
      exact ⟨(fun _ h => by cases h), (fun _ h => by cases h)⟩
  · intro m
    simp only [WrittenSince, List.mem_append, List.mem_singleton, or_and_right, exists_or,
      exists_eq_left, AccountSync.WroteFor, reduceCtorEq, false_and, exists_false, and_false,
      or_false]

/-- A sync that has not written yet and does not write now leaves the writes as
    they were. -/
theorem writtenSince_set {i : Nat} {sync sync' : AccountSync} {m : Int}
    (hsync : s.syncs[i]? = some sync) (hnot : ∀ now, sync.phase ≠ .written now)
    (hsyncs : t.syncs = s.syncs.set i sync') :
    WrittenSince address m t ↔
      sync'.WroteFor address (m < ·) ∨ WrittenSince address m s := by
  rw [WrittenSince, hsyncs]
  exact Lib.exists_mem_set hsync fun ⟨_, now, hnow, _⟩ => hnot now hnow

variable [Codec]

theorem markInv_build {i : Nat} {sync : AccountSync} {account : Account} {now now' : Int}
    (hI : MarkInv address s) (hsync : s.syncs[i]? = some sync)
    (hphase : sync.phase = .read (some account)) (hclock : s.clock < now) (hnow : now < now') :
    MarkInv address { s with
      clock := now'
      syncs := s.syncs.set i
        { sync with phase := .built (syncModel sync.address account now now') } } := by
  -- The rows, the marks and the writes are as they were.
  refine markInv_frame hI hI.accounts_pkey (fun _ _ => Iff.rfl)
    (show s.clock ≤ now' by omega) ?_ rfl ?_
  · have hle : s.clock ≤ now' := by omega
    refine Lib.forall_mem_set (fun x hx => clean_mono hle (hI.clean x hx)) ⟨?_, ?_⟩
    · intro row hrow
      cases hrow
      exact ⟨rfl, show now - 5000 < now' by omega, le_refl now'⟩
    · exact fun _ h => by cases h
  · intro m
    rw [writtenSince_set hsync (fun _ h => by rw [hphase] at h; cases h) rfl, or_iff_right]
    rintro ⟨_, _, h, _⟩
    cases h

omit [Codec] in
theorem markInv_write {i : Nat} {sync : AccountSync} {row : AccountModel} {now : Int}
    (hI : MarkInv address s) (hsync : s.syncs[i]? = some sync)
    (hphase : sync.phase = .built row) (hclock : s.clock < now) :
    MarkInv address { s with
      clock := now
      accounts := Lib.upsert (·.address) row s.accounts
      syncs := s.syncs.set i { sync with phase := .written now } } := by
  have hbuilt := (hI.clean sync (List.mem_of_getElem? hsync)).1 row hphase
  have hclean : ∀ x ∈ s.syncs.set i { sync with phase := .written now }, x.Clean now := by
    refine Lib.forall_mem_set (fun x hx => clean_mono (le_of_lt hclock) (hI.clean x hx)) ⟨?_, ?_⟩
    · exact fun _ h => by cases h
    · intro t ht
      cases ht
      exact le_refl now
  have hwritten (m : Int) := @writtenSince_set address s { s with
    clock := now
    accounts := Lib.upsert (·.address) row s.accounts
    syncs := s.syncs.set i { sync with phase := .written now } } i sync _ m
    hsync (fun _ h => by rw [hphase] at h; cases h) rfl
  by_cases hown : row.address = address
  · -- The row is overwritten by a clean one, after every mark.
    refine ⟨Lib.nodup_keys_upsert hI.accounts_pkey, ⟨row, Lib.mem_upsert.mpr (Or.inl rfl), hown⟩,
      ?_, hclean, ?_⟩
    · intro r hr hra
      rcases Lib.mem_upsert.mp hr with rfl | ⟨_, hne⟩
      · exact hbuilt.2.2.trans (le_of_lt hclock)
      · exact absurd (hra.trans hown.symm) hne
    · intro m hm
      rcases hI.marked m hm with ⟨hle, _⟩
      refine ⟨hle.trans (le_of_lt hclock), fun r hr hra => ?_⟩
      have hsince := (hwritten m).mpr
        (Or.inl ⟨hbuilt.1.symm.trans hown, now, rfl, show m < now by omega⟩)
      rcases Lib.mem_upsert.mp hr with rfl | ⟨_, hne⟩
      · exact ⟨fun _ => hbuilt.2.1, fun h => absurd hsince h⟩
      · exact absurd (hra.trans hown.symm) hne
  · refine markInv_frame hI (Lib.nodup_keys_upsert hI.accounts_pkey) ?_ (le_of_lt hclock) hclean
      rfl ?_
    · intro r hra
      rw [Lib.mem_upsert]
      constructor
      · rintro (rfl | ⟨hr, _⟩)
        · exact absurd hra hown
        · exact hr
      · exact fun hr => Or.inr ⟨hr, fun h => hown (h.symm.trans hra)⟩
    · intro m
      rw [hwritten m, or_iff_right]
      exact fun h => hown (hbuilt.1.trans h.1)

omit [Codec] in
theorem markInv_mark {marked : String} {now : Int} (hI : MarkInv address s)
    (hclock : s.clock < now) : MarkInv address { s with
      clock := now
      accounts := markDirty marked now s.accounts
      marks := s.marks ++ [(marked, now)] } := by
  have hclean : ∀ sync ∈ s.syncs, sync.Clean now := fun sync hsync =>
    clean_mono (le_of_lt hclock) (hI.clean sync hsync)
  have hpkey := markDirty_pkey marked now hI.accounts_pkey
  by_cases hown : marked = address
  · -- The row gets the time of the mark, which is later than every sync so far.
    subst hown
    rcases hI.present with ⟨row, hrow, haddress⟩
    refine ⟨hpkey, ⟨{ row with dateUpdated := now }, ?_, haddress⟩, ?_, hclean, ?_⟩
    · rw [markDirty, if_pos (Lib.hasKey_iff.mpr hI.present)]
      exact List.mem_map.mpr ⟨row, hrow, if_pos haddress⟩
    · intro r hr hra
      rcases mem_markDirty_self hI.present hra hr with ⟨r', hr', hra', rfl⟩
      exact (hI.synced_le r' hr' hra').trans (le_of_lt hclock)
    · intro m hm
      rw [lastMark_mark rfl, if_pos rfl, Option.some.injEq] at hm
      subst hm
      refine ⟨le_refl now, fun r hr hra => ?_⟩
      have hnone : ¬ WrittenSince marked now { s with
          clock := now
          accounts := markDirty marked now s.accounts
          marks := s.marks ++ [(marked, now)] } := by
        rintro ⟨sync, hsync, _, t, ht, hlt⟩
        have hle := (hI.clean sync hsync).2 t ht
        omega
      rcases mem_markDirty_self hI.present hra hr with ⟨r', hr', hra', rfl⟩
      exact ⟨fun h => absurd h hnone,
        fun _ => ⟨rfl, lt_of_le_of_lt (hI.synced_le r' hr' hra') hclock⟩⟩
  · refine markInv_frame hI hpkey (fun _ => mem_markDirty_other hown) (le_of_lt hclock) hclean ?_
      fun _ => Iff.rfl
    rw [lastMark_mark rfl, if_neg hown]

theorem markInv_step {e : AccountEvent} (hI : MarkInv address s) (h : accountStep s e = some t) :
    MarkInv address t := by
  cases e with
  | read marked account now =>
      rcases accountStep_read h with ⟨hclock, rfl⟩
      exact markInv_read hI hclock
  | build i now now' =>
      rcases accountStep_build h with ⟨sync, account, hsync, hphase, hclock, hnow, rfl⟩
      exact markInv_build hI hsync hphase hclock hnow
  | write i now =>
      rcases accountStep_write h with ⟨sync, row, hsync, hphase, hclock, rfl⟩
      exact markInv_write hI hsync hphase hclock
  | mark marked now =>
      rcases accountStep_mark h with ⟨hclock, rfl⟩
      exact markInv_mark hI hclock

end Invariant

/-- A table whose rows were last synced in the past, with no sync or mark yet. -/
structure AccountState.Initial (s : AccountState) : Prop where
  accounts_pkey : (s.accounts.map (·.address)).Nodup
  synced_le : ∀ row ∈ s.accounts, row.dateSynced ≤ s.clock
  syncs_nil : s.syncs = []
  marks_nil : s.marks = []

theorem markInv_initial {address : String} {s : AccountState} (hs : s.Initial)
    (hrow : ∃ row ∈ s.accounts, row.address = address) : MarkInv address s := by
  refine ⟨hs.accounts_pkey, hrow, fun row hmem _ => hs.synced_le row hmem, ?_, ?_⟩
  · intro sync hsync
    rw [hs.syncs_nil] at hsync
    exact absurd hsync List.not_mem_nil
  · intro m hm
    rw [lastMark, hs.marks_nil] at hm
    cases hm

/-- In every reachable state in which all data written so far was read before
    the last mark, the address is dirty exactly when none was written after it. -/
theorem dirty_iff [Codec] {address : String} {s t : AccountState} {events : List AccountEvent}
    (hs : s.Initial) (hrow : ∃ row ∈ s.accounts, row.address = address)
    (hrun : Lib.runFrom accountStep s events = some t) (hunseen : Unseen address t) :
    Dirty address t ↔ ∀ m, lastMark address t = some m → ¬ WrittenSince address m t := by
  have hI := Lib.invariant_of_step (fun _ _ _ hI h => markInv_step hI h) s t events
    (markInv_initial hs hrow) hrun
  rcases hunseen with ⟨m, hm, _⟩
  rcases hI.present with ⟨row, hmem, haddress⟩
  rcases (hI.marked m hm).2 row hmem haddress with ⟨hclean, hdirty⟩
  constructor
  · -- A row that has been written since the mark is clean.
    rintro ⟨r, hr, hra⟩ m' hm' hsince
    rcases List.mem_filter.mp hr with ⟨hr, hneeds⟩
    have hlt := ((hI.marked m' hm').2 r hr hra).1 hsince
    have hgt : r.dateUpdated > r.dateSynced := of_decide_eq_true hneeds
    omega
  · -- Otherwise it carries the mark, which is later than its last sync.
    intro h
    rcases hdirty (h m hm) with ⟨hupdated, hsynced⟩
    have hneeds : row.dateUpdated > row.dateSynced := by omega
    exact ⟨row, List.mem_filter.mpr ⟨hmem, decide_eq_true hneeds⟩, haddress⟩

/-- The property as one would like to have it: unseen data makes for a dirty row. -/
def MarksKept [Codec] : Prop :=
  ∀ (address : String) (s t : AccountState) (events : List AccountEvent), s.Initial →
    (∃ row ∈ s.accounts, row.address = address) →
    Lib.runFrom accountStep s events = some t → Unseen address t → Dirty address t

/-- One account, created and synced at time 0. -/
def exampleAccounts : AccountState where
  clock := 0
  accounts := [{ address := "TA4Wt1DUCqz6YegbnsmqsWC5uUfbdBqPxm", dateCreated := 0,
                 dateUpdated := 0, dateSynced := 0 }]
  syncs := []
  marks := []

theorem initial_exampleAccounts : exampleAccounts.Initial :=
  ⟨by decide, by decide, rfl, rfl⟩

theorem present_exampleAccounts :
    ∃ row ∈ exampleAccounts.accounts, row.address = "TA4Wt1DUCqz6YegbnsmqsWC5uUfbdBqPxm" :=
  ⟨_, List.mem_singleton_self _, rfl⟩

/-- A mark after a sync has read the account, up to where the sync has built its
    row. -/
def overtakenEvents : List AccountEvent :=
  [.read "TA4Wt1DUCqz6YegbnsmqsWC5uUfbdBqPxm" (some { balance := 7 }) 1,
    .mark "TA4Wt1DUCqz6YegbnsmqsWC5uUfbdBqPxm" 2, .build 0 3 4]

/-- Before the sync writes, the mark is there. -/
theorem dirty_iff_pending : ∃ t,
    Lib.runFrom (@accountStep exampleCodec) exampleAccounts overtakenEvents = some t ∧
      (Dirty "TA4Wt1DUCqz6YegbnsmqsWC5uUfbdBqPxm" t ↔
        ∀ m, lastMark "TA4Wt1DUCqz6YegbnsmqsWC5uUfbdBqPxm" t = some m →
          ¬ WrittenSince "TA4Wt1DUCqz6YegbnsmqsWC5uUfbdBqPxm" m t) := by
  have hstate : (Lib.runFrom (@accountStep exampleCodec) exampleAccounts overtakenEvents).map
      (fun t => (lastMark "TA4Wt1DUCqz6YegbnsmqsWC5uUfbdBqPxm" t, t.syncs.map (·.readAt))) =
        some (some 2, [1]) := by decide +kernel
  rcases Option.map_eq_some_iff.mp hstate with ⟨t, hrun, hview⟩
  rw [Prod.mk.injEq] at hview
  refine ⟨t, hrun, @dirty_iff exampleCodec _ _ t _ initial_exampleAccounts
    present_exampleAccounts hrun ⟨2, hview.1, fun sync hsync _ => ?_⟩⟩
  have hread : sync.readAt ∈ [1] := hview.2 ▸ List.mem_map_of_mem hsync
  rw [List.mem_singleton.mp hread]
  decide

/-- Once it has written, the mark is gone, and what it wrote is older. -/
theorem not_marksKept_overtaken : ¬ @MarksKept exampleCodec := by
  intro h
  have hstate : (Lib.runFrom (@accountStep exampleCodec) exampleAccounts
      (overtakenEvents ++ [.write 0 5])).map
      (fun t => (decide (Dirty "TA4Wt1DUCqz6YegbnsmqsWC5uUfbdBqPxm" t),
        lastMark "TA4Wt1DUCqz6YegbnsmqsWC5uUfbdBqPxm" t, t.syncs.map (·.readAt))) =
        some (false, some 2, [1]) := by decide +kernel
  rcases Option.map_eq_some_iff.mp hstate with ⟨t, hrun, hview⟩
  simp only [Prod.mk.injEq, decide_eq_false_iff_not] at hview
  refine hview.1 (h _ _ t _ initial_exampleAccounts present_exampleAccounts hrun
    ⟨2, hview.2.1, fun sync hsync _ => ?_⟩)
  have hread : sync.readAt ∈ [1] := hview.2.2 ▸ List.mem_map_of_mem hsync
  rw [List.mem_singleton.mp hread]
  decide

/-! ## Addresses without a row -/

/-- After a mark the address has a row, every row it has is dirty, and the rows
    of the other addresses are as they were. -/
def MarkedDirty (address : String) (now : Int) (accounts : List AccountModel) : Prop :=
  (∃ row ∈ markDirty address now accounts, row.address = address) ∧
  (∀ row ∈ markDirty address now accounts, row.address = address → row.NeedsSync) ∧
  (markDirty address now accounts).filter (·.address ≠ address) =
    accounts.filter (·.address ≠ address)

/-- A mark leaves the rows of other addresses alone, and their order. -/
theorem filter_markDirty (address : String) (now : Int) (accounts : List AccountModel) :
    (markDirty address now accounts).filter (·.address ≠ address) =
      accounts.filter (·.address ≠ address) := by
  unfold markDirty
  split
  · exact Lib.filter_update_off (fun row : AccountModel => row.address)
      (f := fun row => { row with dateUpdated := now }) fun _ => rfl
  · simp

/-- A mark makes its address dirty exactly when the address has a row. The row
    that is inserted otherwise takes `date_synced` from the schema, which is the
    time of the mark as well. -/
theorem markedDirty_iff {accounts : List AccountModel} {now : Int}
    (hsynced : ∀ row ∈ accounts, row.dateSynced < now) (address : String) :
    MarkedDirty address now accounts ↔ ∃ row ∈ accounts, row.address = address := by
  constructor
  · rintro ⟨-, hdirty, -⟩
    by_contra hnone
    have hinserted : markDirty address now accounts =
        accounts ++ [{ address := address, dateCreated := now, dateUpdated := now,
                       dateSynced := now }] := by
      rw [markDirty, if_neg fun h => hnone (Lib.hasKey_iff.mp h)]
    have hneeds := hdirty _ (hinserted ▸ List.mem_append_right _ (List.mem_singleton_self _)) rfl
    exact absurd hneeds (lt_irrefl now)
  · intro hpresent
    rcases hpresent with ⟨row, hrow, haddress⟩
    refine ⟨⟨{ row with dateUpdated := now }, ?_, haddress⟩, ?_, filter_markDirty _ _ _⟩
    · rw [markDirty, if_pos (Lib.hasKey_iff.mpr ⟨row, hrow, haddress⟩)]
      exact List.mem_map.mpr ⟨row, hrow, if_pos haddress⟩
    · intro r hr hra
      rcases mem_markDirty_self ⟨row, hrow, haddress⟩ hra hr with ⟨r', hr', -, rfl⟩
      exact hsynced r' hr'

theorem markedDirty_iff_known :
    MarkedDirty "TA4Wt1DUCqz6YegbnsmqsWC5uUfbdBqPxm" 1 exampleAccounts.accounts ↔
      ∃ row ∈ exampleAccounts.accounts, row.address = "TA4Wt1DUCqz6YegbnsmqsWC5uUfbdBqPxm" :=
  markedDirty_iff (by decide) _

/-- The first address ever marked stays clean. -/
theorem not_markedDirty_unknown :
    ¬ ∀ (accounts : List AccountModel) (address : String) (now : Int),
      (∀ row ∈ accounts, row.dateSynced < now) → MarkedDirty address now accounts := by
  intro h
  have hdirty := (h [] "TA4Wt1DUCqz6YegbnsmqsWC5uUfbdBqPxm" 1
    fun _ hrow => absurd hrow List.not_mem_nil).2.1
  have hneeds := hdirty _ (List.mem_singleton_self _) rfl
  exact absurd hneeds (lt_irrefl 1)

end Tronscan
