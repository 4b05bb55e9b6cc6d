import Tronscan.Theory.AccountPass
import Tronscan.Theory.RetryWaits

/-!
# Passes That End

A pass that nobody disturbs ends, after a number of events that its first look at the
table bounds, and the syncs that come to nothing. With marks and with other syncs in
between, a pass that has ended has seen a moment when nothing was dirty.

Not every pass can end like that. A mark of an unknown address inserts a row without a
name, a balance or tokens, and a second mark makes this row dirty. No query can read it,
so where it is among those that come back the query throws, and the stream is over. With
no more than 250 dirty rows it always is among them, and then passes sync nothing at all,
not that address nor any other.

## Main definitions

* `Reached`: The accounts as marks and syncs leave them.

## Theorems

* `lt_maxRetries_iff`: How often `FutureUtils.retry` repeats a sync.
* `pass_bounded`: What a quiet pass does, and that it can be taken on until it ends.
* `pass_blocked`: A pass that no query of which can succeed.
* `dirty_or_written`, `not_dirty_of_unmarked`: From one state of a pass to a later one.
* `pass_complete`: What a pass has done when it ends.
-/

namespace Tronscan

/-- A sync whose calls all fail is repeated eight times, with the backoffs of the
    importer. -/
theorem lt_maxRetries_iff (n : ℕ) : n < maxRetries ↔
    ∃ w, FutureUtils.GoesOn (.default) AccountImporter.maxBackoff (1 : ℕ) AccountImporter.minBackoff
      (fun n => (.error n : Except ℕ Unit)) n w := by
  have hmin : AccountImporter.minBackoff.nanos = (250 : ℕ) * 10 ^ 6 := rfl
  constructor
  · intro hn
    have hbackoff : ∀ i ≤ maxRetries, ∃ b,
        FutureUtils.backoff .default (1 : ℕ) AccountImporter.minBackoff i = some b := by
      intro i hi
      induction i with
      | zero => exact ⟨_, rfl⟩
      | succ i ih =>
          obtain ⟨b, hb⟩ := ih (Nat.le_of_succ_le hi)
          refine (FutureUtils.backoff_succ_iff hmin i hb).mpr ?_
          have hpow : (1 + (1 : ℕ) : ℤ) ^ (i + 1) ≤ (1 + (1 : ℕ)) ^ maxRetries :=
            pow_le_pow_right₀ (by decide) hi
          exact (mul_le_mul_of_nonneg_left hpow (by decide)).trans (by decide)
    obtain ⟨b, hb⟩ := hbackoff n hn.le
    obtain ⟨w, hw⟩ := hbackoff (n + 1) hn
    refine ⟨w, ⟨n, rfl⟩, ⟨b, hb, ?_⟩, hw⟩
    have hpow : (1 + (1 : ℕ) : ℤ) ^ n ≤ (1 + (1 : ℕ)) ^ 7 :=
      pow_le_pow_right₀ (by decide) (Nat.le_of_lt_succ hn)
    rw [FutureUtils.backoff_nanos hmin n hb]
    exact (mul_le_mul_of_nonneg_left hpow (by decide)).trans_lt (by decide)
  · rintro ⟨w, -, ⟨b, hb, hmax⟩, -⟩
    by_contra hn
    have hpow : (1 + (1 : ℕ) : ℤ) ^ maxRetries ≤ (1 + (1 : ℕ)) ^ n :=
      pow_le_pow_right₀ (by decide) (Nat.not_lt.mp hn)
    rw [FutureUtils.backoff_nanos hmin n hb] at hmax
    have hle := (mul_le_mul_of_nonneg_left hpow (by decide)).trans hmax.le
    exact absurd hle (by decide)

/-! ## Passes that nobody disturbs -/

/-- The accounts as marks and syncs leave them. -/
def Reached [Codec] (a : AccountState) : Prop :=
  ∃ first es, first.Initial ∧ Lib.runFrom accountStep first es = some a

section Passes

variable [Codec] {s t : PassState} {es : List PassEvent}

theorem passInv_starts (hs : s.Starts) (hreached : Reached s.accounts) : PassInv s := by
  obtain ⟨first, history, hfirst, hrun⟩ := hreached
  refine ⟨?_, ?_, ?_⟩
  · exact Lib.invariant_of_step (fun _ _ _ hok h => accountsOk_step hok h) first s.accounts history
      (accountsOk_initial hfirst) hrun
  · rw [hs.running]
    exact List.nodup_nil
  · rw [hs.running]
    exact fun i hi => absurd hi List.not_mem_nil

omit [Codec] in
theorem pool_fresh (hs : s.Starts) : Lib.Pool.Fresh s.pool := by
  refine ⟨hs.queue, ?_, ?_, hs.started, hs.lost⟩
  · unfold PassState.pool
    rw [hs.running]
    rfl
  · unfold PassState.pool
    rw [hs.source]
    rfl

/-- The dirty rows can still be read if they could be. -/
theorem readable_run (hs : PassInv s) (hquiet : ∀ e ∈ es, e.Quiet)
    (hrun : Lib.runFrom passStep s es = some t)
    (hreadable : ∀ row ∈ dirtyRows s.accounts.accounts, row.Readable) :
    ∀ row ∈ dirtyRows t.accounts.accounts, row.Readable := by
  refine (Lib.invariant_along
    (I := fun u : PassState => PassInv u ∧ ∀ row ∈ dirtyRows u.accounts.accounts, row.Readable)
    (C := fun _ e => e.Quiet) ?_ s t es ⟨hs, hreadable⟩ (Lib.along_of_forall s es hquiet) hrun).2
  rintro u e v ⟨hI, hreadable⟩ hquiet h
  refine ⟨passInv_step hI hquiet h, ?_⟩
  rcases passStep_accounts h with hsame | ⟨event, hevent, hmark⟩
  · rw [hsame]
    exact hreadable
  · refine fun row hrow => hreadable row (dirtyRows_subset hI.ok hevent (fun address now he => ?_) row hrow)
    rw [hmark address now he] at hquiet
    exact hquiet

/-- Where the dirty rows can be read and a pass has not ended, it can be taken on. -/
theorem exists_step (hI : PassInv s)
    (hreadable : ∀ row ∈ dirtyRows s.accounts.accounts, row.Readable)
    (hsource : s.source ≠ .failed) (hdone : ¬ s.Done) :
    ∃ e, e.own = true ∧ e ≠ .queryFails ∧ ∃ t, passStep s e = some t := by
  by_cases hrunning : s.running = []
  · have hroom : s.running.length < parallel := by
      rw [hrunning]
      decide
    rcases hqueue : s.queue with _ | ⟨address, rest⟩
    · have hreading : s.source = .reading := by
        rcases hs : s.source with _ | _ | _
        · rfl
        · exact absurd ⟨hs, hqueue, hrunning⟩ hdone
        · exact absurd hs hsource
      have hselects : Selects s.accounts.accounts
          ((dirtyAddresses s.accounts.accounts).take 250) := by
        refine ⟨⟨?_, fun _ h => List.mem_of_mem_take h, List.length_take⟩,
          fun row hrow _ => hreadable row hrow⟩
        exact (List.take_sublist _ _).nodup (nodup_dirtyAddresses hI.ok.pkey)
      exact ⟨.query ((dirtyAddresses s.accounts.accounts).take 250), rfl, (fun h => by cases h), _,
        if_pos ⟨⟨hqueue, hreading, hroom⟩, hselects⟩⟩
    · refine ⟨.start address (some {}) (s.accounts.clock + 1), rfl, (fun h => by cases h), ?_⟩
      rw [passStep, hqueue]
      dsimp only
      rw [if_pos ⟨rfl, hroom⟩, accountStep, if_pos (by omega)]
      exact ⟨_, rfl⟩
  · obtain ⟨i, hi⟩ := List.exists_mem_of_ne_nil _ hrunning
    obtain ⟨sync, hsync, -, -⟩ := hI.tracked i hi
    rcases hp : sync.phase with (_ | account) | row | now
    · refine ⟨.skip i, rfl, (fun h => by cases h), ?_⟩
      rw [passStep, hsync, Option.bind_eq_bind, Option.bind_some, hp]
      dsimp only
      rw [if_pos hi]
      exact ⟨_, rfl⟩
    · refine ⟨.build i (s.accounts.clock + 1) (s.accounts.clock + 2), rfl,
        (fun h => by cases h), ?_⟩
      rw [passStep, if_pos hi, accountStep, hsync, Option.bind_eq_bind, Option.bind_some, hp]
      dsimp only
      rw [if_pos (by omega)]
      exact ⟨_, rfl⟩
    · refine ⟨.write i (s.accounts.clock + 1), rfl, (fun h => by cases h), ?_⟩
      rw [passStep, if_pos hi, accountStep, hsync, Option.bind_eq_bind, Option.bind_some, hp]
      dsimp only
      rw [if_pos (by omega)]
      exact ⟨_, rfl⟩
    · refine ⟨.finish i, rfl, (fun h => by cases h), ?_⟩
      rw [passStep, hsync, Option.bind_eq_bind, Option.bind_some, hp]
      dsimp only
      rw [if_pos hi]
      exact ⟨_, rfl⟩

/-- All that a pass does while nobody marks an address is bounded by the rows that were
    dirty when it began, and by the syncs that came to nothing. -/
theorem countP_own_le (hs : s.Starts) (hreached : Reached s.accounts) (hquiet : ∀ e ∈ es, e.Quiet)
    (hrun : Lib.runFrom passStep s es = some t) : es.countP PassEvent.own ≤
      37 * (parallel * (dirtyRows s.accounts.accounts).length + t.lost.length) + 1 := by
  have hI := passInv_starts hs hreached
  obtain ⟨-, fs, hfs⟩ := pool_run hI hquiet hrun
  have hspent := countP_own_add_le hI hquiet hrun
  have hlength := (Lib.Pool.inv_run (by decide) (pool_fresh hs) hfs).length_le
  have hcard : s.pool.dirty.card = (dirtyRows s.accounts.accounts).length := by
    rw [PassState.pool, List.toFinset_card_of_nodup (nodup_dirtyAddresses hI.ok.pkey),
      dirtyAddresses, List.length_map]
  have hclosed := t.source.closed_le
  rw [hcard] at hlength
  have hidle : s.work = 0 := by
    rw [PassState.work, hs.running]
    rfl
  have hopen : SourceState.reading.closed = 0 := rfl
  rw [hidle, hs.queue, hs.started, hs.source, hopen, List.length_nil] at hspent
  have htaken : t.started.length + t.queue.length ≤
      parallel * (dirtyRows s.accounts.accounts).length + t.lost.length := hlength
  omega

/-- A pass in which nobody marks an address syncs the dirty addresses and no others, each
    of them at most eight times and once more for each of its syncs that came to nothing.
    Where the dirty rows can be read and no query fails, it has always something left to
    do until it ends, and then nothing is dirty. -/
theorem pass_bounded (hs : s.Starts) (hreached : Reached s.accounts) (hquiet : ∀ e ∈ es, e.Quiet)
    (hrun : Lib.runFrom passStep s es = some t) :
    (∀ address, t.started.count address ≤ parallel + t.lost.count address ∧
      (address ∈ t.started → Dirty address s.accounts)) ∧
    es.countP PassEvent.own ≤
      37 * (parallel * (dirtyRows s.accounts.accounts).length + t.lost.length) + 1 ∧
    (t.Done → ∀ address, ¬ Dirty address t.accounts) ∧
    ((∀ row ∈ dirtyRows s.accounts.accounts, row.Readable) → t.source ≠ .failed → ¬ t.Done →
      ∃ e, e.own = true ∧ e ≠ .queryFails ∧ ∃ u, passStep t e = some u) := by
  have hI := passInv_starts hs hreached
  obtain ⟨hIt, fs, hfs⟩ := pool_run hI hquiet hrun
  have hpool := Lib.Pool.inv_run (by decide) (pool_fresh hs) hfs
  refine ⟨fun address => ⟨?_, fun hmem => ?_⟩, countP_own_le hs hreached hquiet hrun,
    fun hdone address hdirty => ?_, fun hreadable => ?_⟩
  · exact (Nat.le_add_right _ _).trans (hpool.count_le address)
  · exact dirty_iff_mem.mpr (List.mem_toFinset.mp (hpool.handed address
      (List.mem_append.mpr (Or.inl hmem))))
  · have hempty := (hpool.exhausted (decide_eq_true hdone.source)).1
    have hmem := List.mem_toFinset.mpr (dirty_iff_mem.mp hdirty)
    rw [show (dirtyAddresses t.accounts.accounts).toFinset = ∅ from hempty] at hmem
    exact absurd hmem (Finset.notMem_empty address)
  · exact exists_step hIt (readable_run hI hquiet hrun hreadable)

/-! ## Passes that cannot read -/

/-- The row is dirty, with so few others that a query cannot miss it. -/
def Blocks (row : AccountModel) (a : AccountState) : Prop :=
  row ∈ dirtyRows a.accounts ∧ (dirtyRows a.accounts).length ≤ 250

omit [Codec] in
/-- A query that has few rows to choose from comes back with all of them. -/
theorem readable_of_selects {accounts : List AccountModel} {addresses : List String}
    (hselects : Selects accounts addresses) (hfew : (dirtyRows accounts).length ≤ 250) :
    ∀ row ∈ dirtyRows accounts, row.Readable := by
  obtain ⟨⟨hnodup, hmem, hlength⟩, hreadable⟩ := hselects
  rw [dirtyAddresses, List.length_map, Nat.min_eq_right hfew] at hlength
  intro row hrow
  have hle : (dirtyAddresses accounts).length ≤ addresses.length := by
    rw [dirtyAddresses, List.length_map, hlength]
  have hperm := (hnodup.subperm fun _ h => hmem _ h).perm_of_length_le hle
  exact hreadable row hrow (hperm.symm.subset (List.mem_map.mpr ⟨row, hrow, rfl⟩))

/-- As long as a row that cannot be read blocks the queries, a pass syncs nothing and
    does not end, whatever else is marked and synced. -/
theorem pass_blocked {row : AccountModel} (hs : s.Starts) (hunreadable : ¬ row.Readable)
    (hrun : Lib.runFrom passStep s es = some t)
    (hblocks : Lib.Along passStep (fun u _ => Blocks row u.accounts) s es) :
    t.started = [] ∧ ¬ t.Done := by
  have hinv := Lib.invariant_along
    (I := fun u : PassState => u.queue = [] ∧ u.running = [] ∧ u.started = [] ∧
      u.source ≠ .exhausted)
    (C := fun u _ => Blocks row u.accounts) ?_ s t es ?_ hblocks hrun
  · exact ⟨hinv.2.2.1, fun hdone => hinv.2.2.2 hdone.source⟩
  · rintro u e v ⟨hqueue, hrunning, hstarted, hsource⟩ ⟨hrow, hfew⟩ h
    have hidle {i : Nat} (hi : i ∈ u.running) : False := by
      rw [hrunning] at hi
      exact List.not_mem_nil hi
    cases e with
    | query addresses =>
        obtain ⟨⟨-, hselects⟩, -⟩ := passStep_query h
        exact absurd (readable_of_selects hselects hfew row hrow) hunreadable
    | queryFails =>
        obtain ⟨-, rfl⟩ := passStep_queryFails h
        exact ⟨hqueue, hrunning, hstarted, fun h => by cases h⟩
    | start address account now =>
        obtain ⟨rest, -, hnext, -⟩ := passStep_start h
        rw [hqueue] at hnext
        cases hnext
    | retry i account now =>
        obtain ⟨-, -, -, hi, -⟩ := passStep_retry h
        exact (hidle hi).elim
    | build i now now' =>
        obtain ⟨-, hi, -⟩ := passStep_build h
        exact (hidle hi).elim
    | write i now =>
        obtain ⟨-, hi, -⟩ := passStep_write h
        exact (hidle hi).elim
    | finish i =>
        obtain ⟨-, -, -, -, hi, -⟩ := passStep_finish h
        exact (hidle hi).elim
    | skip i =>
        obtain ⟨-, -, -, hi, -⟩ := passStep_skip h
        exact (hidle hi).elim
    | giveUp i =>
        obtain ⟨-, -, hi, -⟩ := passStep_giveUp h
        exact (hidle hi).elim
    | other event =>
        obtain ⟨accounts, -, haccounts, rfl⟩ := passStep_other h
        exact ⟨hqueue, hrunning, hstarted, hsource⟩
  · refine ⟨hs.queue, hs.running, hs.started, ?_⟩
    rw [hs.source]
    exact fun h => by cases h

/-- Two marks of an unknown address leave such a row. -/
example : ∃ row ∈ dirtyRows (markDirty "TA4Wt1DUCqz6YegbnsmqsWC5uUfbdBqPxm" 2
    (markDirty "TA4Wt1DUCqz6YegbnsmqsWC5uUfbdBqPxm" 1 [])), ¬ row.Readable := by decide

/-! ## Passes with marks in between -/

/-- A pass that has ended has made a query that found nothing. -/
theorem exists_empty_query (hopen : s.source ≠ .exhausted)
    (hrun : Lib.runFrom passStep s es = some t) (hexhausted : t.source = .exhausted) :
    ∃ before after u v, es = before ++ .query [] :: after ∧
      Lib.runFrom passStep s before = some u ∧ passStep u (.query []) = some v ∧
      Lib.runFrom passStep v after = some t := by
  induction es generalizing s with
  | nil =>
      cases hrun
      exact absurd hexhausted hopen
  | cons e es ih =>
      obtain ⟨u, hu, hrest⟩ := Option.bind_eq_some_iff.mp hrun
      by_cases hnext : u.source = .exhausted
      · obtain rfl := query_of_exhausted hu hopen hnext
        exact ⟨[], es, s, u, rfl, rfl, hu, hrest⟩
      · obtain ⟨before, after, v, w, rfl, hbefore, hquery, hafter⟩ := ih hnext hrest
        exact ⟨e :: before, after, v, w, rfl, by rw [Lib.runFrom, hu, Option.bind_some, hbefore],
          hquery, hafter⟩

/-- From where an address is dirty on, it is dirty until it is written. -/
theorem dirty_or_written {address : String} (hok : AccountsOk s.accounts)
    (hdirty : Dirty address s.accounts) (hrun : Lib.runFrom passStep s es = some t) :
    Dirty address t.accounts ∨ WrittenSince address s.accounts.clock t.accounts := by
  have hinv := invariant_pass (I := fun a => AccountsOk a ∧ s.accounts.clock ≤ a.clock ∧
      (Dirty address a ∨ WrittenSince address s.accounts.clock a)) ?_
    ⟨hok, le_refl _, Or.inl hdirty⟩ hrun
  · exact hinv.2.2
  · rintro a e b ⟨hok, hclock, hold⟩ h
    refine ⟨accountsOk_step hok h, hclock.trans (accountStep_clock h).le, ?_⟩
    rcases hold with hdirty | hwritten
    · by_cases hnext : Dirty address b
      · exact Or.inl hnext
      · obtain ⟨sync, hsync, haddress, now, hnow, hlt⟩ := written_of_clean hok h hdirty hnext
        exact Or.inr ⟨sync, hsync, haddress, now, hnow, lt_of_le_of_lt hclock hlt⟩
    · exact Or.inr (writtenSince_step h hwritten)

/-- An address that is clean stays so until it is marked. -/
theorem not_dirty_of_unmarked {address : String} (hok : AccountsOk s.accounts)
    (hclean : ¬ Dirty address s.accounts) (hrun : Lib.runFrom passStep s es = some t)
    (hunmarked : ∀ e ∈ es, ∀ now, e ≠ .other (.mark address now)) : ¬ Dirty address t.accounts := by
  have hinv := Lib.invariant_along
    (I := fun u : PassState => AccountsOk u.accounts ∧ ¬ Dirty address u.accounts)
    (C := fun _ e => ∀ now, e ≠ .other (.mark address now)) ?_ s t es ⟨hok, hclean⟩
    (Lib.along_of_forall s es hunmarked) hrun
  · exact hinv.2
  · rintro u e v ⟨hok, hclean⟩ hnot h
    rcases passStep_accounts h with hsame | ⟨event, hevent, hmark⟩
    · rw [hsame]
      exact ⟨hok, hclean⟩
    · refine ⟨accountsOk_step hok hevent, fun hdirty => ?_⟩
      obtain ⟨now, hnow⟩ := mark_of_dirty hok hevent hdirty hclean
      exact hnot now (hmark address now hnow)

/-- Whatever goes on besides, a pass that has ended has come to a moment when nothing
    was dirty. What had been dirty at any time before was written in between, and what
    is dirty now was marked later. -/
theorem pass_complete (hs : s.Starts) (hreached : Reached s.accounts)
    (hrun : Lib.runFrom passStep s es = some t) (hdone : t.Done) :
    ∃ before after u, es = before ++ .query [] :: after ∧
      Lib.runFrom passStep s before = some u ∧
      (∀ address, ¬ Dirty address u.accounts) ∧
      (∀ first rest v address, before = first ++ rest → Lib.runFrom passStep s first = some v →
        Dirty address v.accounts → WrittenSince address v.accounts.clock u.accounts) ∧
      ∀ address, Dirty address t.accounts → ∃ now, .other (.mark address now) ∈ after := by
  have hopen : s.source ≠ .exhausted := by
    rw [hs.source]
    exact fun h => by cases h
  obtain ⟨before, after, u, w, rfl, hbefore, hquery, hafter⟩ :=
    exists_empty_query hopen hrun hdone.source
  have hok {v : PassState} {first : List PassEvent} (hrun : Lib.runFrom passStep s first = some v) :
      AccountsOk v.accounts :=
    invariant_pass (fun _ _ _ hok h => accountsOk_step hok h) (passInv_starts hs hreached).ok hrun
  obtain ⟨⟨-, ⟨-, -, hlength⟩, -⟩, rfl⟩ := passStep_query hquery
  have hclean : ∀ address, ¬ Dirty address u.accounts := by
    intro address hdirty
    have hpos := List.length_pos_of_mem (dirty_iff_mem.mp hdirty)
    rw [List.length_nil] at hlength
    omega
  have hoku : AccountsOk u.accounts := hok hbefore
  refine ⟨before, after, u, rfl, hbefore, hclean, ?_, fun address hdirty => ?_⟩
  · rintro first rest v address rfl hfirst hdirty
    rw [Lib.runFrom_append, hfirst, Option.bind_some] at hbefore
    exact (dirty_or_written (hok hfirst) hdirty hbefore).resolve_left (hclean address)
  · by_contra hnone
    refine not_dirty_of_unmarked ?_ ?_ hafter (fun e he now h => hnone ⟨now, h ▸ he⟩) hdirty
    · exact hoku
    · exact hclean address

end Passes

/-! ## One dirty account -/

/-- The address of the row. -/
def passAddress : String := "TA4Wt1DUCqz6YegbnsmqsWC5uUfbdBqPxm"

/-- The row of an account that has been synced. -/
def passRow : AccountModel where
  address := passAddress
  name := some ""
  balance := some 0
  tokenBalances := some (.obj [])
  dateCreated := 0
  dateUpdated := -5000
  dateSynced := 0

/-- The table with that row, and nothing under way. -/
def passAccounts : AccountState where
  clock := 0
  accounts := [passRow]
  syncs := []
  marks := []

/-- It has been marked. -/
def passStart : PassState where
  accounts :=
    { passAccounts with
      clock := 1
      accounts := markDirty passAddress 1 passAccounts.accounts
      marks := [(passAddress, 1)] }

theorem passStart_starts : passStart.Starts := ⟨rfl, rfl, rfl, rfl, rfl⟩

theorem passStart_reached : @Reached exampleCodec passStart.accounts :=
  ⟨passAccounts, [.mark passAddress 1], ⟨by decide, by decide, rfl, rfl⟩, rfl⟩

/-- A node that is slow to answer: the address is started eight times before the first
    of the syncs has written, and that one has to be repeated. -/
def slowPass : List PassEvent :=
  ((List.range 8).flatMap fun i =>
    [.query [passAddress], .start passAddress (some {}) (i + 2)]) ++
  [.retry 0 (some {}) 10, .build 8 11 12, .write 8 13, .finish 8, .query []] ++
  (List.range 7).flatMap fun i => [.build (i + 1) (3 * i + 14) (3 * i + 15),
    .write (i + 1) (3 * i + 16), .finish (i + 1)]

theorem slowPass_quiet : ∀ e ∈ slowPass, e.Quiet := by
  simp [slowPass, List.range, List.range.loop, PassEvent.Quiet]

theorem pass_bounded_slow : ∃ t, Lib.runFrom (@passStep exampleCodec) passStart slowPass = some t ∧
    t.Done ∧ t.started.count passAddress = parallel ∧ ∀ address, ¬ Dirty address t.accounts := by
  have hview : (Lib.runFrom (@passStep exampleCodec) passStart slowPass).map (fun t =>
      (t.source, t.queue, t.running, t.lost, decide (parallel ≤ t.started.count passAddress))) =
        some (.exhausted, [], [], [], true) := by decide
  obtain ⟨t, hrun, hview⟩ := Option.map_eq_some_iff.mp hview
  simp only [Prod.mk.injEq] at hview
  have hdone : t.Done := ⟨hview.1, hview.2.1, hview.2.2.1⟩
  have h := @pass_bounded exampleCodec passStart t slowPass passStart_starts passStart_reached
    slowPass_quiet hrun
  have hle := (h.1 passAddress).1
  rw [hview.2.2.2.1] at hle
  exact ⟨t, hrun, hdone, Nat.le_antisymm hle (of_decide_eq_true hview.2.2.2.2), h.2.2.1 hdone⟩

/-- A mark at the very end. -/
def markedPass : List PassEvent :=
  [.query [passAddress], .start passAddress (some {}) 2, .build 0 3 4, .write 0 5, .finish 0,
    .query [], .other (.mark passAddress 6)]

theorem pass_complete_marked : ∃ t,
    Lib.runFrom (@passStep exampleCodec) passStart markedPass = some t ∧ t.Done ∧
    Dirty passAddress t.accounts ∧ ∃ before after,
      markedPass = before ++ .query [] :: after ∧ ∃ now, .other (.mark passAddress now) ∈ after := by
  have hview : (Lib.runFrom (@passStep exampleCodec) passStart markedPass).map (fun t =>
      (t.source, t.queue, t.running, decide (Dirty passAddress t.accounts))) =
        some (.exhausted, [], [], true) := by decide
  obtain ⟨t, hrun, hview⟩ := Option.map_eq_some_iff.mp hview
  simp only [Prod.mk.injEq] at hview
  have hdone : t.Done := ⟨hview.1, hview.2.1, hview.2.2.1⟩
  have hdirty := of_decide_eq_true hview.2.2.2
  obtain ⟨before, after, u, hes, -, -, -, hmarked⟩ := @pass_complete exampleCodec passStart t
    markedPass passStart_starts passStart_reached hrun hdone
  exact ⟨t, hrun, hdone, hdirty, before, after, hes, hmarked passAddress hdirty⟩

end Tronscan
