import Tronscan.Account.Balances
import Tronscan.Core.Wire

/-!
# Two Tables of Balances

When no sync of an address is under way, its rows in `address_balance` should be
the token balances in its row of `accounts`.

Each table holds what was last written to it. A sync writes one table after the
other, and another sync of the same address can write both in between. Then the
first sync has the last word in one table and the second in the other. If the
account has changed between their reads, the tables differ, and nothing brings
them together again until the next sync.

So the tables agree on an address exactly when the sync that was the last to
write the one and the sync that was the last to write the other have read the
same token balances. That is so if they are one sync, as they are when the syncs
of the address take turns.

## Main definitions

* `TablesAgree`: Both tables have the same balances for an address.
* `Synced`, `Idle`: An address has been synced; no sync is under way.
* `lastWrite`: What was last written for an address.
* `SameBalances`: Two accounts have the same token balances.
* `BalanceEvent.InTurn`: A sync replaces the balances that are in the row.

## Theorems

* `balanceInv_step`: Each table holds what was last written.
* `tablesAgree_iff`: When the tables agree.
* `tablesAgree_of_inTurn`: They do if the syncs of an address take turns.
* `not_tablesAlwaysAgree_overlap`: Two syncs that overlap.
-/

namespace Tronscan

namespace BalanceState

/-- The rows of `address_balance` for an address are the balances in its row of
    `accounts`. -/
def TablesAgree (s : BalanceState) (address : String) : Prop :=
  ∀ token balance, ⟨address, token, balance⟩ ∈ s.addressBalance ↔
    ∃ row ∈ s.accounts, row.address = address ∧ (token, balance) ∈ row.balances

/-- A sync of the address is through. -/
def Synced (s : BalanceState) (address : String) : Prop :=
  ∃ sync ∈ s.syncs, sync.address = address ∧ sync.phase = .replaced

/-- No sync is under way: each has replaced the balances, or has read `null`. -/
def Idle (s : BalanceState) : Prop :=
  ∀ sync ∈ s.syncs, sync.account = none ∨ sync.phase = .replaced

/-- No sync has been started. -/
def Fresh (s : BalanceState) : Prop :=
  s.syncs = [] ∧ s.upserts = [] ∧ s.replacements = []

end BalanceState

/-- What was last written for an address. -/
def lastWrite (address : String) (writes : List (String × NodeAccount)) : Option NodeAccount :=
  (writes.filter fun write => decide (write.1 = address)).getLast?.map (·.2)

/-- Two accounts have been read, and with the same token balances. -/
def SameBalances (account account' : Option NodeAccount) : Prop :=
  ∃ x y, account = some x ∧ account' = some y ∧ ∀ token, token ∈ x.asset ↔ token ∈ y.asset

theorem lastWrite_append (address : String) (writes : List (String × NodeAccount))
    (write : String × NodeAccount) :
    lastWrite address (writes ++ [write]) =
      if write.1 = address then some write.2 else lastWrite address writes := by
  rw [lastWrite, List.filter_append, List.getLast?_append]
  by_cases h : write.1 = address
  · rw [if_pos h, List.filter_cons_of_pos (by rwa [decide_eq_true_eq])]
    rfl
  · rw [if_neg h, List.filter_cons_of_neg (by rwa [decide_eq_true_eq])]
    rfl

theorem lastWrite_isSome {address : String} {account : NodeAccount}
    {writes : List (String × NodeAccount)} (h : (address, account) ∈ writes) :
    ∃ last, lastWrite address writes = some last := by
  rw [← Option.isSome_iff_exists, lastWrite, Option.isSome_map, List.getLast?_isSome]
  have hmem : (address, account) ∈ writes.filter fun write => decide (write.1 = address) :=
    List.mem_filter.mpr ⟨h, decide_eq_true rfl⟩
  exact List.ne_nil_of_mem hmem

/-- A mark touches no balances, and the row it inserts has none. -/
theorem markDirty_balances {address marked : String} {now : Int} {accounts : List AccountModel}
    {token : String × Int} :
    (∃ row ∈ markDirty marked now accounts, row.address = address ∧ token ∈ row.balances) ↔
      ∃ row ∈ accounts, row.address = address ∧ token ∈ row.balances := by
  rw [markDirty]
  split
  · simp only [List.mem_map, exists_exists_and_eq_and]
    refine exists_congr fun row => and_congr_right fun _ => ?_
    split <;> exact Iff.rfl
  · simp only [List.mem_append, List.mem_singleton, or_and_right, exists_or, exists_eq_left]
    exact or_iff_left fun h => by cases h.2

variable [Codec]

/-- Where a sync stands: it has built its row from what it read, and what it has
    written is on record. -/
def BalanceSync.Recorded (sync : BalanceSync) (s : BalanceState) : Prop :=
  match sync.phase with
  | .read => True
  | .upserted row => ∃ account now now', sync.account = some account ∧
      row = syncModel sync.address account.toAccount now now' ∧
      (sync.address, account) ∈ s.upserts
  | .replaced => ∃ account, (sync.address, account) ∈ s.upserts ∧
      (sync.address, account) ∈ s.replacements

/-- Each table holds, for each address, what was last written for it. -/
structure BalanceInv (s : BalanceState) : Prop where
  recorded : ∀ sync ∈ s.syncs, sync.Recorded s
  accounts : ∀ address account, lastWrite address s.upserts = some account → ∀ token,
    (∃ row ∈ s.accounts, row.address = address ∧ token ∈ row.balances) ↔ token ∈ account.asset
  addressBalance : ∀ address account, lastWrite address s.replacements = some account →
    ∀ token balance, ⟨address, token, balance⟩ ∈ s.addressBalance ↔ (token, balance) ∈ account.asset

section Invariant

variable {s t : BalanceState} {i : Nat}

theorem recorded_mono {sync : BalanceSync} (h : sync.Recorded s)
    (hupserts : s.upserts ⊆ t.upserts) (hreplacements : s.replacements ⊆ t.replacements) :
    sync.Recorded t := by
  rw [BalanceSync.Recorded] at h ⊢
  split at h
  · trivial
  · rcases h with ⟨account, now, now', haccount, hrow, hmem⟩
    exact ⟨account, now, now', haccount, hrow, hupserts hmem⟩
  · rcases h with ⟨account, hmem, hmem'⟩
    exact ⟨account, hupserts hmem, hreplacements hmem'⟩

theorem balanceInv_fresh (h : s.Fresh) : BalanceInv s := by
  rcases h with ⟨hsyncs, hupserts, hreplacements⟩
  refine ⟨fun sync hsync => ?_, fun address account hlast => ?_, fun address account hlast => ?_⟩
  · rw [hsyncs] at hsync
    cases hsync
  · rw [hupserts] at hlast
    cases hlast
  · rw [hreplacements] at hlast
    cases hlast

theorem balanceInv_upsert {now now' : Int} (hI : BalanceInv s)
    (h : balanceStep s (.upsert i now now') = some t) : BalanceInv t := by
  rcases balanceStep_upsert h with ⟨sync, account, hsync, haccount, _, rfl⟩
  refine ⟨Lib.forall_mem_set (fun x hx => ?_) ?_, fun address last hlast token => ?_,
    hI.addressBalance⟩
  · exact recorded_mono (hI.recorded x hx) (List.subset_append_left _ _) (List.Subset.refl _)
  · exact ⟨account, now, now', haccount, rfl, List.mem_append_right _ List.mem_cons_self⟩
  · rw [lastWrite_append] at hlast
    simp only [Lib.mem_upsert]
    split at hlast
    · -- The row of the address is the one just written.
      rename_i haddress
      cases hlast
      constructor
      · rintro ⟨row, rfl | ⟨_, hother⟩, hrow, htoken⟩
        · rwa [balances_syncModel] at htoken
        · exact absurd (hrow.trans haddress.symm) hother
      · intro htoken
        refine ⟨_, Or.inl rfl, haddress, ?_⟩
        rwa [balances_syncModel]
    · rename_i haddress
      rw [← hI.accounts address last hlast]
      constructor
      · rintro ⟨row, rfl | ⟨hmem, _⟩, hrow, htoken⟩
        · exact absurd hrow haddress
        · exact ⟨row, hmem, hrow, htoken⟩
      · rintro ⟨row, hmem, hrow, htoken⟩
        exact ⟨row, Or.inr ⟨hmem, fun hkey => haddress (hkey.symm.trans hrow)⟩, hrow, htoken⟩

theorem balanceInv_replace (hI : BalanceInv s) (h : balanceStep s (.replace i) = some t) :
    BalanceInv t := by
  rcases balanceStep_replace h with
    ⟨sync, account, row, addressBalance, hsync, haccount, hphase, hrows, rfl⟩
  have hrecorded := hI.recorded sync (List.mem_of_getElem? hsync)
  rw [BalanceSync.Recorded, hphase] at hrecorded
  rcases hrecorded with ⟨account', now, now', haccount', rfl, hupsert⟩
  cases haccount.symm.trans haccount'
  rw [updateBalance_syncModel] at hrows
  cases hrows
  refine ⟨Lib.forall_mem_set (fun x hx => ?_) ?_, hI.accounts,
    fun address last hlast token balance => ?_⟩
  · exact recorded_mono (hI.recorded x hx) (List.Subset.refl _) (List.subset_append_left _ _)
  · exact ⟨account, hupsert, List.mem_append_right _ List.mem_cons_self⟩
  · rw [lastWrite_append] at hlast
    simp only [List.mem_append, List.mem_filter, decide_eq_true_eq, List.mem_map,
      AddressBalanceModel.mk.injEq]
    split at hlast
    · -- The rows of the address are the ones just written.
      rename_i haddress
      cases hlast
      constructor
      · rintro (⟨_, hother⟩ | ⟨x, hx, _, rfl, rfl⟩)
        · exact absurd haddress.symm hother
        · exact hx
      · exact fun htoken => Or.inr ⟨_, htoken, haddress, rfl, rfl⟩
    · rename_i haddress
      rw [← hI.addressBalance address last hlast]
      constructor
      · rintro (⟨hmem, _⟩ | ⟨x, _, hsame, _⟩)
        · exact hmem
        · exact absurd hsame haddress
      · exact fun hmem => Or.inl ⟨hmem, fun hsame => haddress hsame.symm⟩

theorem balanceInv_step {e : BalanceEvent} (hI : BalanceInv s) (h : balanceStep s e = some t) :
    BalanceInv t := by
  cases e with
  | read address account =>
      cases h
      refine ⟨fun sync hsync => ?_, hI.accounts, hI.addressBalance⟩
      rcases List.mem_append.mp hsync with hsync | hsync
      · exact hI.recorded sync hsync
      · rw [List.mem_singleton.mp hsync]
        trivial
  | upsert i now now' => exact balanceInv_upsert hI h
  | replace i => exact balanceInv_replace hI h
  | mark address now =>
      cases h
      refine ⟨hI.recorded, fun address last hlast token => ?_, hI.addressBalance⟩
      exact markDirty_balances.trans (hI.accounts address last hlast token)

/-- What has been synced has been written to both tables. -/
theorem exists_lastWrite (hI : BalanceInv s) {address : String} (h : s.Synced address) :
    ∃ x y, lastWrite address s.upserts = some x ∧ lastWrite address s.replacements = some y := by
  rcases h with ⟨sync, hsync, rfl, hphase⟩
  have hrecorded := hI.recorded sync hsync
  rw [BalanceSync.Recorded, hphase] at hrecorded
  rcases hrecorded with ⟨account, hupsert, hreplace⟩
  rcases lastWrite_isSome hupsert with ⟨x, hx⟩
  rcases lastWrite_isSome hreplace with ⟨y, hy⟩
  exact ⟨x, y, hx, hy⟩

theorem tablesAgree_address (hI : BalanceInv s) {address : String} (h : s.Synced address) :
    s.TablesAgree address ↔
      SameBalances (lastWrite address s.upserts) (lastWrite address s.replacements) := by
  rcases exists_lastWrite hI h with ⟨x, y, hx, hy⟩
  have hsame : SameBalances (lastWrite address s.upserts) (lastWrite address s.replacements) ↔
      ∀ token, token ∈ x.asset ↔ token ∈ y.asset := by
    rw [SameBalances, hx, hy]
    constructor
    · rintro ⟨_, _, hx, hy, hsame⟩
      cases hx
      cases hy
      exact hsame
    · exact fun hsame => ⟨x, y, rfl, rfl, hsame⟩
  rw [hsame, BalanceState.TablesAgree, Prod.forall]
  refine forall₂_congr fun token balance => ?_
  rw [hI.addressBalance address y hy, hI.accounts address x hx]
  exact iff_comm

end Invariant

/-- Whatever the syncs and marks so far, the tables agree on the addresses synced
    exactly when the last write to the one and the last write to the other, for
    each of them, have the same balances. -/
theorem tablesAgree_iff {s t : BalanceState} {events : List BalanceEvent} (hfresh : s.Fresh)
    (hrun : Lib.runFrom balanceStep s events = some t) :
    (∀ address, t.Synced address → t.TablesAgree address) ↔
      ∀ address, t.Synced address →
        SameBalances (lastWrite address t.upserts) (lastWrite address t.replacements) := by
  have hI : BalanceInv t :=
    Lib.invariant_of_step (fun _ _ _ => balanceInv_step) s t events (balanceInv_fresh hfresh) hrun
  exact forall₂_congr fun address hsynced => tablesAgree_address hI hsynced

section Turns

/-- A sync replaces the balances of an address only while the row of the address
    has the balances it has read: no other sync has come in between, or none with
    a difference. -/
def BalanceEvent.InTurn (s : BalanceState) : BalanceEvent → Prop
  | .replace i => ∀ sync, s.syncs[i]? = some sync →
      SameBalances (lastWrite sync.address s.upserts) sync.account
  | _ => True

/-- The sync has yet to replace the balances of the address, having upserted the
    account. -/
def BalanceSync.Owes (address : String) (account : NodeAccount) (sync : BalanceSync) : Prop :=
  sync.address = address ∧ sync.account = some account ∧ ∃ row, sync.phase = .upserted row

/-- What was last upserted has been replaced too, or is still owed. -/
def TurnInv (s : BalanceState) : Prop :=
  ∀ address account, lastWrite address s.upserts = some account →
    SameBalances (some account) (lastWrite address s.replacements) ∨
      ∃ sync ∈ s.syncs, sync.Owes address account

variable {s t : BalanceState} {e : BalanceEvent}

theorem turnInv_step (hI : TurnInv s) (hturn : e.InTurn s) (h : balanceStep s e = some t) :
    TurnInv t := by
  cases e with
  | read address account =>
      cases h
      intro address last hlast
      rcases hI address last hlast with hsame | ⟨sync, hsync, howes⟩
      · exact Or.inl hsame
      · exact Or.inr ⟨sync, List.mem_append_left _ hsync, howes⟩
  | upsert i now now' =>
      rcases balanceStep_upsert h with ⟨sync, account, hsync, haccount, hphase, rfl⟩
      intro address last hlast
      rw [lastWrite_append] at hlast
      have hnot : ¬ sync.Owes address last := fun howes => by
        rcases howes.2.2 with ⟨row, hrow⟩
        cases hphase.symm.trans hrow
      split at hlast
      · -- The sync owes what it has just upserted.
        rename_i haddress
        cases hlast
        exact Or.inr ((Lib.exists_mem_set hsync hnot).mpr (Or.inl ⟨haddress, haccount, _, rfl⟩))
      · rcases hI address last hlast with hsame | howed
        · exact Or.inl hsame
        · exact Or.inr ((Lib.exists_mem_set hsync hnot).mpr (Or.inr howed))
  | replace i =>
      rcases balanceStep_replace h with
        ⟨sync, account, row, addressBalance, hsync, haccount, hphase, hrows, rfl⟩
      have hsame := hturn sync hsync
      intro address last hlast
      simp only [lastWrite_append]
      split
      · -- It is its turn, so what it replaces is what was last upserted.
        rename_i haddress
        rw [haddress, haccount, hlast] at hsame
        exact Or.inl hsame
      · rename_i haddress
        have hnot : ¬ sync.Owes address last := fun howes => haddress howes.1
        rcases hI address last hlast with hsame | howed
        · exact Or.inl hsame
        · exact Or.inr ((Lib.exists_mem_set hsync hnot).mpr (Or.inr howed))
  | mark address now =>
      cases h
      exact hI

/-- If the syncs of an address take turns, the tables agree whenever all is quiet. -/
theorem tablesAgree_of_inTurn {events : List BalanceEvent} (hfresh : s.Fresh)
    (hturns : Lib.Along balanceStep (fun s e => e.InTurn s) s events)
    (hrun : Lib.runFrom balanceStep s events = some t) (hidle : t.Idle) :
    ∀ address, t.Synced address → t.TablesAgree address := by
  have hI : BalanceInv t :=
    Lib.invariant_of_step (fun _ _ _ => balanceInv_step) s t events (balanceInv_fresh hfresh) hrun
  have hstart : TurnInv s := fun address account hlast => by
    rw [hfresh.2.1] at hlast
    cases hlast
  have hturn : TurnInv t :=
    Lib.invariant_along (fun _ _ _ => turnInv_step) s t events hstart hturns hrun
  intro address hsynced
  rcases exists_lastWrite hI hsynced with ⟨x, _, hx, _⟩
  rw [tablesAgree_address hI hsynced, hx]
  rcases hturn address x hx with hsame | ⟨sync, hsync, _, haccount, row, hphase⟩
  · exact hsame
  · -- Nothing is owed when no sync is under way.
    rcases hidle sync hsync with hnone | hreplaced
    · cases haccount.symm.trans hnone
    · cases hphase.symm.trans hreplaced

end Turns

/-- The property as one would like to have it. -/
def TablesAlwaysAgree : Prop :=
  ∀ (s t : BalanceState) (events : List BalanceEvent), s.Fresh →
    Lib.runFrom balanceStep s events = some t → t.Idle →
    ∀ address, t.Synced address → t.TablesAgree address

omit [Codec]

/-- An account with the given balance of one token. -/
def tokenAccount (balance : Int) : NodeAccount where
  asset := [("T", balance)]
  nodup := List.nodup_singleton _

/-- Both syncs are through, and the second one has written both tables last. -/
def inOrder : BalanceState where
  accounts := markDirty "A" 5 [@syncModel exampleCodec "A" (tokenAccount 2).toAccount 3 4]
  addressBalance := [⟨"A", "T", 2⟩]
  syncs := [⟨"A", some (tokenAccount 1), .replaced⟩, ⟨"A", some (tokenAccount 2), .replaced⟩]
  upserts := [("A", tokenAccount 1), ("A", tokenAccount 2)]
  replacements := [("A", tokenAccount 1), ("A", tokenAccount 2)]

/-- Two syncs that overlap, and a mark before the last write. -/
theorem tablesAgree_iff_inOrder : ∃ t,
    Lib.runFrom (@balanceStep exampleCodec) ⟨[], [], [], [], []⟩
      [.read "A" (some (tokenAccount 1)), .read "A" (some (tokenAccount 2)), .upsert 0 1 2,
        .upsert 1 3 4, .replace 0, .mark "A" 5, .replace 1] = some t ∧
    (∃ address, t.Synced address) ∧ ∀ address, t.Synced address → t.TablesAgree address := by
  let _ := exampleCodec
  have hrun : Lib.runFrom balanceStep ⟨[], [], [], [], []⟩
      [.read "A" (some (tokenAccount 1)), .read "A" (some (tokenAccount 2)), .upsert 0 1 2,
        .upsert 1 3 4, .replace 0, .mark "A" 5, .replace 1] = some inOrder := rfl
  refine ⟨_, hrun, ?_, (tablesAgree_iff ⟨rfl, rfl, rfl⟩ hrun).mpr ?_⟩
  · exact ⟨"A", _, List.mem_cons_self, rfl, rfl⟩
  · rintro _ ⟨sync, hsync, rfl, _⟩
    have haddress : sync.address = "A" := by
      simp only [inOrder, List.mem_cons, List.not_mem_nil, or_false] at hsync
      rcases hsync with rfl | rfl <;> rfl
    rw [haddress]
    exact ⟨_, _, rfl, rfl, fun _ => Iff.rfl⟩

/-- The two syncs are through, and each table was written by one of them last. -/
def overlapped : BalanceState where
  accounts := [@syncModel exampleCodec "A" (tokenAccount 2).toAccount 3 4]
  addressBalance := [⟨"A", "T", 1⟩]
  syncs := [⟨"A", some (tokenAccount 1), .replaced⟩, ⟨"A", some (tokenAccount 2), .replaced⟩]
  upserts := [("A", tokenAccount 1), ("A", tokenAccount 2)]
  replacements := [("A", tokenAccount 2), ("A", tokenAccount 1)]

/-- The first sync is overtaken between its two writes by a second one, which has
    read a higher balance. -/
theorem not_tablesAlwaysAgree_overlap : ¬ @TablesAlwaysAgree exampleCodec := by
  let _ := exampleCodec
  intro h
  have hrun : Lib.runFrom balanceStep ⟨[], [], [], [], []⟩
      [.read "A" (some (tokenAccount 1)), .read "A" (some (tokenAccount 2)),
        .upsert 0 1 2, .upsert 1 3 4, .replace 1, .replace 0] = some overlapped := rfl
  have hidle : overlapped.Idle := by
    intro sync hsync
    simp only [overlapped, List.mem_cons, List.not_mem_nil, or_false] at hsync
    rcases hsync with rfl | rfl <;> exact Or.inr rfl
  have hagree := h _ _ _ ⟨rfl, rfl, rfl⟩ hrun hidle "A" ⟨_, List.mem_cons_self, rfl, rfl⟩ "T" 1
  -- The balance of the first sync is in one table only.
  rcases hagree.mp List.mem_cons_self with ⟨row, hrow, _, hbalance⟩
  cases List.mem_singleton.mp hrow
  rw [balances_syncModel] at hbalance
  cases List.mem_singleton.mp hbalance

end Tronscan
