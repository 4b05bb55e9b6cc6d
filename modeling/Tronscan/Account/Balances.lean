import Tronscan.Account.Sync

/-!
# Token Balances, Twice

`AccountService.syncAddress` over both of the tables it writes. The token balances
of an account are kept as JSON in its row of `accounts`, and row by row in
`address_balance`.

A sync is three steps here: it reads the account from the node, it upserts the
row, and it replaces the balances of the address. Each of the last two is a
transaction of its own. Any number of syncs are under way at a time, of the same
address or not, and addresses are marked dirty meanwhile.

What the machine remembers of the past is what was written for which address, in
order, table by table.

## Main definitions

* `AddressBalanceModel`: A row of `address_balance`.
* `NodeAccount`: An account as a node answers it, its assets a map.
* `updateBalance`: The transaction that replaces the balances of an address.
* `BalanceState`, `BalanceEvent`, `balanceStep`: Syncs over both tables.

## Theorems

* `updateBalance_syncModel`: The replacement is never refused.
* `balanceStep_upsert`, `balanceStep_replace`: What the two writes do.
-/

namespace Tronscan

/-- A row of `address_balance`; the name is that of the token. -/
structure AddressBalanceModel where
  address : String
  name : String
  balance : Int
  deriving DecidableEq

/-- The constraint `address_balance_address_token_pk`. -/
abbrev AddressBalanceModel.key (row : AddressBalanceModel) : String × String :=
  (row.address, row.name)

/-- A JSON object of numbers, as a map. -/
def asMap : Json → Option (List (String × Int))
  | .obj fields => fields.mapM fun (token, value) =>
      match value with
      | .num balance => some (token, balance)
      | _ => none
  | _ => none

/-- The token balances in a row of `accounts`, if it has any. -/
def AccountModel.balances (row : AccountModel) : List (String × Int) :=
  (row.tokenBalances.bind asMap).getD []

/-- An insert, refused when the address has a row for the token. -/
def insertBalance (row : AddressBalanceModel) (rows : List AddressBalanceModel) :
    Option (List AddressBalanceModel) :=
  if Lib.hasKey AddressBalanceModel.key row.key rows then none else some (rows ++ [row])

/-- Delete the balances of the address, and insert those of the row. -/
def updateBalance (accountModel : AccountModel) (rows : List AddressBalanceModel) :
    Option (List AddressBalanceModel) := do
  let tokenBalances ← accountModel.tokenBalances.bind asMap
  tokenBalances.foldlM
    (fun rows token => insertBalance ⟨accountModel.address, token.1, token.2⟩ rows)
    (rows.filter fun row => decide (row.address ≠ accountModel.address))

/-- An account as a node answers it. Its assets are a map. -/
structure NodeAccount extends Account where
  nodup : (asset.map (·.1)).Nodup

/-- How far a sync has got. One that has read `null` stays where it is. -/
inductive BalancePhase where
  | read
  | upserted (row : AccountModel)
  | replaced

/-- A sync of one address: what the node answered, none when it did not, and how
    far the sync is. -/
structure BalanceSync where
  address : String
  account : Option NodeAccount
  phase : BalancePhase

/-- Both tables, the syncs, and what they have written so far. -/
structure BalanceState where
  accounts : List AccountModel
  addressBalance : List AddressBalanceModel
  syncs : List BalanceSync := []
  upserts : List (String × NodeAccount) := []
  replacements : List (String × NodeAccount) := []

/-- What can happen: a sync reads its account, writes the account's row, replaces
    the balances of the address, or a mark leaves the row of an address. -/
inductive BalanceEvent where
  | read (address : String) (account : Option NodeAccount)
  | upsert (sync : Nat) (now now' : Int)
  | replace (sync : Nat)
  | mark (address : String) (now : Int)

variable [Codec]

/-- One step; none where a sync is not that far. -/
def balanceStep (s : BalanceState) : BalanceEvent → Option BalanceState
  | .read address account => some { s with syncs := s.syncs ++ [⟨address, account, .read⟩] }
  | .upsert i now now' => do
      let sync ← s.syncs[i]?
      match sync.account, sync.phase with
      | some account, .read =>
          let row := syncModel sync.address account.toAccount now now'
          some { s with
            accounts := Lib.upsert (·.address) row s.accounts
            syncs := s.syncs.set i { sync with phase := .upserted row }
            upserts := s.upserts ++ [(sync.address, account)] }
      | _, _ => none
  | .replace i => do
      let sync ← s.syncs[i]?
      match sync.account, sync.phase with
      | some account, .upserted row =>
          let addressBalance ← updateBalance row s.addressBalance
          some { s with
            addressBalance := addressBalance
            syncs := s.syncs.set i { sync with phase := .replaced }
            replacements := s.replacements ++ [(sync.address, account)] }
      | _, _ => none
  | .mark address now => some { s with accounts := markDirty address now s.accounts }

section Rows

variable {address : String} {rows : List AddressBalanceModel}

omit [Codec] in
/-- Balances of distinct tokens are inserted one by one where the address has none
    of them. -/
theorem foldlM_insertBalance {tokens : List (String × Int)} (hnodup : (tokens.map (·.1)).Nodup)
    (hfresh : ∀ token ∈ tokens, ∀ row ∈ rows, row.key ≠ (address, token.1)) :
    tokens.foldlM (fun rows token => insertBalance ⟨address, token.1, token.2⟩ rows) rows =
      some (rows ++ tokens.map fun token => ⟨address, token.1, token.2⟩) := by
  induction tokens generalizing rows with
  | nil => rw [List.foldlM_nil, List.map_nil, List.append_nil]; rfl
  | cons token tokens ih =>
      rw [List.map_cons, List.nodup_cons] at hnodup
      have hinsert : insertBalance ⟨address, token.1, token.2⟩ rows =
          some (rows ++ [⟨address, token.1, token.2⟩]) := by
        have hfree := Lib.hasKey_eq_false.mpr (hfresh token List.mem_cons_self)
        rw [insertBalance, hfree, if_neg Bool.false_ne_true]
      rw [List.foldlM_cons, hinsert]
      refine (ih hnodup.2 ?_).trans ?_
      · intro token' htoken' row hrow hkey
        rcases List.mem_append.mp hrow with hrow | hrow
        · exact hfresh token' (List.mem_cons_of_mem token htoken') row hrow hkey
        · rw [List.mem_singleton.mp hrow] at hkey
          have hsame : token.1 = token'.1 := (Prod.mk.inj hkey).2
          exact hnodup.1 (hsame ▸ List.mem_map_of_mem htoken')
      · rw [List.append_assoc, List.singleton_append, List.map_cons]

/-- What a sync has put into its row can be read back. -/
theorem asMap_syncModel (address : String) (account : Account) (now now' : Int) :
    (syncModel address account now now').tokenBalances.bind asMap = some account.asset := by
  simp only [syncModel, Option.bind_some, asMap, List.mapM_map]
  induction account.asset with
  | nil => rfl
  | cons token tokens ih => rw [List.mapM_cons]; simp only [Function.comp_apply, ih]; rfl

theorem balances_syncModel (address : String) (account : Account) (now now' : Int) :
    (syncModel address account now now').balances = account.asset := by
  rw [AccountModel.balances, asMap_syncModel, Option.getD_some]

/-- The replacement goes through, whatever the table holds. -/
theorem updateBalance_syncModel (account : NodeAccount) (now now' : Int) :
    updateBalance (syncModel address account.toAccount now now') rows =
      some ((rows.filter fun row => decide (row.address ≠ address)) ++
        account.asset.map fun token => ⟨address, token.1, token.2⟩) := by
  rw [updateBalance, asMap_syncModel]
  refine foldlM_insertBalance account.nodup fun token _ row hrow hkey => ?_
  exact (of_decide_eq_true (List.mem_filter.mp hrow).2) (Prod.mk.inj hkey).1

end Rows

section Steps

variable {s t : BalanceState} {i : Nat}

theorem balanceStep_upsert {now now' : Int} (h : balanceStep s (.upsert i now now') = some t) :
    ∃ sync account, s.syncs[i]? = some sync ∧ sync.account = some account ∧ sync.phase = .read ∧
      t = { s with
        accounts := Lib.upsert (·.address) (syncModel sync.address account.toAccount now now')
          s.accounts
        syncs := s.syncs.set i
          { sync with phase := .upserted (syncModel sync.address account.toAccount now now') }
        upserts := s.upserts ++ [(sync.address, account)] } := by
  rcases Option.bind_eq_some_iff.mp h with ⟨sync, hsync, h⟩
  split at h
  · rename_i account haccount hphase
    exact ⟨sync, account, hsync, haccount, hphase, (Option.some.inj h).symm⟩
  · cases h

theorem balanceStep_replace (h : balanceStep s (.replace i) = some t) :
    ∃ sync account row addressBalance, s.syncs[i]? = some sync ∧ sync.account = some account ∧
      sync.phase = .upserted row ∧ updateBalance row s.addressBalance = some addressBalance ∧
      t = { s with
        addressBalance := addressBalance
        syncs := s.syncs.set i { sync with phase := .replaced }
        replacements := s.replacements ++ [(sync.address, account)] } := by
  rcases Option.bind_eq_some_iff.mp h with ⟨sync, hsync, h⟩
  split at h
  · rename_i account row haccount hphase
    rcases Option.bind_eq_some_iff.mp h with ⟨addressBalance, hrows, h⟩
    exact ⟨sync, account, row, addressBalance, hsync, haccount, hphase, hrows,
      (Option.some.inj h).symm⟩
  · cases h

end Steps

end Tronscan
