import Tronscan.Core.Extract
import Tronscan.Lib.System
import Tronscan.Lib.Table
import Mathlib.Algebra.Ring.Int.Defs

/-!
# Keeping Accounts Fresh

`AccountService` and `AccountModelRepository`: reading an account off a node,
writing its row, marking an address dirty, and finding the dirty ones.

A row is dirty when it was updated after it was last synced. A mark sets the
update time to now. A sync sets both times, the update time five seconds behind
so that the row it writes is clean.

A sync is three steps. It reads the account from the node, it builds the row,
reading the clock twice, and it writes the row. Other syncs and marks can come
between any two of them. There is one clock, which every step advances.

## Main definitions

* `AccountModel`: A row of `accounts`.
* `syncModel`: The row a sync writes.
* `markDirty`: The query that marks an address.
* `dirtyRows`, `findAddressesWhichNeedSync`: The dirty rows, and the query for 250 of them.
* `AccountState`, `AccountEvent`, `accountStep`: Syncs and marks over one table.

## Theorems

* `findAddressesWhichNeedSync_eq_some`: What the query answers, where it does.
* `accountStep_read` and its kin: What each event does.
-/

namespace Tronscan

/-- `Account`, as the node answers it. -/
structure Account where
  accountName : Bytes := []
  balance : Int := 0
  asset : List (String × Int) := []
  frozenBalances : List Int := []
  createTime : Int := 0

/-- A row of `accounts`. The columns a mark leaves open are nullable. -/
structure AccountModel where
  address : String
  name : Option String := none
  balance : Option Int := none
  power : Int := 0
  tokenBalances : Option Json := none
  dateCreated : Int
  dateUpdated : Int
  dateSynced : Int

/-- The row `syncAddress` writes, from two readings of the clock. -/
def syncModel [Codec] (address : String) (account : Account) (now now' : Int) : AccountModel where
  address := address
  name := some (decodeString account.accountName)
  balance := some account.balance
  power := account.frozenBalances.sum
  tokenBalances := some (.obj (account.asset.map fun (token, balance) => (token, .num balance)))
  dateCreated := account.createTime
  -- Set update a few seconds behind so it doesn't trigger another resync
  dateUpdated := now - 5000
  dateSynced := now'

/-- `buildMarkAddressDirtyQuery`: insert a row, or update the date of the one
    that is there. -/
def markDirty (address : String) (now : Int) (accounts : List AccountModel) : List AccountModel :=
  if Lib.hasKey (·.address) address accounts then
    accounts.map fun row => if row.address = address then { row with dateUpdated := now } else row
  else
    accounts ++ [{ address := address, dateCreated := now, dateUpdated := now, dateSynced := now }]

/-- The condition of `findAddressesWhichNeedSync`. -/
def AccountModel.NeedsSync (row : AccountModel) : Prop := row.dateUpdated > row.dateSynced

instance AccountModel.decidableNeedsSync (row : AccountModel) : Decidable row.NeedsSync :=
  inferInstanceAs (Decidable (row.dateUpdated > row.dateSynced))

/-- The dirty rows. -/
def dirtyRows (accounts : List AccountModel) : List AccountModel :=
  accounts.filter fun row => decide row.NeedsSync

/-- The row can be read into the class of the table, which has no optional columns. One
    that a mark has inserted cannot. -/
def AccountModel.Readable (row : AccountModel) : Prop :=
  row.name.isSome = true ∧ row.balance.isSome = true ∧ row.tokenBalances.isSome = true

instance AccountModel.decidableReadable (row : AccountModel) : Decidable row.Readable :=
  inferInstanceAs (Decidable (_ ∧ _ ∧ _))

/-- The first 250 of the dirty rows. The query throws if one of these cannot be read. -/
def findAddressesWhichNeedSync (accounts : List AccountModel) : Option (List AccountModel) :=
  let rows := (dirtyRows accounts).take 250
  if ∀ row ∈ rows, row.Readable then some rows else none

theorem findAddressesWhichNeedSync_eq_some {accounts rows : List AccountModel} :
    findAddressesWhichNeedSync accounts = some rows ↔
      (∀ row ∈ (dirtyRows accounts).take 250, row.Readable) ∧ (dirtyRows accounts).take 250 = rows := by
  unfold findAddressesWhichNeedSync
  dsimp only
  rw [Option.ite_none_right_eq_some, Option.some.injEq]

/-- How far a sync has got. -/
inductive SyncPhase where
  /-- It has read the account; a node may answer `null`. -/
  | read (account : Option Account)
  /-- It has built the row. -/
  | built (row : AccountModel)
  /-- It has written the row. -/
  | written (now : Int)

/-- A call of `syncAddress`, with the time it read the account at. -/
structure AccountSync where
  address : String
  readAt : Int
  phase : SyncPhase

/-- The table, the syncs, and every mark so far with its time. -/
structure AccountState where
  clock : Int
  accounts : List AccountModel
  syncs : List AccountSync
  marks : List (String × Int)

/-- What may happen next: a sync goes a step further, or an address is marked. -/
inductive AccountEvent where
  | read (address : String) (account : Option Account) (now : Int)
  | build (sync : Nat) (now now' : Int)
  | write (sync : Nat) (now : Int)
  | mark (address : String) (now : Int)

variable [Codec]

/-- What an event does. It is an event of this state only if the clock has gone on. -/
def accountStep (s : AccountState) : AccountEvent → Option AccountState
  | .read address account now =>
      if s.clock < now then
        some { s with clock := now, syncs := s.syncs ++ [⟨address, now, .read account⟩] }
      else none
  | .build i now now' => do
      let sync ← s.syncs[i]?
      match sync.phase with
      | .read (some account) =>
          -- The clock is read once for each of the two dates.
          if s.clock < now ∧ now < now' then
            some { s with
              clock := now'
              syncs := s.syncs.set i
                { sync with phase := .built (syncModel sync.address account now now') } }
          else none
      | _ => none
  | .write i now => do
      let sync ← s.syncs[i]?
      match sync.phase with
      | .built row =>
          if s.clock < now then
            some { s with
              clock := now
              accounts := Lib.upsert (·.address) row s.accounts
              syncs := s.syncs.set i { sync with phase := .written now } }
          else none
      | _ => none
  | .mark address now =>
      if s.clock < now then
        some { s with
          clock := now
          accounts := markDirty address now s.accounts
          marks := s.marks ++ [(address, now)] }
      else none

section Steps

variable {s t : AccountState} {address : String} {i : Nat} {now now' : Int}

theorem accountStep_read {account : Option Account}
    (h : accountStep s (.read address account now) = some t) :
    s.clock < now ∧
      t = { s with clock := now, syncs := s.syncs ++ [⟨address, now, .read account⟩] } := by
  rw [accountStep] at h
  split at h
  · rename_i hclock
    exact ⟨hclock, (Option.some.inj h).symm⟩
  · cases h

theorem accountStep_build (h : accountStep s (.build i now now') = some t) :
    ∃ sync account, s.syncs[i]? = some sync ∧ sync.phase = .read (some account) ∧
      s.clock < now ∧ now < now' ∧
      t = { s with
        clock := now'
        syncs := s.syncs.set i
          { sync with phase := .built (syncModel sync.address account now now') } } := by
  rcases Option.bind_eq_some_iff.mp h with ⟨sync, hsync, h⟩
  split at h
  · rename_i account hphase
    split at h
    · rename_i hclock
      exact ⟨sync, account, hsync, hphase, hclock.1, hclock.2, (Option.some.inj h).symm⟩
    · cases h
  · cases h

theorem accountStep_write (h : accountStep s (.write i now) = some t) :
    ∃ sync row, s.syncs[i]? = some sync ∧ sync.phase = .built row ∧ s.clock < now ∧
      t = { s with
        clock := now
        accounts := Lib.upsert (·.address) row s.accounts
        syncs := s.syncs.set i { sync with phase := .written now } } := by
  rcases Option.bind_eq_some_iff.mp h with ⟨sync, hsync, h⟩
  split at h
  · rename_i row hphase
    split at h
    · rename_i hclock
      exact ⟨sync, row, hsync, hphase, hclock, (Option.some.inj h).symm⟩
    · cases h
  · cases h

theorem accountStep_mark (h : accountStep s (.mark address now) = some t) :
    s.clock < now ∧
      t = { s with
        clock := now
        accounts := markDirty address now s.accounts
        marks := s.marks ++ [(address, now)] } := by
  rw [accountStep] at h
  split at h
  · rename_i hclock
    exact ⟨hclock, (Option.some.inj h).symm⟩
  · cases h

end Steps

end Tronscan
