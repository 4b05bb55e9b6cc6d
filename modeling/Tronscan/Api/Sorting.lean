import Tronscan.Api.Request
import Tronscan.Account.Sync
import Tronscan.Lib.Lexicographic

/-!
# Sorting a Listing by Several Columns

`TableRepository.sortWithRequest` on columns of any type, and what two of the
listings are sorted by.

The columns are folded over the query, each in a `sortBy` of its own. One such
sort on top of another is a stable sort: the new column comes first, and the
earlier ones break ties.

How the database compares strings is not known. It leaves a `null` for last.

## Main definitions

* `sortKey`: A column and a direction, as a request names them.
* `sortWithColumns`: The columns of a request, one sort after another.
* `TokenApi.sorter`, `AccountApi.sorter`: The columns of two listings.

## Theorems

* `sortWithRequest_eq`: Columns of numbers are columns.
* `sortWithColumns_eq_some`: The query of a request.
-/

namespace Tronscan

open Lib (Key)

/-- A column that may be `null`. -/
def nullsLast {α : Type} (key : Key α) : Key (Option α) where
  le
    | some a, some b => key.le a b
    | none, some _ => false
    | _, none => true
  total a b := by
    rcases a with _ | a <;> rcases b with _ | b <;> simp [key.total]
  trans a b c := by
    rcases a with _ | a <;> rcases b with _ | b <;> rcases c with _ | c <;> simp
    exact key.trans a b c

section Requests

variable {ρ : Type}

/-- A column as a request names it. A `-` in front is for descending order. -/
def sortKey (sorter : String → Option (Key ρ)) (obj : String) : Option (Key ρ) := do
  let isDescendingOrder := obj.toList.head? == some '-'
  let property := if isDescendingOrder then String.ofList (obj.toList.drop 1) else obj
  let column ← sorter property
  return if isDescendingOrder then column.reverse else column

/-- `sortWithRequest`, for columns of any type. -/
def sortWithColumns (sorter : String → Option (Key ρ)) (request : Request) :
    Option (List ρ → List ρ) :=
  match request.getQueryString "sort" with
  | none => some id
  | some json => (split json).foldlM (fun query obj => do
      let key ← sortKey sorter obj
      return fun rows => Lib.sortByKey key (query rows)) id

theorem sortBy_eq (column : ρ → Int) (isDescendingOrder : Bool) (rows : List ρ) :
    sortBy column isDescendingOrder rows = Lib.sortByKey
      (if isDescendingOrder then (Key.ofInt column).reverse else Key.ofInt column) rows := by
  unfold sortBy Lib.sortByKey
  cases isDescendingOrder with
  | false => simp [Key.ofInt]
  | true => simp [Key.ofInt, Key.reverse]

/-- What sorts by numbers is a case of this. -/
theorem sortWithRequest_eq (sorter : String → Option (ρ → Int)) (request : Request) :
    sortWithRequest sorter request =
      sortWithColumns (fun property => (sorter property).map Key.ofInt) request := by
  unfold sortWithRequest sortWithColumns
  cases request.getQueryString "sort" with
  | none => rfl
  | some json =>
      refine congrArg (fun step => (split json).foldlM step id) ?_
      funext query obj
      unfold sortKey
      simp only [sortBy_eq]
      cases sorter _ with
      | none => rfl
      | some column => rfl

theorem foldlM_sortKey {sorter : String → Option (Key ρ)} {objs : List String}
    {keys : List (Key ρ)} (h : objs.mapM (sortKey sorter) = some keys) (query : List ρ → List ρ) :
    objs.foldlM (fun query obj => do
        let key ← sortKey sorter obj
        return fun rows => Lib.sortByKey key (query rows)) query =
      some fun rows => Lib.sortByKeys keys (query rows) := by
  induction objs generalizing keys query with
  | nil =>
      rw [List.mapM_nil] at h
      cases h
      rfl
  | cons obj objs ih =>
      rw [List.mapM_cons] at h
      rcases Option.bind_eq_some_iff.mp h with ⟨key, hkey, h⟩
      rcases Option.bind_eq_some_iff.mp h with ⟨rest, hrest, h⟩
      cases h
      rw [List.foldlM_cons, hkey]
      exact ih hrest fun rows => Lib.sortByKey key (query rows)

/-- A request that names columns there are sorts by each of them in turn. -/
theorem sortWithColumns_eq_some {sorter : String → Option (Key ρ)} {request : Request}
    {json : String} (hsort : request.getQueryString "sort" = some json) {keys : List (Key ρ)}
    (hkeys : (split json).mapM (sortKey sorter) = some keys) :
    sortWithColumns sorter request = some (Lib.sortByKeys keys) := by
  unfold sortWithColumns
  rw [hsort]
  exact foldlM_sortKey hkeys id

end Requests

/-- The columns tokens are sorted by. -/
def TokenApi.sorter (collation : Key String) : String → Option (Key AssetIssueContractModel)
  | "name" => some (collation.comap (·.name))
  | "date_start" => some (.ofInt (·.startTime))
  | "date_end" => some (.ofInt (·.endTime))
  | "supply" => some (.ofInt (·.totalSupply))
  | _ => none

/-- The columns accounts are sorted by. -/
def AccountApi.sorter (collation : Key String) : String → Option (Key AccountModel)
  | "address" => some (collation.comap (·.address))
  | "name" => some ((nullsLast collation).comap (·.name))
  | "balance" => some ((nullsLast (.ofInt id)).comap (·.balance))
  | "power" => some (.ofInt (·.power))
  | "date_created" => some (.ofInt (·.dateCreated))
  | "date_updated" => some (.ofInt (·.dateUpdated))
  | _ => none

end Tronscan
