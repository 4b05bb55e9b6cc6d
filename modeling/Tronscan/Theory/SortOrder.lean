import Tronscan.Api.Sorting
import Mathlib.Data.String.Basic

/-!
# The Order of a Listing

A request that names several columns means the first of them to count most. The
query sorts by the first, and then by the second on top of it, so it is the last
that counts most.

With one column there is no difference, nor where no two rows are told apart
differently by the first and the last column they differ in.

## Main definitions

* `Lexicographic`: A listing is in the order of the columns as they are named.

## Theorems

* `lexicographic_iff`: When a listing is.
* `lexicographic_singleton`: One column is in order.
* `not_lexicographic_tokens`: Two tokens by date and supply.
-/

namespace Tronscan

open Lib (Key lexLe)

section Listings

variable {ρ : Type}

/-- The listing of a request is in the order of the columns it names, the first
    of them counting most. -/
def Lexicographic (sorter : String → Option (Key ρ)) (request : Request) (keys : List (Key ρ))
    (rows : List ρ) : Prop :=
  ∃ query, sortWithColumns sorter request = some query ∧ (query rows).Perm rows ∧
    (query rows).Pairwise fun a b => lexLe keys a b = true

/-- A listing is in that order exactly when any two rows are put in the same order
    by the first and by the last of the columns that they differ in. -/
theorem lexicographic_iff (sorter : String → Option (Key ρ)) (request : Request) (json : String)
    (hsort : request.getQueryString "sort" = some json) (keys : List (Key ρ))
    (hkeys : (split json).mapM (sortKey sorter) = some keys) (rows : List ρ) :
    Lexicographic sorter request keys rows ↔
      ∀ a ∈ rows, ∀ b ∈ rows, ∀ first ∈ keys.find? (·.Differs a b),
        ∀ last ∈ keys.reverse.find? (·.Differs a b), first.le a b = last.le a b := by
  have hquery := sortWithColumns_eq_some hsort hkeys
  rw [← Lib.sortByKeys_lexicographic_iff]
  constructor
  · rintro ⟨query, hquery', _, hsorted⟩
    rw [hquery] at hquery'
    rwa [Option.some.inj hquery']
  · intro hsorted
    exact ⟨_, hquery, Lib.perm_sortByKeys keys rows, hsorted⟩

/-- A listing by one column is in order. -/
theorem lexicographic_singleton {sorter : String → Option (Key ρ)} {request : Request} {json : String}
    (hsort : request.getQueryString "sort" = some json) {key : Key ρ}
    (hkey : (split json).mapM (sortKey sorter) = some [key]) (rows : List ρ) :
    Lexicographic sorter request [key] rows := by
  rw [lexicographic_iff sorter request json hsort [key] hkey]
  -- Both of the columns that matter are the one there is.
  intro a _ b _ first hfirst last hlast
  rw [List.mem_singleton.mp (List.mem_of_find?_eq_some hfirst),
    List.mem_singleton.mp (List.mem_of_find?_eq_some hlast)]

end Listings

/-! ## Two tokens -/

/-- A token on sale from a day on. -/
def exampleToken (startTime totalSupply : Int) : AssetIssueContractModel where
  block := 1
  transaction := ""
  ownerAddress := ""
  name := ""
  abbr := ""
  totalSupply := totalSupply
  trxNum := 1
  num := 1
  startTime := startTime
  endTime := startTime + 1
  voteScore := 0
  description := ""
  url := ""
  dateCreated := 0

/-- Strings by their characters. -/
def codePoints : Key String where
  le a b := decide (a ≤ b)
  total a b := by
    simp only [decide_eq_true_eq]
    exact le_total a b
  trans a b c := by
    simp only [decide_eq_true_eq]
    exact le_trans

/-- By the date first, and then by the supply. -/
def dateAndSupply : List (Key AssetIssueContractModel) :=
  [.ofInt (·.startTime), .ofInt (·.totalSupply)]

theorem dateAndSupply_keys : (split "date_start,supply").mapM (sortKey (TokenApi.sorter codePoints)) =
    some dateAndSupply := by
  have hsplit : split "date_start,supply" = ["date_start", "supply"] := by decide +kernel
  rw [hsplit]
  rfl

theorem lexicographic_iff_tokens :
    (exampleRequest "sort" "date_start,supply").getQueryString "sort" = some "date_start,supply" ∧
    Lexicographic (TokenApi.sorter codePoints) (exampleRequest "sort" "date_start,supply")
      dateAndSupply [exampleToken 1 1, exampleToken 2 2] := by
  refine ⟨rfl, (lexicographic_iff _ _ _ rfl _ dateAndSupply_keys _).mpr ?_⟩
  decide

/-- The earlier of two tokens comes last, because there is more of it. -/
theorem not_lexicographic_tokens :
    (split "date_start,supply").mapM (sortKey (TokenApi.sorter codePoints)) = some dateAndSupply ∧
    ¬ Lexicographic (TokenApi.sorter codePoints) (exampleRequest "sort" "date_start,supply")
      dateAndSupply [exampleToken 1 2, exampleToken 2 1] := by
  refine ⟨dateAndSupply_keys, ?_⟩
  rw [lexicographic_iff _ _ _ rfl _ dateAndSupply_keys _]
  decide

end Tronscan
