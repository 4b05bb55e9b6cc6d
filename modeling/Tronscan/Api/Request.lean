import Tronscan.Lib.Table
import Mathlib.Data.List.DropRight
import Mathlib.Data.List.Sort
import Mathlib.Algebra.Ring.Int.Defs

/-!
# Requests for a Listing

What a listing endpoint does with its request: `BaseApi`, and the functions of
`TableRepository` that filter, sort and page by request.

The parameters of a request are a map from names to lists of values. Two views
of it are taken. The key under which an answer is cached is made of the names in
lower case, each with its values. Filtering, sorting and paging look names up as
they were sent.

The order in which a Scala map is traversed, `toLowerCase`, which depends on the
locale of the machine, `Character.digit` and Joda's date parser are the platform's.

A query on a table is a function on its rows. A request that cannot be turned
into a query, or that the database refuses, has none.

## Main definitions

* `Platform`: What the program takes from the platform.
* `Request`: The parameters of a request.
* `Request.queryHash`, `Request.filterHash`: The parts of a cache key.
* `filterRequest`, `sortWithRequest`, `limitWithRequest`: A request as a query.
* `examplePlatform`, `exampleRequest`: The platform of the worked requests, and
  a request with one parameter.

## Theorems

* `Request.mem_params`: The parameters a query is filtered by.
* `foldlM_filter`: All the filters of a request have to hold.
* `filterRequest_congr`: Only the parameters with a filter matter.
-/

namespace Tronscan

/-- The functions the program takes from the platform. A map is given by its
    bindings in the order they were added. -/
class Platform where
  toLowerCase : String → String
  digit : Char → Option Nat
  parseDateTime : String → Option Int
  order : {α : Type} → List (String × α) → List (String × α)
  order_perm : ∀ {α : Type} (bindings : List (String × α)), (order bindings).Perm bindings

/-- The query string of a request: each name once, with its values. -/
structure Request where
  queryString : List (String × List String)
  nodup : (queryString.map (·.1)).Nodup

namespace Request

/-- The first value of a parameter. -/
def getQueryString (request : Request) (name : String) : Option String :=
  (request.queryString.lookup name).bind List.head?

/-- The values of a parameter, run together. -/
def value (request : Request) (name : String) : Option String :=
  (request.queryString.lookup name).map String.join

variable [Platform] (request : Request)

/-- A map with the bindings added one after the other, as it is traversed. -/
def toMap {α : Type} (bindings : List (String × α)) : List (String × α) :=
  Platform.order (bindings.foldl (fun map binding => Lib.upsert (·.1) binding map) [])

/-- The parameters as filters read them, several values run together. -/
def params : List (String × String) :=
  toMap (request.queryString.map fun x => (x.1, String.join x.2))

/-- The parameters as cache keys have them. -/
def queryParams : List (String × String) :=
  toMap (request.queryString.map fun x => (Platform.toLowerCase x.1, String.join x.2))

/-- Names and values run together. -/
def hash (params : List (String × String)) : String :=
  String.join (params.map fun x => x.1 ++ "-" ++ x.2)

/-- The hash of all the parameters. -/
def queryHash : String := hash request.queryParams

theorem mem_toMap {α : Type} {bindings : List (String × α)}
    (hnodup : (bindings.map (·.1)).Nodup) {binding : String × α} :
    binding ∈ toMap bindings ↔ binding ∈ bindings := by
  rw [toMap, (Platform.order_perm _).mem_iff,
    Lib.foldl_upsert_fresh hnodup fun _ _ _ h => absurd h List.not_mem_nil, List.nil_append]

omit [Platform] in
theorem lookup_eq_some {α : Type} {bindings : List (String × α)}
    (hnodup : (bindings.map (·.1)).Nodup) {name : String} {x : α} :
    bindings.lookup name = some x ↔ (name, x) ∈ bindings := by
  induction bindings with
  | nil => exact iff_of_false (fun h => by cases h) List.not_mem_nil
  | cons binding bindings ih =>
      rcases binding with ⟨name', y⟩
      rw [List.map_cons, List.nodup_cons] at hnodup
      rw [List.lookup_cons, List.mem_cons, Prod.mk.injEq]
      by_cases hname : name = name'
      · -- No other binding has the name.
        subst hname
        simp only [beq_self_eq_true, Option.some.injEq, true_and]
        refine ⟨fun h => Or.inl h.symm, fun h => h.elim Eq.symm fun hmem => ?_⟩
        exact absurd (List.mem_map_of_mem (f := (·.1)) hmem) hnodup.1
      · simp only [beq_false_of_ne hname, ih hnodup.2]
        exact ⟨Or.inr, fun h => h.elim (fun h => absurd h.1 hname) id⟩

/-- A query is filtered by each parameter with its values. -/
theorem mem_params {name value : String} :
    (name, value) ∈ request.params ↔ request.value name = some value := by
  have hnodup : ((request.queryString.map fun x => (x.1, String.join x.2)).map (·.1)).Nodup := by
    rw [List.map_map]
    exact request.nodup
  rw [params, mem_toMap hnodup, Request.value, Option.map_eq_some_iff, List.mem_map]
  constructor
  · rintro ⟨⟨name', values⟩, hmem, h⟩
    cases h
    exact ⟨values, (lookup_eq_some request.nodup).mpr hmem, rfl⟩
  · rintro ⟨values, hvalues, rfl⟩
    exact ⟨(name, values), (lookup_eq_some request.nodup).mp hvalues, rfl⟩

end Request

namespace BaseApi

/-- The parameters that choose a page and filter nothing. -/
def navParams : List String := ["start", "limit", "sort", "count"]

/-- Drop the parameters that choose a page. -/
def stripNav (params : List (String × String)) : List (String × String) :=
  params.filter fun x => !navParams.contains x.1

end BaseApi

/-- The hash of the parameters that filter. -/
def Request.filterHash [Platform] (request : Request) : String :=
  hash (BaseApi.stripNav request.queryParams)

section Parsing

variable [Platform]

/-- `Long.parseLong` and `Integer.parseInt`: a sign or none, digits, and a value
    within the bounds. -/
def parseNumber (low high : Int) (s : String) : Option Int := do
  let (negative, digits) := match s.toList with
    | '-' :: digits => (true, digits)
    | '+' :: digits => (false, digits)
    | digits => (false, digits)
  if digits = [] then none
  else
    let values ← digits.mapM Platform.digit
    let n : Int := values.foldl (fun n d => 10 * n + d) 0
    let value := if negative then -n else n
    if low ≤ value ∧ value ≤ high then some value else none

/-- `String.toLong`; none where it throws. -/
def toLong : String → Option Int := parseNumber (-2 ^ 63) (2 ^ 63 - 1)

/-- `String.toInt`; none where it throws. -/
def toInt : String → Option Int := parseNumber (-2 ^ 31) (2 ^ 31 - 1)

/-- A time in milliseconds, or a date. -/
def toDate (value : String) : Option Int :=
  (toLong value).or (Platform.parseDateTime value)

/-- `String.split`, which drops the empty strings at the end of a split. -/
def split (s : String) : List String :=
  let parts := (s.toList.splitOn ',').map String.ofList
  if parts.length = 1 then parts else parts.rdropWhile (· == "")

end Parsing

section Queries

variable [Platform] {ρ : Type}

/-- Add one filter for each parameter. -/
def filterRequest (e : String × String → Option (ρ → Bool)) (request : Request) :
    Option (List ρ → List ρ) :=
  request.params.foldlM (fun query param => do
    let keep ← e param
    return fun rows => (query rows).filter keep) id

omit [Platform] in
/-- The filters of the parameters have to exist, and all of them have to hold. -/
theorem foldlM_filter (e : String × String → Option (ρ → Bool)) (params : List (String × String))
    (query : List ρ → List ρ) :
    params.foldlM (fun query param => do
        let keep ← e param
        return fun rows => (query rows).filter keep) query =
      if params.all (fun param => (e param).isSome) then
        some fun rows => (query rows).filter fun row =>
          params.all fun param => (e param).any (· row)
      else none := by
  induction params generalizing query with
  | nil => simp only [List.foldlM_nil, List.all_nil, if_true, List.filter_true]; rfl
  | cons param params ih =>
      rw [List.foldlM_cons]
      cases hparam : e param with
      | none =>
          simp only [List.all_cons, hparam, Option.isSome_none, Bool.false_and, Bool.false_eq_true,
            if_false]
          rfl
      | some keep =>
          refine (ih fun rows => (query rows).filter keep).trans ?_
          simp only [List.all_cons, hparam, Option.isSome_some, Bool.true_and, Option.any_some,
            List.filter_filter, Bool.and_comm]

/-- A query is filtered alike by requests that agree on the parameters it has
    filters for, in whatever order either is traversed. -/
theorem filterRequest_congr {e : String × String → Option (ρ → Bool)} {names : List String}
    {request request' : Request}
    (hskip : ∀ name value, name ∉ names → e (name, value) = some fun _ => true)
    (hvalue : ∀ name ∈ names, request.value name = request'.value name) :
    filterRequest e request = filterRequest e request' := by
  have hmem : ∀ name ∈ names, ∀ value,
      (name, value) ∈ request.params ↔ (name, value) ∈ request'.params := by
    intro name hname value
    rw [Request.mem_params, Request.mem_params, hvalue name hname]
  -- A test the other parameters pass comes out the same.
  have hall : ∀ p : String × String → Bool,
      (∀ name value, name ∉ names → p (name, value) = true) →
      request.params.all p = request'.params.all p := by
    intro p hp
    rw [Bool.eq_iff_iff, List.all_eq_true, List.all_eq_true]
    constructor <;> rintro h ⟨name, value⟩ hparam <;> by_cases hname : name ∈ names
    · exact h _ ((hmem name hname value).mpr hparam)
    · exact hp name value hname
    · exact h _ ((hmem name hname value).mp hparam)
    · exact hp name value hname
  rw [filterRequest, filterRequest, foldlM_filter, foldlM_filter,
    hall (fun param => (e param).isSome) fun name value hname => by rw [hskip name value hname]; rfl]
  have hrows : ∀ row, (request.params.all fun param => (e param).any (· row)) =
      request'.params.all fun param => (e param).any (· row) := fun row =>
    hall (fun param => (e param).any (· row)) fun name value hname => by
      rw [hskip name value hname]; rfl
  simp only [hrows]

/-- Sort by a column, rows that agree on it staying in order. -/
def sortBy (column : ρ → Int) (isDescendingOrder : Bool) (rows : List ρ) : List ρ :=
  if isDescendingOrder then rows.insertionSort (column · ≥ column ·)
  else rows.insertionSort (column · ≤ column ·)

omit [Platform] in
/-- Sort by the columns named, the last of them first. -/
def sortWithRequest (sorter : String → Option (ρ → Int)) (request : Request) :
    Option (List ρ → List ρ) :=
  match request.getQueryString "sort" with
  | none => some id
  | some json => (split json).foldlM (fun query obj => do
      let isDescendingOrder := obj.toList.head? == some '-'
      let property := if isDescendingOrder then String.ofList (obj.toList.drop 1) else obj
      let column ← sorter property
      return fun rows => sortBy column isDescendingOrder (query rows)) id

/-- Skip to the start and take up to a hundred rows. The database refuses
    negative numbers. -/
def limitWithRequest (request : Request) : Option (List ρ → List ρ) := do
  let start ← match request.getQueryString "start" with
    | none => some 0
    | some start => toInt start
  let limit ← match request.getQueryString "limit" with
    | none => some 100
    | some limit => (toInt limit).map fun n => if n < 100 then n else 100
  if 0 ≤ start ∧ 0 ≤ limit then
    some fun rows => (rows.drop start.toNat).take limit.toNat
  else none

end Queries

/-- The platform of the worked requests, which have ASCII characters only, no
    dates, and few enough parameters for a map to be traversed in order. -/
@[reducible] def examplePlatform : Platform where
  toLowerCase s := String.ofList (s.toList.map Char.toLower)
  digit c := if c.isDigit then some (c.toNat - '0'.toNat) else none
  parseDateTime _ := none
  order bindings := bindings
  order_perm _ := List.Perm.refl _

/-- A request with one parameter. -/
def exampleRequest (name value : String) : Request where
  queryString := [(name, [value])]
  nodup := List.nodup_singleton _

end Tronscan
