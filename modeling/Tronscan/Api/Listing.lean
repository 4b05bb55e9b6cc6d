import Tronscan.Api.Request
import Tronscan.Core.Database

/-!
# Listings

`TransferApi.findAll`, `TransactionApi.findAll` and `BlockApi.findAll`: rows of a
table, filtered, sorted and paged by request, with their number on demand, and
kept in a cache for a while.

The three endpoints are built alike. Each has its columns to sort by and its
filters, and an answer is computed from them in the same way. Each has its keys,
one for the answer and one for the total when it is asked for. Where a request
names an address, the keys of transfers and transactions start with it, so that
the answers for an address can be dropped together.

A computation that throws, or that the database refuses, has no answer.

## Main definitions

* `Listing`, `Listing.compute`: A listing, and the answer to a request.
* `TransferApi`, `TransactionApi`, `BlockApi`: The listings and their keys.

## Theorems

* `Listing.compute_congr`: What an answer depends on.
-/

namespace Tronscan

/-- The columns a listing can be sorted by, and its filters. A parameter without
    a filter keeps every row, and one that does not parse throws. -/
structure Listing (ρ : Type) where
  sorter : String → Option (ρ → Int)
  filterBy : String × String → Option (ρ → Bool)

section Compute

variable [Platform] {ρ : Type}

/-- The client asks for the number of rows. -/
def includeCount (request : Request) : Bool := (request.getQueryString "count").isSome

/-- The total, zero when it is not asked for, and the page. -/
def Listing.compute (listing : Listing ρ) (request : Request) (rows : List ρ) :
    Option (Nat × List ρ) := do
  let sort ← sortWithRequest listing.sorter request
  let filter ← filterRequest listing.filterBy request
  let limit ← limitWithRequest request
  let total := if includeCount request then (filter (sort rows)).length else 0
  return (total, limit (filter (sort rows)))

/-- An answer depends on the parameters with a filter, and on those that sort,
    page and count. -/
theorem Listing.compute_congr {listing : Listing ρ} {names : List String}
    {request request' : Request}
    (hskip : ∀ name value, name ∉ names → listing.filterBy (name, value) = some fun _ => true)
    (hvalue : ∀ name ∈ names, request.value name = request'.value name)
    (hnav : ∀ name ∈ ["start", "limit", "sort"],
      request.getQueryString name = request'.getQueryString name)
    (hcount : includeCount request = includeCount request') (rows : List ρ) :
    listing.compute request rows = listing.compute request' rows := by
  have hstart := hnav "start" (by decide)
  have hlimit := hnav "limit" (by decide)
  have hsort := hnav "sort" (by decide)
  simp only [Listing.compute, filterRequest_congr hskip hvalue, sortWithRequest,
    limitWithRequest, hstart, hlimit, hsort, hcount]

end Compute

variable [Platform]

/-- The key of an answer, and that of a total if it is asked for. -/
structure RedisKeys where
  query : String
  total : Option String
  deriving DecidableEq

namespace TransferApi

/-- The parameters the transfer listing filters by. -/
def filterNames : List String :=
  ["block", "to", "from", "token", "hash", "address", "date_start", "date_to"]

/-- The transfer listing: its columns, its filters and the order it starts from. -/
def listing : Listing TransferModel where
  sorter
    | "timestamp" => some (·.timestamp)
    | _ => none
  filterBy
    | ("block", value) => (toLong value).map fun block row => row.block == block
    | ("to", value) => some (·.transferToAddress == value)
    | ("from", value) => some (·.transferFromAddress == value)
    | ("token", value) => some (·.tokenName == value)
    | ("hash", value) => some (·.transactionHash == value)
    | ("address", value) =>
        some fun row => row.transferFromAddress == value || row.transferToAddress == value
    | ("date_start", value) => (toDate value).map fun date row => decide (row.timestamp ≥ date)
    | ("date_to", value) => (toDate value).map fun date row => decide (row.timestamp ≤ date)
    | _ => some fun _ => true

/-- The keys of a request to the transfer listing. With an address the response
    has a key that begins with the address, and the total has the same as without. -/
def redisKeys (request : Request) : RedisKeys where
  query :=
    match request.queryParams.lookup "address" with
    | some address => "address/" ++ address ++ "/transfer-query?" ++ request.queryHash
    | none => "transfers/query?" ++ request.queryHash
  total := if includeCount request then some ("transfers/total?" ++ request.filterHash) else none

/-- What the endpoint computes for a request it has not cached. -/
def getTransfers (request : Request) (db : Database) : Option (Nat × List TransferModel) :=
  listing.compute request db.transfers

theorem filterBy_skip (name value : String) (h : name ∉ filterNames) :
    listing.filterBy (name, value) = some fun _ => true := by
  simp only [filterNames, List.mem_cons, List.not_mem_nil, or_false, not_or] at h
  simp only [listing]
  split <;> simp_all

end TransferApi

namespace TransactionApi

/-- The parameters the transaction listing filters by. -/
def filterNames : List String :=
  ["block", "address", "address_from", "address_to", "hash", "date_start", "date_to",
    "contract_type"]

/-- The transaction listing: its columns, its filters and the order it starts from. -/
def listing : Listing TransactionModel where
  sorter
    | "timestamp" => some (·.timestamp)
    | "block" => some (·.block)
    | _ => none
  filterBy
    | ("block", value) => (toLong value).map fun block row => row.block == block
    | ("address", value) => some fun row => row.ownerAddress == value || row.toAddress == value
    | ("address_from", value) => some (·.ownerAddress == value)
    | ("address_to", value) => some (·.toAddress == value)
    | ("hash", value) => some (·.hash == Platform.toLowerCase value)
    | ("date_start", value) => (toDate value).map fun date row => decide (row.timestamp ≥ date)
    | ("date_to", value) => (toDate value).map fun date row => decide (row.timestamp ≤ date)
    | ("contract_type", value) => (toInt value).map fun type row => row.contractType == type
    | _ => some fun _ => true

/-- The keys of a request to the transaction listing. -/
def redisKeys (request : Request) : RedisKeys where
  query :=
    match request.queryParams.lookup "address" with
    | some address => "address/" ++ address ++ "/transaction-query?" ++ request.queryHash
    | none => "transactions/query?" ++ request.queryHash
  total :=
    if includeCount request then some ("transactions/total?" ++ request.filterHash) else none

/-- The total and the rows the transaction listing answers. -/
def getTransactions (request : Request) (db : Database) :
    Option (Nat × List TransactionModel) :=
  listing.compute request db.transactions

theorem filterBy_skip (name value : String) (h : name ∉ filterNames) :
    listing.filterBy (name, value) = some fun _ => true := by
  simp only [filterNames, List.mem_cons, List.not_mem_nil, or_false, not_or] at h
  simp only [listing]
  split <;> simp_all

end TransactionApi

namespace BlockApi

/-- The parameters the block listing filters by. -/
def filterNames : List String := ["hash", "number", "parenthash", "producer"]

/-- The block listing: its columns, its filters and the order it starts from. -/
def listing : Listing BlockModel where
  sorter
    | "number" => some (·.number)
    | "timestamp" => some (·.timestamp)
    | _ => none
  filterBy
    | ("hash", value) => some (·.hash == value)
    | ("number", value) => (toLong value).map fun number row => row.number == number
    -- As the source has it: the hash of the block, not of its parent.
    | ("parenthash", value) => some (·.hash == value)
    | ("producer", value) => some (·.witnessAddress == value)
    | _ => some fun _ => true

/-- The keys of a request to the block listing. -/
def redisKeys (request : Request) : RedisKeys where
  query := "blocks/query?" ++ request.queryHash
  total := if includeCount request then some ("blocks/total?" ++ request.filterHash) else none

/-- The total and the rows the block listing answers. -/
def getBlocks (request : Request) (db : Database) : Option (Nat × List BlockModel) :=
  listing.compute request db.blocks

theorem filterBy_skip (name value : String) (h : name ∉ filterNames) :
    listing.filterBy (name, value) = some fun _ => true := by
  simp only [filterNames, List.mem_cons, List.not_mem_nil, or_false, not_or] at h
  simp only [listing]
  split <;> simp_all

end BlockApi

end Tronscan
