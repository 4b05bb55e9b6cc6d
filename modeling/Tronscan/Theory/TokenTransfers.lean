import Tronscan.Core.Wire
import Tronscan.Importer.Run

/-!
# Transfers of a Token

The page of a token shows how often the token was transferred. It counts the rows
of `transfers` that have the name of the asset as their token.

The name of an asset is stored without the blanks around it. The token of a transfer
is stored as it is. So the transfers of an asset whose name begins or ends with a
blank are never counted, and the transfers that are counted in their place are
those of another token, the one that has the name without the blanks. If that is
`TRX`, they are all transfers of TRX.

A name without such blanks is counted right, as far as text is UTF-8: what is not
UTF-8 is read as some text or other, and that may be the name of an asset.

## Main definitions

* `countTokenTransfers`: The number on the page.
* `issuedAssets`, `transferredAssets`: What a history says of tokens.
* `transferredNames`: The names what it transfers is stored under.
* `TokenCounted`: The number is right.
* `IsTrimmed`: A text without blanks around it.

## Theorems

* `import_tokenNames`, `import_assetNames`: The names an import stores.
* `tokenCounted_iff_counts`: What the number is.
* `tokenCounted_of_trimmed`: When it is right for a name without blanks around it.
* `not_tokenCounted_blank`: A name that begins with a blank.
-/

namespace Tronscan

open BlockImporter

/-- `TransferModelRepository.countTokenTransfers`. -/
def countTokenTransfers (tokenName : String) (db : Database) : Nat :=
  (db.transfers.filter fun x => decide (x.tokenName = tokenName)).length

namespace ContractMessage

/-- The asset a contract issues. -/
def issued? : ContractMessage → Option AssetIssueContract
  | .assetIssue c => some c
  | _ => none

/-- The name of the asset a contract transfers. -/
def assetName? : ContractMessage → Option Bytes
  | .transferAsset c => some c.assetName
  | _ => none

end ContractMessage

section History

variable [Codec]

/-- The name that what a contract transfers is stored under. -/
def ContractMessage.tokenName? : ContractMessage → Option String
  | .transfer _ => some "TRX"
  | .transferAsset c => some (decodeString c.assetName)
  | _ => none

/-- The contracts of a block that can be decoded. -/
def Block.messages (block : Block) : List ContractMessage :=
  block.transactionContracts.filterMap fun tc => (ProtoUtils.fromContract tc.2).toOption

/-- The assets issued in a history. -/
def issuedAssets (blocks : List Block) : List AssetIssueContract :=
  (blocks.flatMap Block.messages).filterMap ContractMessage.issued?

/-- The names of the assets transferred in a history, a name for each transfer. -/
def transferredAssets (blocks : List Block) : List Bytes :=
  (blocks.flatMap Block.messages).filterMap ContractMessage.assetName?

/-- The names that what a history transfers is stored under. -/
def transferredNames (blocks : List Block) : List String :=
  (blocks.flatMap Block.messages).filterMap ContractMessage.tokenName?

/-- The name an asset is stored under. -/
def AssetIssueContract.storedName (asset : AssetIssueContract) : String :=
  TransactionSerializer.trim (decodeString asset.name)

end History

/-- The text neither begins nor ends with a blank, which is any character up to `' '`. -/
def IsTrimmed (text : String) : Prop :=
  (∀ c ∈ text.toList.head?, ' ' < c) ∧ ∀ c ∈ text.toList.getLast?, ' ' < c

/-- There is nothing to trim. -/
theorem trim_of_isTrimmed {text : String} (h : IsTrimmed text) :
    TransactionSerializer.trim text = text := by
  have hdrop : ∀ cs : List Char, (∀ c ∈ cs.head?, ' ' < c) →
      cs.dropWhile (fun c => decide (c.toNat ≤ 32)) = cs := by
    intro cs hhead
    cases cs with
    | nil => rfl
    | cons c cs =>
        have hlt : 32 < c.toNat := hhead c rfl
        rw [List.dropWhile_cons_of_neg (by rw [decide_eq_true_eq]; omega)]
  rw [TransactionSerializer.trim, hdrop _ h.1, hdrop _ (by rw [List.head?_reverse]; exact h.2), List.reverse_reverse,
    String.ofList_toList]

/-- As many rows are counted for an asset as there are transfers of it. -/
def TokenCounted [Codec] (asset : AssetIssueContract) (row : AssetIssueContractModel)
    (blocks : List Block) (db : Database) : Prop :=
  countTokenTransfers row.name db = (transferredAssets blocks).count asset.name

namespace Query

/-- The name of the asset a query adds. -/
def assetName? : Query → Option String
  | insertAssetIssue row => some row.name
  | _ => none

/-- The token of the transfer a query adds. -/
def tokenName? (q : Query) : Option String := q.transferRow.map (·.tokenName)

end Query

/-- Importing adds the names of the assets among its queries. -/
theorem foldl_assetNames {qs : List Query} (himport : ∀ q ∈ qs, q.isImport = true)
    (rows : List AssetIssueContractModel) :
    (qs.foldl (fun rows q => q.onAssetIssues rows) rows).map (·.name) =
      rows.map (·.name) ++ qs.filterMap Query.assetName? := by
  induction qs generalizing rows with
  | nil => rw [List.foldl_nil, List.filterMap_nil, List.append_nil]
  | cons q qs ih =>
      have hq := himport q List.mem_cons_self
      rw [List.foldl_cons, ih fun p hp => himport p (List.mem_cons_of_mem q hp)]
      cases q with
      | insertAssetIssue row =>
          rw [Query.onAssetIssues, List.map_append, List.append_assoc]
          rfl
      | updateAsset columns =>
          -- An update leaves the names.
          rw [Query.onAssetIssues, Lib.map_keys_update _ fun r => by split <;> rfl]
          rfl
      | deleteAssetIssues number => cases hq
      | _ => rfl

section Import

variable [Codec] {blocks : List Block} {c : Bool} {db : Database}

/-- What the queries of an import show of its contracts. -/
structure Shown {α : Type} (row : Query → Option α) (message : ContractMessage → Option α) :
    Prop where
  block : ∀ r, row (.insertBlock r) = none
  transaction : ∀ r, row (.insertTransaction r) = none
  contract : ∀ {c block trx contract qs}, fullNodeContractQueries c block trx contract = .ok qs →
    ∃ m, ProtoUtils.fromContract contract = .ok m ∧ qs.filterMap row = (message m).toList

theorem contractQueries_names {block : Block} {trx : Transaction} {contract : Contract}
    {qs : List Query} (h : fullNodeContractQueries c block trx contract = .ok qs) :
    ∃ m, ProtoUtils.fromContract contract = .ok m ∧
      qs.filterMap Query.assetName? = (m.issued?.map (·.storedName)).toList ∧
      qs.filterMap Query.tokenName? = m.tokenName?.toList := by
  rw [fullNodeContractQueries_eq, ModelUtils.contractToModel] at h
  rcases hmessage : ProtoUtils.fromContract contract with thrown | m
  · rw [hmessage] at h
    cases h
  · rw [hmessage] at h
    refine ⟨m, rfl, ?_⟩
    cases m with
    | voteWitness votes =>
        cases h
        exact ⟨filterMap_buildUpdateVotes rfl (fun _ => rfl) _,
          filterMap_buildUpdateVotes rfl (fun _ => rfl) _⟩
    | _ =>
        cases h
        exact ⟨rfl, rfl⟩

theorem shown_assetName :
    Shown Query.assetName? fun m => m.issued?.map AssetIssueContract.storedName where
  block _ := rfl
  transaction _ := rfl
  contract h := by
    rcases contractQueries_names h with ⟨m, hm, hasset, _⟩
    exact ⟨m, hm, hasset⟩

theorem shown_tokenName : Shown Query.tokenName? ContractMessage.tokenName? where
  block _ := rfl
  transaction _ := rfl
  contract h := by
    rcases contractQueries_names h with ⟨m, hm, _, htoken⟩
    exact ⟨m, hm, htoken⟩

/-- What is shown of a block. -/
theorem Shown.blockQueries {α : Type} {row : Query → Option α}
    {message : ContractMessage → Option α} (hshown : Shown row message) {block : Block}
    {qs : List Query} (h : fullNodeBlockQueries c block = .ok qs) :
    qs.filterMap row = block.messages.filterMap message := by
  rcases Lib.bind_ok_iff.mp h with ⟨transactions, htransactions, h⟩
  rcases Lib.bind_ok_iff.mp h with ⟨contracts, hcontracts, h⟩
  cases h
  -- Of the three parts of a block's queries, only the contracts have names.
  have htrx : transactions.filterMap row = [] := by
    refine List.filterMap_eq_nil_iff.mpr fun q hq => ?_
    rcases Lib.mapM_ok_mem htransactions hq with ⟨trx, _, htrx⟩
    rcases Lib.bind_ok_iff.mp htrx with ⟨r, _, hr⟩
    cases hr
    exact hshown.transaction _
  have hrest : contracts.flatten.filterMap row = block.messages.filterMap message := by
    rw [Block.messages, List.filterMap_filterMap]
    refine Lib.filterMap_flatten_of_forall₂ (((Lib.mapM_ok_iff _ _ _).mp hcontracts).imp ?_)
    intro tc qs hqs
    rcases hshown.contract hqs with ⟨m, hm, hrow⟩
    rw [hrow, hm]
    rfl
  rw [List.filterMap_cons_none (hshown.block _), List.filterMap_append, htrx, hrest,
    List.nil_append]

/-- What is shown of a history. -/
theorem Shown.fullNodeQueries {α : Type} {row : Query → Option α}
    {message : ContractMessage → Option α} (hshown : Shown row message)
    (hreadable : ∀ block ∈ blocks, block.Readable) :
    (fullNodeQueries c blocks).filterMap row =
      (blocks.flatMap Block.messages).filterMap message := by
  rw [BlockImporter.fullNodeQueries, List.filterMap_flatMap, List.filterMap_flatMap]
  refine List.flatMap_congr fun block hblock => ?_
  rcases extract_ok_iff.mpr (hreadable block hblock) with ⟨e, he⟩
  have hqueries : fullNodeBlockQueries c block = .ok (e.fullNodeQueries c) := by
    rw [fullNodeBlockQueries_eq, he]
    rfl
  rw [hqueries]
  exact hshown.blockQueries hqueries

/-- The tokens of the transfers are the names of what was transferred. -/
theorem import_tokenNames (hreadable : ∀ block ∈ blocks, block.Readable)
    (hdb : execQueries (fullNodeQueries c blocks) Database.empty = some db) :
    db.transfers.map (·.tokenName) = transferredNames blocks := by
  rw [(execQueries_import (fun q hq => isImport_fullNodeQueries q hq) hdb).2.2.1, transferredNames,
    ← shown_tokenName.fullNodeQueries (c := c) hreadable]
  exact List.map_filterMap

/-- The names of the assets are those that were issued, without blanks around them. -/
theorem import_assetNames (hreadable : ∀ block ∈ blocks, block.Readable)
    (hdb : execQueries (fullNodeQueries c blocks) Database.empty = some db) :
    db.assetIssueContract.map (·.name) = (issuedAssets blocks).map (·.storedName) := by
  rw [execQueries_assetIssues hdb, foldl_assetNames fun q hq => isImport_fullNodeQueries q hq,
    shown_assetName.fullNodeQueries hreadable, issuedAssets, List.map_filterMap]
  rfl

/-- The rows counted are the transfers stored under the name. -/
theorem countTokenTransfers_eq (hreadable : ∀ block ∈ blocks, block.Readable)
    (hdb : execQueries (fullNodeQueries c blocks) Database.empty = some db) (tokenName : String) :
    countTokenTransfers tokenName db = (transferredNames blocks).count tokenName := by
  rw [countTokenTransfers, ← import_tokenNames hreadable hdb, List.count_eq_countP,
    List.countP_map, List.countP_eq_length_filter]
  rfl

/-- Off `TRX`, these are the transfers of the assets whose names are read so. -/
theorem count_transferredNames {tokenName : String} (hname : tokenName ≠ "TRX") :
    (transferredNames blocks).count tokenName =
      (transferredAssets blocks).countP fun name => decide (decodeString name = tokenName) := by
  rw [transferredNames, transferredAssets, List.count_filterMap, List.countP_filterMap]
  refine List.countP_congr fun m _ => ?_
  -- A transfer of TRX has no asset, and its token is not the name.
  cases m with
  | transfer m => simp [ContractMessage.tokenName?, ContractMessage.assetName?, hname.symm]
  | _ => simp [ContractMessage.tokenName?, ContractMessage.assetName?]

/-- What is counted for an asset is what was transferred under the name without blanks. -/
theorem tokenCounted_iff_counts (hreadable : ∀ block ∈ blocks, block.Readable)
    (hdb : execQueries (fullNodeQueries c blocks) Database.empty = some db)
    {row : AssetIssueContractModel} {asset : AssetIssueContract}
    (hissued : (row, asset) ∈ db.assetIssueContract.zip (issuedAssets blocks)) :
    TokenCounted asset row blocks db ↔
      (transferredNames blocks).count asset.storedName =
        (transferredAssets blocks).count asset.name := by
  have hstored : row.name = asset.storedName := by
    have hnames := import_assetNames hreadable hdb
    rw [← List.forall₂_eq_eq_eq, List.forall₂_map_left_iff, List.forall₂_map_right_iff] at hnames
    exact List.forall₂_zip hnames hissued
  rw [TokenCounted, countTokenTransfers_eq hreadable hdb, hstored]

/-- Where the name of an asset neither begins nor ends with a blank, its transfers are
    counted right exactly when it is the name of no other, as far as names are read: the
    names that are read so are UTF-8. -/
theorem tokenCounted_of_trimmed (hcharset : ∀ s, decodeString (encodeString s) = s)
    (hreadable : ∀ block ∈ blocks, block.Readable)
    (hdb : execQueries (fullNodeQueries c blocks) Database.empty = some db)
    {row : AssetIssueContractModel} {asset : AssetIssueContract}
    (hissued : (row, asset) ∈ db.assetIssueContract.zip (issuedAssets blocks)) {text : String}
    (hname : asset.name = encodeString text) (htrx : text ≠ "TRX") (htrimmed : IsTrimmed text) :
    TokenCounted asset row blocks db ↔
      ∀ name ∈ transferredAssets blocks, decodeString name = text → IsUtf8 name := by
  have hstored : asset.storedName = text := by
    rw [AssetIssueContract.storedName, hname, hcharset, trim_of_isTrimmed htrimmed]
  rw [tokenCounted_iff_counts hreadable hdb hissued, hstored, hname, count_transferredNames htrx,
    List.count_eq_countP, eq_comm]
  -- The rows are those of the names that are read the same, this one among them.
  rw [Lib.countP_eq_iff fun name _ h => by
    rw [eq_of_beq h, hcharset]
    exact decide_eq_true rfl]
  refine forall₂_congr fun name _ => ?_
  rw [decide_eq_true_eq, beq_iff_eq]
  refine forall_congr' fun hread => ⟨fun h => ⟨text, h.symm⟩, fun h => ?_⟩
  rw [← encodeString_decodeString hcharset h, hread]

end Import

/-- The property as one would like to have it, for all assets. -/
def AllTokensCounted [Codec] : Prop :=
  ∀ (blocks : List Block) (c : Bool) (db : Database), (∀ block ∈ blocks, block.Readable) →
    ((issuedAssets blocks).map (·.name)).Nodup →
    execQueries (fullNodeQueries c blocks) Database.empty = some db →
    ∀ row asset, (row, asset) ∈ db.assetIssueContract.zip (issuedAssets blocks) →
      IsUtf8 asset.name → asset.name ≠ encodeString "TRX" → TokenCounted asset row blocks db

/-- Two assets, one with a blank in front of the name of the other, and a transfer of
    the other. -/
def exampleAsset : AssetIssueContract :=
  { ownerAddress := exampleOwner, name := encodeString "X" }

/-- A token whose name has a blank before it. -/
def blankAsset : AssetIssueContract :=
  { ownerAddress := exampleRecipient, name := encodeString " X" }

/-- A transfer of the token without the blank. -/
def exampleMove : TransferAssetContract :=
  { assetName := encodeString "X", ownerAddress := exampleOwner
    toAddress := exampleRecipient, amount := 1 }

/-- Their wire format. -/
def assetBytes (asset : AssetIssueContract) : Bytes :=
  Wire.bytes 1 asset.ownerAddress ++ Wire.bytes 2 asset.name

/-- Its bytes. -/
def exampleMoveBytes : Bytes :=
  Wire.bytes 1 exampleMove.assetName ++ Wire.bytes 2 exampleOwner ++
    Wire.bytes 3 exampleRecipient ++ Wire.number 4 1

/-- SHA-256 of their transactions. -/
def tokenDigests : List (Bytes × Bytes) := [
  ([90, 32, 8, 6, 18, 28, 18, 26, 10, 21, 65, 1, 1, 1, 1, 1, 1, 1, 1, 1, 1, 1, 1, 1, 1, 1,
    1, 1, 1, 1, 1, 18, 1, 88],
    [35, 156, 76, 245, 75, 58, 2, 56, 106, 45, 43, 35, 147, 230, 90, 74, 5, 171, 107, 163,
      28, 198, 91, 238, 53, 215, 18, 113, 133, 192, 55, 145]),
  ([90, 33, 8, 6, 18, 29, 18, 27, 10, 21, 65, 2, 2, 2, 2, 2, 2, 2, 2, 2, 2, 2, 2, 2, 2, 2,
    2, 2, 2, 2, 2, 18, 2, 32, 88],
    [16, 110, 123, 59, 6, 118, 165, 76, 55, 189, 146, 158, 123, 97, 161, 229, 102, 117, 212,
      35, 203, 178, 145, 215, 77, 253, 235, 21, 22, 133, 125, 243]),
  ([90, 57, 8, 2, 18, 53, 18, 51, 10, 1, 88, 18, 21, 65, 1, 1, 1, 1, 1, 1, 1, 1, 1, 1, 1,
    1, 1, 1, 1, 1, 1, 1, 1, 1, 26, 21, 65, 2, 2, 2, 2, 2, 2, 2, 2, 2, 2, 2, 2, 2, 2, 2, 2,
    2, 2, 2, 2, 32, 1],
    [55, 31, 165, 187, 201, 216, 128, 181, 165, 99, 243, 101, 198, 69, 50, 242, 131, 194,
      134, 227, 7, 79, 30, 7, 21, 97, 19, 128, 233, 123, 20, 2])]

/-- The codec that knows the two tokens and the transfer. -/
@[reducible] def tokenCodec : Codec :=
  { utf8Codec with
    sha256 := Wire.digest (tokenDigests ++ exampleDigests)
    sha256_length := Wire.digest_length _
    assetIssueContract := Wire.decoder
      [(assetBytes exampleAsset, exampleAsset), (assetBytes blankAsset, blankAsset)] {}
    transferAssetContract := Wire.decoder [(exampleMoveBytes, exampleMove)] {} }

/-- A transaction that issues a token. -/
def issueTransaction (asset : AssetIssueContract) : Transaction :=
  { rawData := some { contract := [{ type := .assetIssueContract
                                     parameter := assetBytes asset }] } }

/-- The transaction of the transfer. -/
def moveTransaction : Transaction :=
  { rawData := some { contract := [{ type := .transferAssetContract
                                     parameter := exampleMoveBytes }] } }

/-- A block that issues both tokens and moves one of them. -/
def tokenChain : List Block :=
  [emptyBlock 0, childBlock (emptyBlock 0) 0
    [issueTransaction exampleAsset, issueTransaction blankAsset, moveTransaction]]

theorem tokenChain_readable : ∀ block ∈ tokenChain, @Block.Readable tokenCodec block := by
  decide +kernel

theorem tokenChain_history : @issuedAssets tokenCodec tokenChain = [exampleAsset, blankAsset] ∧
    @transferredAssets tokenCodec tokenChain = [encodeString "X"] ∧
    @transferredNames tokenCodec tokenChain = ["X"] := by
  decide +kernel

theorem tokenChain_import : ∃ db row row',
    execQueries (@fullNodeQueries tokenCodec false tokenChain) Database.empty = some db ∧
    db.assetIssueContract.zip (@issuedAssets tokenCodec tokenChain) =
      [(row, exampleAsset), (row', blankAsset)] := by
  have himport : (execQueries (@fullNodeQueries tokenCodec false tokenChain)
      Database.empty).isSome = true := by decide +kernel
  rcases Option.isSome_iff_exists.mp himport with ⟨db, hdb⟩
  have hnames := @import_assetNames tokenCodec _ _ db tokenChain_readable hdb
  have hlength := congrArg List.length hnames
  rw [List.length_map, List.length_map, tokenChain_history.1] at hlength
  rcases List.length_eq_two.mp hlength with ⟨row, row', hrows⟩
  refine ⟨db, row, row', hdb, ?_⟩
  rw [hrows, tokenChain_history.1]
  rfl

/-- The transfer is counted for the one. -/
theorem tokenCounted_of_trimmed_example : ∃ db row,
    execQueries (@fullNodeQueries tokenCodec false tokenChain) Database.empty = some db ∧
    @TokenCounted tokenCodec exampleAsset row tokenChain db := by
  rcases tokenChain_import with ⟨db, row, row', hdb, hissued⟩
  have htrimmed : IsTrimmed "X" := ⟨by simp, by simp⟩
  refine ⟨db, row, hdb, (@tokenCounted_of_trimmed tokenCodec _ _ db newUtf8String_encodeString
    tokenChain_readable hdb row exampleAsset ?_ "X" rfl (by decide) htrimmed).mpr ?_⟩
  · rw [hissued]
    exact List.mem_cons_self
  · rw [tokenChain_history.2.1]
    intro name hname _
    exact ⟨"X", (List.mem_singleton.mp hname).symm⟩

/-- And for the other, which was never transferred. -/
theorem not_tokenCounted_blank : ¬ @AllTokensCounted tokenCodec := by
  intro h
  rcases tokenChain_import with ⟨db, row, row', hdb, hissued⟩
  have hpair : (row', blankAsset) ∈
      db.assetIssueContract.zip (@issuedAssets tokenCodec tokenChain) := by
    rw [hissued]
    exact List.mem_cons_of_mem _ List.mem_cons_self
  have hnodup : ((@issuedAssets tokenCodec tokenChain).map (·.name)).Nodup := by
    rw [tokenChain_history.1]
    decide
  have hcounted := h tokenChain false db tokenChain_readable hnodup hdb row' blankAsset hpair
    ⟨" X", rfl⟩ (by decide)
  rw [@tokenCounted_iff_counts tokenCodec _ _ db tokenChain_readable hdb row' blankAsset hpair]
    at hcounted
  have hstored : @AssetIssueContract.storedName tokenCodec blankAsset = "X" := by decide +kernel
  rw [hstored, tokenChain_history.2.1, tokenChain_history.2.2] at hcounted
  revert hcounted
  decide

end Tronscan
