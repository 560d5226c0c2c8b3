import Eth2077.Node.Daemon
import Eth2077.Node.Focil

/-!
# Queries (`node/src/bin/eth2077-devnetd.rs`)

The requests that read the node: blocks, transactions, receipts and logs, accounts, and the payload headers,
envelopes, timeliness and penalties of a slot or of a range of slots.
-/

namespace Eth2077

/-- The arithmetic of `u64` that neither saturates nor wraps by name: with overflow checks it panics, without
them it wraps. -/
def checkedOp (overflowChecks : Bool) (op : String) (exact : ℕ) : Except Panic UInt64 :=
  if overflowChecks ∧ 2 ^ 64 ≤ exact then .error ⟨s!"attempt to {op} with overflow"⟩ else .ok (UInt64.ofNat exact)

theorem checkedOp_of_lt {n : ℕ} (overflowChecks : Bool) (op : String) (h : n < 2 ^ 64) :
    checkedOp overflowChecks op n = .ok (.ofNat n) :=
  if_neg fun hover => Nat.not_le.mpr h hover.2

theorem asciiLowercase_hexEncode (bs : List UInt8) : asciiLowercase (hexEncode bs) = hexEncode bs := by
  have hlower : (hexEncode bs).toList.map Char.toLower = (hexEncode bs).toList := by
    refine (List.map_congr_left fun c hc => ?_).trans (List.map_id _)
    exact (isLowerHex_of_mem_hexEncode c hc).spec.2.1
  rw [asciiLowercase, hlower, String.ofList_toList]

/-- `start..=stop`. -/
def rangeInclusive (start stop : UInt64) : List UInt64 :=
  (List.range (stop.toNat + 1 - start.toNat)).map fun i => start + UInt64.ofNat i

def strings (l : List String) : Json := .array (l.map .string)

/-- The text of a hash of zeros. -/
def zeroWord : String := "0x0000000000000000000000000000000000000000000000000000000000000000"

def hexU128 (n : BitVec 128) : Json := .string (hexNat n.toNat)

/-! ### Blocks -/

def blockNumberFromHash (hash : String) : Option UInt64 :=
  let raw := strip0x hash.toList
  if raw.length ≠ 64 ∨ !raw.all isAsciiHexdigit then none
  else
    -- the height is encoded plus one
    (parseHexU64 (String.ofList (raw.take 16))).bind fun n => if n = 0 then none else some (n - 1)

def txToJson (tx : TxRecord) (chainId : UInt64) : Json :=
  .object
    [("hash", .string tx.hash), ("nonce", hexU64 tx.nonce), ("blockHash", .ofOption .string tx.blockHash),
      ("blockNumber", .ofOption hexU64 tx.blockNumber), ("transactionIndex", .ofOption hexU64 tx.transactionIndex),
      ("from", .string tx.from), ("to", .ofOption .string tx.to), ("value", .string tx.value),
      ("gas", hexU64 tx.gas), ("gasPrice", hexU128 tx.gasPrice),
      ("maxPriorityFeePerGas", .ofOption hexU128 tx.maxPriorityFeePerGas),
      ("maxFeePerBlobGas", .ofOption hexU128 tx.maxFeePerBlobGas),
      ("blobVersionedHashes", strings tx.blobVersionedHashes),
      ("authorizationListLength", .string (hexNat tx.authorizationListLen)), ("input", .string tx.input),
      ("type", .string tx.txType), ("chainId", hexU64 chainId), ("v", .string "0x1"), ("r", .string "0x0"),
      ("s", .string "0x0")]

def txLogToJson (log : TxLogRecord) : Json :=
  .object
    [("address", .string log.address), ("topics", strings log.topics), ("data", .string log.data),
      ("blockNumber", .ofOption hexU64 log.blockNumber), ("blockHash", .ofOption .string log.blockHash),
      ("transactionHash", .ofOption .string log.transactionHash),
      ("transactionIndex", .ofOption hexU64 log.transactionIndex), ("logIndex", .ofOption hexU64 log.logIndex),
      ("removed", .bool false)]

def txReceiptJson (receipt : TxReceiptRecord) : Option Json := do
  let blockNumber ← receipt.blockNumber
  let blockHash ← receipt.blockHash
  return .object
    [("transactionHash", .string receipt.txHash), ("transactionIndex", hexU64 (receipt.transactionIndex.getD 0)),
      ("blockHash", .string blockHash), ("blockNumber", hexU64 blockNumber), ("from", .string receipt.from),
      ("to", .ofOption .string receipt.to), ("cumulativeGasUsed", hexU64 receipt.cumulativeGasUsed),
      ("gasUsed", hexU64 receipt.gasUsed), ("contractAddress", .ofOption .string receipt.contractAddress),
      ("logs", .array (receipt.logs.map txLogToJson)), ("logsBloom", .string receipt.logsBloom),
      ("status", .string (if receipt.status then "0x1" else "0x0")), ("type", .string receipt.txType),
      ("effectiveGasPrice", hexU64 receipt.effectiveGasPrice)]

/-- A block with `transactions`; `build_block_response` overwrites the empty template with them and with the two
numbers that depend on how many there are. -/
def blockTemplate (number timestamp : UInt64) (transactions : Json) (gasUsed size : UInt64) : Json :=
  let zeros (n : ℕ) : Json := .string ("0x" ++ String.ofList (List.replicate n '0'))
  .object
    [("number", hexU64 number), ("hash", .string (blockHash number)),
      ("parentHash", .string (if number = 0 then zeroWord else blockHash (number.saturatingSub 1))),
      ("nonce", .string "0x0000000000000000"),
      ("sha3Uncles", .string "0x1dcc4de8dec75d7aab85b567b6ccd41ad312451b948a7413f0a142fd40d49347"),
      ("logsBloom", zeros 512),
      ("transactionsRoot", .string "0x56e81f171bcc55a6ff8345e69d706d3b9f2f4f4b6a4f0f4d8f4f0f4d8f4f0f4d"),
      ("stateRoot", zeros 64), ("receiptsRoot", zeros 64),
      ("miner", .string "0x0000000000000000000000000000000000000000"), ("difficulty", .string "0x0"),
      ("totalDifficulty", .string "0x0"), ("extraData", .string "0x65746832303737"), ("size", hexU64 size),
      ("gasLimit", .string "0x1c9c380"), ("gasUsed", hexU64 gasUsed), ("timestamp", hexU64 timestamp),
      ("transactions", transactions), ("uncles", .array []), ("baseFeePerGas", .string "0x3b9aca00")]

section State
variable {Db : Type} (state : NodeState Db)

/-- `block_by_tag`, with the parser of this file. -/
def blockNumberByTag (tag : String) : Option UInt64 :=
  if tag = "latest" ∨ tag = "pending" then some state.currentHeight
  else if tag = "finalized" then some state.finalizedHeight
  else if tag = "earliest" then some 0
  else parseHexU64 tag

def blockTxHashes (number : UInt64) : List String := (state.blockTxs.lookup number).getD []

def buildBlockResponse (overflowChecks : Bool) (number : UInt64) (fullTxs : Bool) : Except Panic Json := do
  let ts := (state.blockTimestamps.lookup number).getD state.startedAtUnixS
  let txHashes := blockTxHashes state number
  let transactions : Json :=
    if fullTxs then .array ((txHashes.filterMap state.txs.lookup).map fun tx => txToJson tx state.chainId)
    else strings txHashes
  let gasUsed ← checkedOp overflowChecks "multiply" (txHashes.length * 21000)
  let perTx ← checkedOp overflowChecks "multiply" (txHashes.length * 128)
  let size ← checkedOp overflowChecks "add" (120 + perTx.toNat)
  return blockTemplate number ts transactions gasUsed size

def strParam (params : Json) (i : ℕ) : Option String := (params.param i).bind Json.asStr

def addressParam (params : Json) (i : ℕ) : Option Address := (strParam params i).bind addressFromHex

def fullTxs (params : Json) : Bool := ((params.param 1).bind Json.asBool).getD false

def tagParam (params : Json) : String := (strParam params 0).getD "latest"

def ethGetBlockByNumber (overflowChecks : Bool) (params : Json) : Except Panic Json :=
  match blockNumberByTag state (tagParam params) with
  | some num => buildBlockResponse state overflowChecks num (fullTxs params)
  | none => .ok .null

def ethGetBlockByHash (overflowChecks : Bool) (params : Json) : Except Panic Json :=
  match blockNumberFromHash ((strParam params 0).getD "") with
  | some num =>
    if num ≤ state.currentHeight then buildBlockResponse state overflowChecks num (fullTxs params) else .ok .null
  | none => .ok .null

/-! ### Transactions and receipts -/

def ethGetTransactionByHash (params : Json) : Json :=
  .ofOption (fun tx => txToJson tx state.chainId)
    (((strParam params 0).map asciiLowercase).bind state.txs.lookup)

def ethGetTransactionReceipt (params : Json) : Json :=
  .ofOption id ((((strParam params 0).map asciiLowercase).bind state.txReceipts.lookup).bind txReceiptJson)

/-- How many transactions the block has. -/
def blockTransactionCount (number : Option UInt64) : Json :=
  .string (hexNat ((number.bind state.blockTxs.lookup).map List.length |>.getD 0))

def ethGetBlockReceipts (params : Json) : Json :=
  let tag := tagParam params
  let number := (blockNumberFromHash tag).or (blockNumberByTag state tag)
  let hashes := (number.bind state.blockTxs.lookup).getD []
  .array ((hashes.filterMap state.txReceipts.lookup).filterMap txReceiptJson)

/-! ### Logs -/

/-- The addresses a filter asks for; none where it has no well-formed ones. -/
def addressFilter (filter : List (String × Json)) : Option (List String) :=
  match filter.lookup "address" with
  | some (.string one) => (canonicalAddress one).map fun a => [a]
  | some (.array many) => many.mapM fun entry => entry.asStr.bind canonicalAddress
  | _ => none

/-- The topics one place of a filter allows; every topic where the list is empty. -/
def topicOptions : Json → Option (List String)
  | .null => some []
  | .string one => some [asciiLowercase one]
  | .array any => any.mapM fun topic => topic.asStr.map asciiLowercase
  | _ => none

def topicFilters (filter : List (String × Json)) : Except String (List (List String)) :=
  match filter.lookup "topics" with
  | none => .ok []
  | some (.array entries) =>
    match entries.mapM topicOptions with
    | some parsed => .ok parsed
    | none => .error "invalid topics filter entry"
  | some _ => .error "invalid topics filter"

def topicsMatch (filters : List (List String)) (topics : List String) : Bool :=
  filters.zipIdx.all fun entry =>
    entry.1.isEmpty || (topics[entry.2]?).any fun topic => asciiLowercase topic ∈ entry.1

/-- The blocks a filter asks for: one by its hash, or a range by its ends in either order. -/
def blockRange (filter : List (String × Json)) : UInt64 × UInt64 :=
  let str (key : String) : Option String := (filter.lookup key).bind Json.asStr
  let fromBlock := ((str "fromBlock").bind (blockNumberByTag state)).getD 0
  let toBlock := ((str "toBlock").bind (blockNumberByTag state)).getD state.currentHeight
  match (str "blockHash").bind blockNumberFromHash with
  | some number => (number, number)
  | none => (min fromBlock toBlock, max fromBlock toBlock)

def ethGetLogs (params : Json) : Response :=
  match callObject params with
  | none => .error (-32602) "invalid params: expected filter object"
  | some filter =>
    let addresses := addressFilter filter
    if (filter.lookup "address").isSome ∧ addresses.isNone then .error (-32602) "invalid address filter"
    else
      match topicFilters filter with
      | .error err => .error (-32602) err
      | .ok topics =>
        let range := blockRange state filter
        let hashes := (rangeInclusive range.1 range.2).flatMap (blockTxHashes state)
        let logs := (hashes.filterMap state.txReceipts.lookup).flatMap TxReceiptRecord.logs
        .result (.array ((logs.filter fun log =>
          addresses.all (fun addrs => log.address ∈ addrs) && topicsMatch topics log.topics).map txLogToJson))

end State

/-! ### Accounts -/

section Accounts
variable (R : Revm) (state : NodeState R.Db) (params : Json)

/-- `storage_hex_from_db`. -/
def storageHexFromDb (db : R.Db) (address : Address) (slot : U256) : String × R.Db :=
  let (value, db) := storageFromDb R db address slot
  (bytesToHex (beBytes 32 value.toNat), db)

def setAccountBalanceInDb (db : R.Db) (address : Address) (balance : U256) : R.Db :=
  let (info, db) := R.basic db address
  R.insertAccountInfo db address { info.toOption.join.getD R.defaultInfo with balance := balance }

def ethGetBalance : Response × NodeState R.Db :=
  match addressParam params 0 with
  | some address =>
    let (balance, db) := accountBalanceFromDb R state.evmDb address
    (.result (.string (hexNat balance.toNat)), { state with evmDb := db })
  -- `DEFAULT_ACCOUNT_BALANCE_WEI`
  | none => (.result (.string (hexNat 0)), state)

def ethGetCode : Response × NodeState R.Db :=
  match addressParam params 0 with
  | some address =>
    let (code, db) := codeHexFromDb R state.evmDb address
    (.result (.string code), { state with evmDb := db })
  | none => (.result (.string "0x"), state)

/-- The second parameter, where it is a text, as a number of 256 bits. -/
def wordParam : Except Panic (Option U256) :=
  match strParam params 1 with
  | some s => parseHexU256 s
  | none => .ok none

def ethGetStorageAt : Except Panic (Response × NodeState R.Db) := do
  let address := addressParam params 0
  let slot ← wordParam params
  match address with
  | some address =>
    let (out, db) := storageHexFromDb R state.evmDb address (slot.getD 0)
    return (.result (.string out), { state with evmDb := db })
  | none => return (.result (.string zeroWord), state)

/-- `hardhat_setBalance`, `anvil_setBalance` and `eth2077_setBalance`. -/
def setBalance : Except Panic (Response × NodeState R.Db) := do
  let address := addressParam params 0
  let amount ← wordParam params
  match address, amount with
  | some address, some wei =>
    return (.result (.bool true), { state with evmDb := setAccountBalanceInDb R state.evmDb address wei })
  | _, _ => return (.error (-32602) "invalid params: expected [address, amountWeiHex]", state)

end Accounts

/-! ### Payloads -/

def parseBoolValue (input : Json) : Option Bool :=
  input.asBool.or <| input.asStr.bind fun s =>
    let lower := asciiLowercase s
    if lower = "true" ∨ lower = "1" then some true
    else if lower = "false" ∨ lower = "0" then some false
    else none

namespace Engine7732

section Request
variable (req : Json)

/-- A number under `key`, or else at place `i` of the parameters. -/
def numberParam (key : String) (i : ℕ) : Option UInt64 :=
  ((req.get key).bind parseU64Value).or ((Focil.requestParam req i).bind parseU64Value)

/-- `engine_7732_current_unix_s_from_req_with_param`. -/
def currentUnixSFromReqWithParam (i : ℕ) : Option UInt64 := numberParam req "currentUnixS" i

def rootFromReq : Option String :=
  normalizeHash32Value ((req.get "payloadHeaderRoot").or (Focil.requestParam req 0))

/-- `includeOrphans`, as `key` or at place `i` of the parameters. -/
def includeOrphans (i : ℕ) : Bool :=
  (((req.get "includeOrphans").bind parseBoolValue).or
    ((Focil.requestParam req i).bind parseBoolValue)).getD false

end Request

variable (env : EngineEnv) {Db : Type} (state : NodeState Db) (req : Json)

/-- The slot a query names, or the one of the payload it names. -/
def queriedSlot : UInt64 :=
  let root := rootFromReq req
  (((numberParam req "slot" 0).or
    ((root.bind state.engine7732HeadersByRoot.lookup).map Engine7732HeaderRecord.slot)).or
      ((root.bind state.engine7732EnvelopesByRoot.lookup).map Engine7732EnvelopeRecord.slot)).getD
        (fallbackSlot state)

def getPayloadTimelinessResponse : Json :=
  slotStatusResponse env state (queriedSlot state req) ((currentUnixSFromReqWithParam req 1).getD env.now)

def penaltySlotSnapshot (slot currentUnixS : UInt64) : Json :=
  let penalty : Json := .ofOption penaltyToJson (state.engine7732PenaltiesBySlot.lookup slot)
  .object
    [("slot", hexU64 slot), ("penalized", .bool penalty.asObject.isSome),
      ("penaltyState", .string (((penalty.get "state").bind Json.asStr).getD "NONE")), ("penalty", penalty),
      ("timeliness", slotStatusResponse env state slot currentUnixS)]

def getPayloadPenaltyResponse : Json :=
  penaltySlotSnapshot env state (queriedSlot state req) ((currentUnixSFromReqWithParam req 1).getD env.now)

def getPayloadHeaderResponse : Json :=
  .ofOption headerToJson ((rootFromReq req).bind state.engine7732HeadersByRoot.lookup)

def headersBySlotSnapshot (slot : UInt64) : Json :=
  let headerRoots := (state.engine7732HeadersBySlot.lookup slot).getD []
  .object
    [("slot", hexU64 slot), ("headerRoots", strings headerRoots),
      ("headers", .array ((headerRoots.filterMap state.engine7732HeadersByRoot.lookup).map headerToJson)),
      ("headerCount", .string (hexNat headerRoots.length)),
      ("revealedEnvelopeCount", .string (hexNat (headerRoots.countP fun root =>
        (state.engine7732EnvelopesByRoot.lookup root).isSome)))]

/-- The slot of a query that names no payload. -/
def slotOrNext : UInt64 := (numberParam req "slot" 0).getD (fallbackSlot state)

def getPayloadHeadersBySlotResponse : Json := headersBySlotSnapshot state (slotOrNext state req)

def getPayloadEnvelopeResponse : Json :=
  .ofOption envelopeToJson ((rootFromReq req).bind state.engine7732EnvelopesByRoot.lookup)

/-- The roots of the envelopes of a slot that have no header. -/
def orphanRoots (slot : UInt64) : List String :=
  (env.envelopeOrder.order state.engine7732EnvelopesByRoot.keys).filter fun root =>
    (state.engine7732EnvelopesByRoot.lookup root).any fun envelope =>
      envelope.slot = slot ∧ (state.engine7732HeadersByRoot.lookup root).isNone

def envelopesBySlotSnapshot (includeOrphans : Bool) (slot : UInt64) : Json :=
  let headerRoots := (state.engine7732HeadersBySlot.lookup slot).getD []
  let missing := headerRoots.filter fun root => (state.engine7732EnvelopesByRoot.lookup root).isNone
  let linked := headerRoots.filterMap state.engine7732EnvelopesByRoot.lookup
  let orphans :=
    if includeOrphans then
      ((orphanRoots env state slot).mergeSort fun a b => decide (a ≤ b)).filterMap
        state.engine7732EnvelopesByRoot.lookup
    else []
  .object
    [("slot", hexU64 slot), ("headerRoots", strings headerRoots),
      ("linkedEnvelopes", .array (linked.map envelopeToJson)), ("missingReveals", strings missing),
      ("orphanEnvelopes", .array (orphans.map envelopeToJson)),
      ("knownHeadersAtSlot", .string (hexNat headerRoots.length)),
      ("linkedEnvelopeCount", .string (hexNat linked.length)),
      ("missingRevealCount", .string (hexNat missing.length)),
      ("orphanEnvelopeCount", .string (hexNat (orphanRoots env state slot).length)),
      ("includeOrphans", .bool includeOrphans)]

def getPayloadEnvelopesBySlotResponse : Json :=
  envelopesBySlotSnapshot env state (includeOrphans req 1) (slotOrNext state req)

/-! ### Ranges of slots -/

/-- The common part of the four queries about a range of slots: the window is cut off after 256 slots. -/
def byRangeResponse (snapshot : UInt64 → Json) (fields : List Json → List (String × Json)) : Json :=
  let startSlot := (numberParam req "startSlot" 0).getD (fallbackSlot state)
  let endSlot := (numberParam req "endSlot" 1).getD startSlot
  if endSlot < startSlot then invalid s!"invalid range: startSlot {startSlot} exceeds endSlot {endSlot}" []
  else
    let requestedSlots := (endSlot.saturatingSub startSlot).saturatingAdd 1
    let slotCount := min requestedSlots 256
    let effectiveEndSlot := startSlot.saturatingAdd (slotCount.saturatingSub 1)
    let slots := (rangeInclusive startSlot effectiveEndSlot).map snapshot
    .object
      ([("status", .string "OK"), ("startSlot", hexU64 startSlot), ("endSlot", hexU64 endSlot),
        ("effectiveEndSlot", hexU64 effectiveEndSlot), ("requestedSlotCount", hexU64 requestedSlots),
        ("slotCount", hexU64 slotCount), ("windowClamped", .bool (decide (slotCount < requestedSlots)))] ++
        fields slots ++ [("slots", .array slots)])

def getPayloadTimelinessByRangeResponse : Json :=
  let now := (currentUnixSFromReqWithParam req 2).getD env.now
  byRangeResponse state req (slotStatusResponse env state · now) fun _ => [("currentUnixS", u64Json now)]

def getPayloadPenaltiesByRangeResponse : Json :=
  let now := (currentUnixSFromReqWithParam req 2).getD env.now
  let count (slots : List Json) (penaltyState : PenaltyState) : Json :=
    .string (hexNat (slots.countP fun slot =>
      (slot.get "penaltyState").bind Json.asStr = some penaltyState.text))
  byRangeResponse state req (penaltySlotSnapshot env state · now) fun slots =>
    [("currentUnixS", u64Json now), ("activePenaltyCount", count slots .active),
      ("recoveredPenaltyCount", count slots .recovered)]

def getPayloadHeadersByRangeResponse : Json := byRangeResponse state req (headersBySlotSnapshot state) fun _ => []

def getPayloadEnvelopesByRangeResponse : Json :=
  byRangeResponse state req (envelopesBySlotSnapshot env state (includeOrphans req 2)) fun _ =>
    [("includeOrphans", .bool (includeOrphans req 2))]

end Engine7732

end Eth2077
