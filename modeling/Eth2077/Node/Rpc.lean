import Eth2077.Node.FailedRun
import Eth2077.Node.Market
import Eth2077.Node.RawTx
import Eth2077.Node.Timeliness

/-!
# Every request (`node/src/bin/eth2077-devnetd.rs`, `handle_jsonrpc`)

The table of methods and what each of them answers. A request can stop the node: several handlers read a text
into 256 bits, and a longer number is a panic. `handle_completes_iff` says which requests the node survives, in
which state.
-/

namespace Eth2077

open Fallible

/-- What the node uses besides its state and the request. -/
structure RpcEnv where
  engine : EngineEnv
  market : MarketEnv
  rlp : RlpCrate
  /-- The order in which the tokens of the market come out of their map. -/
  nftOrder : IterOrder UInt64
  /-- `calc_blob_gasprice(0, BLOB_BASE_FEE_UPDATE_FRACTION_PRAGUE)`. -/
  blobBaseFeePerGas : BitVec 128
  /-- `Value::from` of an `f64`: no number where it is not finite. -/
  f64Json : Float → Json
  /-- The build checks the arithmetic of integers; one for release does not. -/
  overflowChecks : Bool

namespace Rpc

/-! ### Methods -/

/-- The methods that only read the node, and cannot panic. -/
inductive Query where
  | web3ClientVersion
  | netVersion
  | netListening
  | ethChainId
  | ethMining
  | ethSyncing
  | ethBlockNumber
  | ethGetLogs
  | ethAccounts
  | debugTraceTransaction
  | ethGasPrice
  | ethMaxPriorityFeePerGas
  | ethBlobBaseFee
  | ethGetTransactionByHash
  | ethGetTransactionReceipt
  | ethGetBlockTransactionCountByNumber
  | ethGetBlockTransactionCountByHash
  | ethGetUncleCount
  | ethGetBlockReceipts
  | netPeerCount
  | txpoolContent
  | ethFeeHistory
  | engineGetPayloadTimeliness
  | engineGetPayloadTimelinessByRange
  | engineGetPayloadPenalty
  | engineGetPayloadPenaltiesByRange
  | engineGetPayloadHeader
  | engineGetPayloadHeadersBySlot
  | engineGetPayloadHeadersByRange
  | engineGetPayloadEnvelope
  | engineGetPayloadEnvelopesBySlot
  | engineGetPayloadEnvelopesByRange
  | eth2077Status
  | marketList
  | marketByOwner
  | marketReceipt
  | marketMode
  | rpcModules

inductive Method where
  | query (q : Query)
  | ethGetBlockByNumber
  | ethGetBlockByHash
  | evm (method : EvmMethod)
  | ethGetBalance
  | ethGetTransactionCount
  | ethGetCode
  | ethGetStorageAt
  | engineGetInclusionList
  | engineForkchoiceUpdated
  | engineNewPayload
  | engineRegisterPayloadHeader
  | engineRegisterPayloadEnvelope
  | setBalance
  | marketMint
  | marketBuy
  | marketTransfer
  | marketRelist

/-- The names, in the order of the source's `match`. -/
def methods : List (String × Method) :=
  [("web3_clientVersion", .query .web3ClientVersion), ("net_version", .query .netVersion),
    ("net_listening", .query .netListening), ("eth_chainId", .query .ethChainId), ("eth_mining", .query .ethMining),
    ("eth_syncing", .query .ethSyncing), ("eth_blockNumber", .query .ethBlockNumber),
    ("eth_getBlockByNumber", .ethGetBlockByNumber), ("eth_getBlockByHash", .ethGetBlockByHash),
    ("eth_getLogs", .query .ethGetLogs), ("trace_block", .query .ethAccounts),
    ("trace_filter", .query .ethAccounts), ("eth_accounts", .query .ethAccounts),
    ("trace_transaction", .query .debugTraceTransaction), ("debug_traceTransaction", .query .debugTraceTransaction),
    ("eth_gasPrice", .query .ethGasPrice), ("eth_maxPriorityFeePerGas", .query .ethMaxPriorityFeePerGas),
    ("eth_blobBaseFee", .query .ethBlobBaseFee), ("eth_estimateGas", .evm .ethEstimateGas),
    ("eth_call", .evm .ethCall), ("eth_getBalance", .ethGetBalance),
    ("eth_getTransactionCount", .ethGetTransactionCount), ("eth_getCode", .ethGetCode),
    ("eth_getStorageAt", .ethGetStorageAt), ("eth_getTransactionByHash", .query .ethGetTransactionByHash),
    ("eth_getTransactionReceipt", .query .ethGetTransactionReceipt),
    ("eth_getBlockTransactionCountByNumber", .query .ethGetBlockTransactionCountByNumber),
    ("eth_getBlockTransactionCountByHash", .query .ethGetBlockTransactionCountByHash),
    ("eth_getUncleCountByBlockNumber", .query .ethGetUncleCount),
    ("eth_getUncleCountByBlockHash", .query .ethGetUncleCount),
    ("eth_getBlockReceipts", .query .ethGetBlockReceipts), ("net_peerCount", .query .netPeerCount),
    ("txpool_content", .query .txpoolContent), ("eth_feeHistory", .query .ethFeeHistory),
    ("engine_getInclusionListV1", .engineGetInclusionList),
    ("engine_forkchoiceUpdatedV3", .engineForkchoiceUpdated), ("engine_newPayloadV3", .engineNewPayload),
    ("engine_registerExecutionPayloadHeaderV1", .engineRegisterPayloadHeader),
    ("engine_registerExecutionPayloadEnvelopeV1", .engineRegisterPayloadEnvelope),
    ("engine_getPayloadTimelinessV1", .query .engineGetPayloadTimeliness),
    ("engine_getPayloadTimelinessByRangeV1", .query .engineGetPayloadTimelinessByRange),
    ("engine_getPayloadPenaltyV1", .query .engineGetPayloadPenalty),
    ("engine_getPayloadPenaltiesByRangeV1", .query .engineGetPayloadPenaltiesByRange),
    ("engine_getExecutionPayloadHeaderV1", .query .engineGetPayloadHeader),
    ("engine_getExecutionPayloadHeadersBySlotV1", .query .engineGetPayloadHeadersBySlot),
    ("engine_getExecutionPayloadHeadersByRangeV1", .query .engineGetPayloadHeadersByRange),
    ("engine_getExecutionPayloadEnvelopeV1", .query .engineGetPayloadEnvelope),
    ("engine_getExecutionPayloadEnvelopesBySlotV1", .query .engineGetPayloadEnvelopesBySlot),
    ("engine_getExecutionPayloadEnvelopesByRangeV1", .query .engineGetPayloadEnvelopesByRange),
    ("eth_sendRawTransaction", .evm .ethSendRawTransaction), ("hardhat_setBalance", .setBalance),
    ("anvil_setBalance", .setBalance), ("eth2077_setBalance", .setBalance),
    ("eth2077_status", .query .eth2077Status), ("eth2077_marketList", .query .marketList),
    ("eth2077_marketByOwner", .query .marketByOwner), ("eth2077_marketMint", .marketMint),
    ("eth2077_marketBuy", .marketBuy), ("eth2077_marketTransfer", .marketTransfer),
    ("eth2077_marketRelist", .marketRelist), ("eth2077_marketReceipt", .query .marketReceipt),
    ("eth2077_marketMode", .query .marketMode), ("rpc_modules", .query .rpcModules)]

/-! ### Answers -/

/-- `jsonrpc_response` and `jsonrpc_error`. -/
def toJson (id : Json) : Response → Json
  | .result value => .object [("jsonrpc", .string "2.0"), ("id", id), ("result", value)]
  | .error code message =>
    .object
      [("jsonrpc", .string "2.0"), ("id", id),
        ("error", .object [("code", .number code), ("message", .string message)])]

def marketModeJson : Json :=
  .object
    [("mode", .string "devnet-native"), ("erc721Ready", .bool false),
      ("plannedContract", .object
        [("name", .string "ETH2077Market721"), ("symbol", .string "E77NFT"), ("address", .null),
          ("standard", .string "ERC-721")]),
      ("migrationNotes", strings
        ["When full EVM lane is enabled, list/mint/buy/relist/transfer flows map to " ++
            "ERC-721 + market contract calls.",
          "UI already isolates market RPC calls through marketRpc(), so the backend mode can switch " ++
            "without breaking UX."])]

def rpcModulesJson : Json :=
  .object (["eth", "net", "web3", "debug", "trace", "eth2077", "hardhat", "anvil"].map fun name =>
    (name, .string "1.0"))

section Handlers
variable (R : Revm) (env : RpcEnv) (node : DaemonState R.Db) (req params : Json)

def feeHistoryJson : Json :=
  .object
    [("oldestBlock", hexU64 (node.currentHeight.saturatingSub 9)),
      ("baseFeePerGas", .array (List.replicate 11 (.string "0x3b9aca00"))),
      ("baseFeePerBlobGas", .array (List.replicate 11 (hexU128 env.blobBaseFeePerGas))),
      ("gasUsedRatio", .array (List.replicate 10 (env.f64Json 0))),
      ("blobGasUsedRatio", .array (List.replicate 10 (env.f64Json 0))), ("reward", .array [])]

def query : Query → Response
  | .web3ClientVersion => .result (.string "ETH2077/devnetd/0.1")
  | .netVersion => .result (.string (toString node.chainId))
  | .netListening => .result (.bool true)
  | .ethChainId => .result (hexU64 node.chainId)
  | .ethMining => .result (.bool true)
  | .ethSyncing => .result (.bool false)
  | .ethBlockNumber => .result (hexU64 node.currentHeight)
  | .ethGetLogs => ethGetLogs node.toNodeState params
  | .ethAccounts => .result (.array [])
  | .debugTraceTransaction =>
    .result (.object [("gas", .string "0x0"), ("returnValue", .string "0x"), ("structLogs", .array [])])
  | .ethGasPrice => .result (.string "0x3b9aca00")
  | .ethMaxPriorityFeePerGas => .result (.string "0x59682f00")
  | .ethBlobBaseFee => .result (hexU128 env.blobBaseFeePerGas)
  | .ethGetTransactionByHash => .result (ethGetTransactionByHash node.toNodeState params)
  | .ethGetTransactionReceipt => .result (ethGetTransactionReceipt node.toNodeState params)
  | .ethGetBlockTransactionCountByNumber =>
    .result (blockTransactionCount node.toNodeState (blockNumberByTag node.toNodeState (tagParam params)))
  | .ethGetBlockTransactionCountByHash =>
    .result (blockTransactionCount node.toNodeState ((strParam params 0).bind blockNumberFromHash))
  | .ethGetUncleCount => .result (.string "0x0")
  | .ethGetBlockReceipts => .result (ethGetBlockReceipts node.toNodeState params)
  | .netPeerCount => .result (hexU64 node.peersConnected)
  | .txpoolContent => .result (.object [("pending", .object []), ("queued", .object [])])
  | .ethFeeHistory => .result (feeHistoryJson R env node)
  | .engineGetPayloadTimeliness =>
    .result (Engine7732.getPayloadTimelinessResponse env.engine node.toNodeState req)
  | .engineGetPayloadTimelinessByRange =>
    .result (Engine7732.getPayloadTimelinessByRangeResponse env.engine node.toNodeState req)
  | .engineGetPayloadPenalty => .result (Engine7732.getPayloadPenaltyResponse env.engine node.toNodeState req)
  | .engineGetPayloadPenaltiesByRange =>
    .result (Engine7732.getPayloadPenaltiesByRangeResponse env.engine node.toNodeState req)
  | .engineGetPayloadHeader => .result (Engine7732.getPayloadHeaderResponse node.toNodeState req)
  | .engineGetPayloadHeadersBySlot => .result (Engine7732.getPayloadHeadersBySlotResponse node.toNodeState req)
  | .engineGetPayloadHeadersByRange => .result (Engine7732.getPayloadHeadersByRangeResponse node.toNodeState req)
  | .engineGetPayloadEnvelope => .result (Engine7732.getPayloadEnvelopeResponse node.toNodeState req)
  | .engineGetPayloadEnvelopesBySlot =>
    .result (Engine7732.getPayloadEnvelopesBySlotResponse env.engine node.toNodeState req)
  | .engineGetPayloadEnvelopesByRange =>
    .result (Engine7732.getPayloadEnvelopesByRangeResponse env.engine node.toNodeState req)
  | .eth2077Status => .result (eth2077StatusJson env.f64Json node env.market.now)
  | .marketList => .result (sortedNfts env.nftOrder node.toNodeState fun _ => true)
  | .marketByOwner => Eth2077.marketByOwner node params env.nftOrder
  | .marketReceipt => Eth2077.marketReceipt node params
  | .marketMode => .result marketModeJson
  | .rpcModules => .result rpcModulesJson

/-! ### Handlers -/

/-- The functions of `Parse` and `RawTx`, for a request whose numbers have been read without a panic. -/
def decoders : Decoders where
  addressFromHex := addressFromHex
  parseHexBytes := parseHexBytes
  parseHexU64 := parseHexU64
  parseHexU128 := parseHexU128
  parseHexU256 s := (parseHexU256 s).toOption.join
  decodeRawTx rawTx :=
    match (env.rlp.decodeRawTx rawTx).run with
    | .ok decoded => decoded
    | .error panic => .error panic.message
  keccak256 := env.engine.keccak256

/-- What the methods that run the EVM read of their parameters, before they look at the node's database. -/
def evmReads : EvmMethod → Except Panic Unit
  | .ethEstimateGas | .ethCall =>
    match (callObject params).bind fun call => (call.lookup "value").bind Json.asStr with
    | some value => do
      let _ ← parseHexU256 value
    | none => .ok ()
  | .ethSendRawTransaction => do
    let _ ← (env.rlp.decodeRawTx ((strParam params 0).getD "0x")).run

/-- `state.tx_counter + now`, which a mint with a valid owner computes. -/
def mintCounter : Except Panic Unit :=
  match partyParam params 0 with
  | some _ => do
    let _ ← checkedOp env.overflowChecks "add" (node.txCounter.toNat + env.market.now.toNat)
  | none => .ok ()

/-- The node after a handler that works on a part of it. -/
def withState {α : Type} (f : α → Response) (r : α × NodeState R.Db) : Response × DaemonState R.Db :=
  (f r.1, { node with toNodeState := r.2 })

def respond : Method → Except Panic (Response × DaemonState R.Db)
  | .query q => .ok (query R env node req params q, node)
  | .ethGetBlockByNumber => do
    let block ← ethGetBlockByNumber node.toNodeState env.overflowChecks params
    return (.result block, node)
  | .ethGetBlockByHash => do
    let block ← ethGetBlockByHash node.toNodeState env.overflowChecks params
    return (.result block, node)
  | .evm method => do
    evmReads env params method
    return withState R node id (handleJsonrpc R (decoders env) node.toNodeState method params)
  | .ethGetBalance => .ok (withState R node id (ethGetBalance R node.toNodeState params))
  | .ethGetTransactionCount => .ok (withState R node id (ethGetTransactionCount R node.toNodeState params))
  | .ethGetCode => .ok (withState R node id (ethGetCode R node.toNodeState params))
  | .ethGetStorageAt => do
    let r ← ethGetStorageAt R node.toNodeState params
    return withState R node id r
  | .engineGetInclusionList =>
    .ok (withState R node .result (Focil.getInclusionListResponse env.engine node.toNodeState req))
  | .engineForkchoiceUpdated => do
    let r ← Focil.forkchoiceUpdatedResponse env.engine node.toNodeState req
    return withState R node .result r
  | .engineNewPayload => do
    let r ← Focil.newPayloadResponse env.engine R node.toNodeState req
    return withState R node .result r
  | .engineRegisterPayloadHeader => do
    let r ← Engine7732.registerPayloadHeaderResponse env.engine node.toNodeState req
    return withState R node .result r
  | .engineRegisterPayloadEnvelope =>
    .ok (withState R node .result (Engine7732.registerPayloadEnvelopeResponse env.engine node.toNodeState req))
  | .setBalance => do
    let r ← Eth2077.setBalance R node.toNodeState params
    return withState R node id r
  | .marketMint => do
    mintCounter R env node params
    return withState R node id (eth2077MarketMint env.market node.toNodeState params)
  | .marketBuy => .ok (Eth2077.marketBuy env.market node params)
  | .marketTransfer => .ok (Eth2077.marketTransfer node params)
  | .marketRelist => .ok (Eth2077.marketRelist node params)

def methodName : String := ((req.get "method").bind Json.asStr).getD ""

def requestParams : Json := (req.get "params").getD (.array [])

def handleJsonrpc : Except Panic (Json × DaemonState R.Db) :=
  let id := (req.get "id").getD .null
  match methods.lookup (methodName req) with
  | none => .ok (toJson id (.error (-32601) ("method not found: " ++ methodName req)), node)
  | some method => do
    let (response, node) ← respond R env node req (requestParams req) method
    return (toJson id response, node)

/-! ### What a request has to keep to -/

/-- No hexadecimal number, or one of at most 64 digits. -/
def TextFits (s : String) : Prop :=
  (strip0x (trim s.toList)).all isAsciiHexdigit = true → (strip0x (trim s.toList)).length ≤ 64

/-- The value is no text, or one that fits. -/
def ValueFits (value : Json) : Prop := ∀ s, value.asStr = some s → TextFits s

/-- The value under `keys`, if there is one, fits. -/
def FieldFits (value : Json) (keys : List String) : Prop := ∀ v, value.getFirst keys = some v → ValueFits v

/-- The value an entry of a list of transactions gives fits, if the entry has a hash. -/
def EntryFits (item : Json) : Prop :=
  (((item.getFirst ["hash", "txHash", "transactionHash"]).bind Json.asStr).bind normalizeHash32).isSome →
    FieldFits item ["value"]

def ListFits (list : Option Json) : Prop :=
  ∀ value, list = some value → ∀ items, value.asArray = some items → ∀ item ∈ items, EntryFits item

/-- The inclusion list of a request. -/
def inclusionList : Option Json :=
  (Focil.payloadAttributes req).bind fun attrs =>
    (attrs.get "inclusionListTransactions").or
      ((attrs.get "inclusionList").bind fun il => (il.get "transactions").or (some il))

def payloadTransactions : Option Json :=
  ((Focil.executionPayload req).bind fun payload => payload.get "transactions").or (req.get "transactions")

/-- The transactions of the block are not so many that their gas overflows, where that is checked. -/
def BlockFits (number : UInt64) : Prop :=
  env.overflowChecks = true → (blockTxHashes node.toNodeState number).length * 21000 < 2 ^ 64

/-- The 256-bit numbers the method reads are no longer than that, and no checked sum overflows. -/
def MethodFits : Method → Prop
  | .ethGetBlockByNumber => ∀ n, blockNumberByTag node.toNodeState (tagParam params) = some n → BlockFits R env node n
  | .ethGetBlockByHash =>
    ∀ n, blockNumberFromHash ((strParam params 0).getD "") = some n → n ≤ node.currentHeight → BlockFits R env node n
  | .evm .ethEstimateGas | .evm .ethCall =>
    ∀ call, callObject params = some call → FieldFits (.object call) ["value"]
  | .evm .ethSendRawTransaction =>
    ∀ bytes, parseHexBytes ((strParam params 0).getD "0x") = some bytes → env.rlp.BytesFit bytes
  | .ethGetStorageAt | .setBalance => ∀ s, strParam params 1 = some s → TextFits s
  | .engineForkchoiceUpdated =>
    -- the list of a late slot is not read
    ¬ Engine7732.Violation node.toNodeState (Focil.fcSlot node.toNodeState req)
        ((Focil.currentUnixS req).getD env.engine.now) env.engine →
      ListFits (inclusionList req)
  | .engineNewPayload => ListFits (payloadTransactions req)
  | .engineRegisterPayloadHeader =>
    ∀ source, Engine7732.payloadHeaderSource req = some source →
      FieldFits ((source.get "message").getD source) ["bidValue", "bidValueWei"]
  | .marketMint =>
    env.overflowChecks = true → (partyParam params 0).isSome → node.txCounter.toNat + env.market.now.toNat < 2 ^ 64
  | _ => True

def RequestFits : Prop :=
  ∀ method, methods.lookup (methodName req) = some method → MethodFits R env node req (requestParams req) method

end Handlers

/-! ### Numbers -/

theorem completes_parseHexU256 {s : String} : Completes (parseHexU256 s) ↔ TextFits s := by
  have hlen : ∀ raw : List Char, raw.length ≤ 64 ↔
      (hexDecode (if raw.length % 2 = 1 then '0' :: raw else raw)).length ≤ 32 := by
    intro raw
    rw [length_hexDecode]
    split_ifs with hodd
    · rw [List.length_cons]
      omega
    · omega
  unfold parseHexU256 parseHexBytes TextFits
  cases hall : (strip0x (trim s.toList)).all isAsciiHexdigit with
  | false => simp [hall]
  | true =>
    simp only [hall, Bool.not_true, Bool.false_eq_true, if_false, true_implies, hlen]
    generalize hexDecode _ = bytes
    split_ifs with hlong
    · simpa using hlong
    · simpa using hlong

theorem completes_parseU256Value {value : Json} : Completes (parseU256Value value) ↔ ValueFits value := by
  cases value with
  | string s =>
    simp only [parseU256Value, Json.asU64, Json.asStr, ValueFits, Option.some_inj, forall_eq']
    rw [completes_bind_of_forall fun _ => completes_pure _]
    exact completes_parseHexU256
  | number n =>
    have : ValueFits (.number n) := nofun
    unfold parseU256Value
    split
    · simpa using this
    · simp_all [Json.asStr]
    · simpa using this
  | _ => simp [parseU256Value, Json.asU64, Json.asStr, ValueFits]

theorem completes_checkedOp {checks : Bool} {op : String} {exact : ℕ} :
    Completes (checkedOp checks op exact) ↔ (checks = true → exact < 2 ^ 64) := by
  unfold checkedOp
  split_ifs with h
  · simp only [not_completes_error, h.1, true_implies, false_iff, not_lt]
    exact h.2
  · simp only [completes_ok, true_iff]
    intro hchecks
    exact not_le.mp fun hle => h ⟨hchecks, hle⟩

/-! ### Handlers -/

section Requests
variable {R : Revm} {env : RpcEnv} {node : DaemonState R.Db} {req params : Json}

theorem completes_buildBlockResponse {number : UInt64} {full : Bool} :
    Completes (buildBlockResponse node.toNodeState env.overflowChecks number full) ↔ BlockFits R env node number := by
  simp only [buildBlockResponse, BlockFits]
  generalize (blockTxHashes node.toNodeState number).length = count
  rw [completes_bind, completes_checkedOp]
  constructor
  · exact fun h => h.1
  · intro h
    refine ⟨h, fun gasUsed _ => ?_⟩
    rw [completes_bind, completes_checkedOp]
    refine ⟨fun hchecks => ?_, fun perTx hperTx => ?_⟩
    · have := h hchecks
      omega
    rw [completes_bind_of_forall fun _ => completes_pure _, completes_checkedOp]
    intro hchecks
    have hcount := h hchecks
    -- the product did not overflow, so it is the product
    have hsmall : count * 128 < 2 ^ 64 := by omega
    have hexact : perTx.toNat = count * 128 := by
      rw [checkedOp, if_neg fun h => absurd h.2 (not_le.mpr hsmall)] at hperTx
      rw [← Except.ok.inj hperTx, UInt64.toNat_ofNat_of_lt' hsmall]
    omega

theorem completes_wordParam : Completes (wordParam params) ↔ ∀ s, strParam params 1 = some s → TextFits s := by
  unfold wordParam
  cases strParam params 1 with
  | none => simp
  | some s => simp [completes_parseHexU256]

theorem completes_evmReads {method : EvmMethod} :
    Completes (evmReads env params method) ↔ MethodFits R env node req params (.evm method) := by
  have hcall : (∀ call, callObject params = some call → FieldFits (.object call) ["value"]) ↔
      ∀ value, ((callObject params).bind fun call => (call.lookup "value").bind Json.asStr) = some value →
        TextFits value := by
    cases callObject params with
    | none => simp
    | some call =>
      simp only [FieldFits, ValueFits, Json.getFirst, Json.get, Json.asObject, Option.bind_some, Option.some_inj,
        forall_eq', List.findSome?_singleton, Option.bind_eq_some_iff]
      constructor
      · rintro h s ⟨v, hv, hs⟩
        exact h v hv s hs
      · intro h v hv s hs
        exact h s ⟨v, hv, hs⟩
  cases method with
  | ethSendRawTransaction =>
    simp only [evmReads, MethodFits]
    rw [completes_bind_of_forall fun _ => completes_pure _]
    exact RlpCrate.safe_decodeRawTx
  | ethEstimateGas | ethCall =>
    simp only [evmReads, MethodFits, hcall]
    cases (callObject params).bind fun call => (call.lookup "value").bind Json.asStr with
    | none => simp
    | some value =>
      simp only [Option.some_inj, forall_eq']
      rw [completes_bind_of_forall fun _ => completes_pure _]
      exact completes_parseHexU256

theorem completes_mintCounter :
    Completes (mintCounter R env node params) ↔ MethodFits R env node req params .marketMint := by
  unfold mintCounter MethodFits
  cases partyParam params 0 with
  | none => simp
  | some owner =>
    simp only [Option.isSome_some, true_implies]
    rw [completes_bind_of_forall fun _ => completes_pure _]
    exact completes_checkedOp

theorem entryFits_of_asObject {item : Json} (h : item.asObject = none) : EntryFits item := by
  simp [EntryFits, Json.getFirst, Json.get, h]

theorem completes_txMetaOfItem {item : Json} : Completes (Focil.txMetaOfItem item) ↔ EntryFits item := by
  cases item with
  | object fields =>
    simp only [Focil.txMetaOfItem, Json.asStr, Json.asObject, Option.bind_none, EntryFits]
    cases ((Json.object fields).getFirst ["hash", "txHash", "transactionHash"]).bind Json.asStr |>.bind
      normalizeHash32 with
    | none => simp
    | some hash =>
      simp only [Option.isSome_some, true_implies]
      rw [completes_bind_of_forall fun _ => completes_pure _]
      cases hvalue : (Json.object fields).get "value" with
      | none => simp [FieldFits, Json.getFirst, hvalue]
      | some value => simp [FieldFits, Json.getFirst, hvalue, completes_parseU256Value]
  | string s =>
    refine iff_of_true ?_ (entryFits_of_asObject rfl)
    simp only [Focil.txMetaOfItem, Json.asStr, Json.asObject, Option.bind_some]
    cases normalizeHash32 s with
    | none => exact completes_ok none
    | some hash => exact completes_ok _
  | null | bool b | number n | float text | array items =>
    exact iff_of_true (completes_ok none) (entryFits_of_asObject rfl)

theorem completes_dedupTxMetaArray {value : Json} :
    Completes (Focil.dedupTxMetaArray value) ↔ ListFits (some value) := by
  unfold Focil.dedupTxMetaArray ListFits
  simp only [Option.some_inj, forall_eq']
  cases value.asArray with
  | none => simp
  | some items =>
    simp only [Option.some_inj, forall_eq']
    rw [completes_bind_of_forall fun _ => completes_pure _, completes_mapM]
    exact forall₂_congr fun item _ => completes_txMetaOfItem

theorem completes_submittedEntries : Completes (Focil.submittedEntries req) ↔ ListFits (inclusionList req) := by
  unfold Focil.submittedEntries Focil.hasInclusionList Focil.collectInclusionListEntries inclusionList
  cases Focil.payloadAttributes req with
  | none => simp [ListFits]
  | some attrs =>
    simp only [Option.any_some, Option.bind_some]
    cases attrs.get "inclusionListTransactions" with
    | some list =>
      simp only [Option.isSome_some, Bool.true_or, if_true, Option.some_or]
      rw [completes_bind_of_forall fun _ => completes_pure _]
      exact completes_dedupTxMetaArray
    | none =>
      cases attrs.get "inclusionList" with
      | none => simp [ListFits]
      | some il =>
        simp only [Option.isSome_none, Option.isSome_some, Bool.or_true, if_true, Option.none_or, Option.bind_some]
        rw [completes_bind_of_forall fun _ => completes_pure _]
        cases il.get "transactions" with
        | none => exact completes_dedupTxMetaArray
        | some list => exact completes_dedupTxMetaArray

theorem completes_payloadEntries :
    Completes (Focil.collectPayloadTransactionEntries req) ↔ ListFits (payloadTransactions req) := by
  unfold Focil.collectPayloadTransactionEntries payloadTransactions
  cases (Focil.executionPayload req).bind fun payload => payload.get "transactions" with
  | some txs => exact completes_dedupTxMetaArray
  | none =>
    cases req.get "transactions" with
    | some txs => exact completes_dedupTxMetaArray
    | none => simp [ListFits]

theorem completes_forkchoiceUpdated : Completes (Focil.forkchoiceUpdatedResponse env.engine node.toNodeState req) ↔
    MethodFits R env node req params .engineForkchoiceUpdated := by
  simp only [Focil.forkchoiceUpdatedResponse, MethodFits, Engine7732.Violation]
  have hstatus : (Focil.judge env.engine node.toNodeState (Focil.fcSlot node.toNodeState req)
      ((Focil.currentUnixS req).getD env.engine.now)).status =
    (Engine7732.slotStatus env.engine node.toNodeState (Focil.fcSlot node.toNodeState req)
      ((Focil.currentUnixS req).getD env.engine.now)).aggregateStatus := rfl
  rw [hstatus]
  split_ifs with hviolation
  · exact iff_of_true (completes_ok _) fun h => absurd hviolation h
  · rw [completes_bind_of_forall, completes_submittedEntries]
    · exact ⟨fun h _ => h, fun h => h hviolation⟩
    · intro entries
      split_ifs
      · exact completes_pure _
      · exact completes_pure _

theorem completes_newPayload : Completes (Focil.newPayloadResponse env.engine R node.toNodeState req) ↔
    MethodFits R env node req params .engineNewPayload := by
  unfold Focil.newPayloadResponse MethodFits
  rw [completes_bind_of_forall, completes_payloadEntries]
  intro entries
  dsimp only
  split
  · exact completes_pure _
  split
  · exact completes_pure _
  split
  · exact completes_pure _
  split
  · exact completes_pure _
  · exact completes_pure _

theorem completes_registerHeader :
    Completes (Engine7732.registerPayloadHeaderResponse env.engine node.toNodeState req) ↔
      MethodFits R env node req params .engineRegisterPayloadHeader := by
  unfold Engine7732.registerPayloadHeaderResponse MethodFits Engine7732.parseHeaderRecord
  rw [completes_bind_of_forall]
  · cases Engine7732.payloadHeaderSource req with
    | none => simp
    | some source =>
      simp only [Option.some_inj, forall_eq', FieldFits]
      cases ((source.get "message").getD source).getFirst ["bidValue", "bidValueWei"] with
      | none => exact iff_of_true (completes_ok _) nofun
      | some value =>
        simp only [Option.some_inj, forall_eq']
        rw [completes_bind_of_forall fun _ => completes_pure _]
        exact completes_parseU256Value
  · intro record
    cases record with
    | error err => exact completes_pure _
    | ok header => exact completes_pure _

theorem completes_respond (method : Method) :
    Completes (respond R env node req params method) ↔ MethodFits R env node req params method := by
  cases method with
  | ethGetBlockByNumber =>
    simp only [respond, MethodFits, ethGetBlockByNumber]
    rw [completes_bind_of_forall fun _ => completes_pure _]
    cases blockNumberByTag node.toNodeState (tagParam params) with
    | none => simp
    | some number => simp [completes_buildBlockResponse]
  | ethGetBlockByHash =>
    simp only [respond, MethodFits, ethGetBlockByHash]
    rw [completes_bind_of_forall fun _ => completes_pure _]
    cases blockNumberFromHash ((strParam params 0).getD "") with
    | none => simp
    | some number =>
      simp only [Option.some_inj, forall_eq']
      split_ifs with hheight
      · simp [hheight, completes_buildBlockResponse]
      · simp [hheight]
  | evm method =>
    rw [respond, completes_bind_of_forall fun _ => completes_pure _]
    exact completes_evmReads
  | ethGetStorageAt =>
    simp only [respond, ethGetStorageAt, bind_assoc]
    rw [completes_bind_of_forall, completes_wordParam]
    · rfl
    · intro slot
      cases addressParam params 0 with
      | none => exact completes_pure _
      | some address => exact completes_pure _
  | setBalance =>
    simp only [respond, Eth2077.setBalance, bind_assoc]
    rw [completes_bind_of_forall, completes_wordParam]
    · rfl
    · intro amount
      cases addressParam params 0 with
      | none => exact completes_pure _
      | some address =>
        cases amount with
        | none => exact completes_pure _
        | some wei => exact completes_pure _
  | engineForkchoiceUpdated =>
    rw [respond, completes_bind_of_forall fun _ => completes_pure _]
    exact completes_forkchoiceUpdated
  | engineNewPayload =>
    rw [respond, completes_bind_of_forall fun _ => completes_pure _]
    exact completes_newPayload
  | engineRegisterPayloadHeader =>
    rw [respond, completes_bind_of_forall fun _ => completes_pure _]
    exact completes_registerHeader
  | marketMint =>
    rw [respond, completes_bind_of_forall fun _ => completes_pure _]
    exact completes_mintCounter
  | _ => exact iff_of_true (completes_ok _) trivial

/-- The node answers a request, whatever its state and the build, if and only if no number the request makes it
read is longer than the 256 bits it is read into, and no sum that the build checks overflows. -/
theorem handle_completes_iff (R : Revm) (env : RpcEnv) (node : DaemonState R.Db) (req : Json) :
    Completes (handleJsonrpc R env node req) ↔ RequestFits R env node req := by
  unfold handleJsonrpc RequestFits
  cases methods.lookup (methodName req) with
  | none => simp
  | some method =>
    simp only [Option.some_inj, forall_eq']
    rw [completes_bind_of_forall fun _ => completes_pure _]
    exact completes_respond method

end Requests

/-! ### A slot of 33 bytes -/

/-- `eth_getStorageAt` with a slot of 66 digits. -/
def longSlotRequest : Json :=
  .object
    [("jsonrpc", .string "2.0"), ("id", .number 1), ("method", .string "eth_getStorageAt"),
      ("params", .array
        [.string marketMerchantAddress,
          .string "0xffffffffffffffffffffffffffffffffffffffffffffffffffffffffffffffffff"])]

theorem handle_longSlotRequest (R : Revm) (env : RpcEnv) (node : DaemonState R.Db) :
    handleJsonrpc R env node longSlotRequest = .error ⟨"Value too large for Uint"⟩ := rfl

def releaseEnv : RpcEnv where
  engine := Engine7732.namedRootEnv
  market := ⟨fun _ _ _ => 0, 1772409700⟩
  rlp :=
    { isList := fun _ => false, itemCount := fun _ => .error "expected list", «at» := fun _ _ => .error "expected list"
      valAt := fun _ _ => .error "expected list" }
  nftOrder := .stored
  blobBaseFeePerGas := 1
  f64Json _ := .null
  overflowChecks := false

def devnetNode : DaemonState accountsOnly.Db where
  toNodeState := buildState accountsOnly 2077001 1772409600
  nodeId := 0
  nodes := 4
  peersTarget := 3
  peersConnected := 3
  ingressCapacityTps := 220000
  executionCapacityTps := 152000
  oobCapacityTps := 186000
  bridgeReplaySafe := true
  marketReceipts := ∅

theorem long_slot_panics : ¬ Completes (handleJsonrpc accountsOnly releaseEnv devnetNode longSlotRequest) := by
  rw [handle_longSlotRequest]
  exact not_completes_error _

end Rpc

end Eth2077
