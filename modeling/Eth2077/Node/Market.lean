import Eth2077.Node.Queries

/-!
# The market (`node/src/bin/eth2077-devnetd.rs`, `eth2077_market*`)

Tokens are minted, sold, passed on and put up again. A sale leaves a receipt under the hash of its transaction,
which is made up unless the buyer names one. `DaemonState` is the node with the receipts and with what it reports
about itself.
-/

namespace Eth2077

structure MarketReceipt where
  txHash : String
  tokenId : UInt64
  buyer : String
  seller : String
  priceWei : BitVec 128
  chainId : UInt64
  blockNumberHint : UInt64
  timestampUnixS : UInt64
  signature : String

/-- The rest of the source's `NodeState`, less its ports and the name of its network, which no request reads. -/
structure DaemonState (Db : Type) extends NodeState Db where
  nodeId : UInt64
  nodes : UInt64
  peersTarget : UInt64
  peersConnected : UInt64
  ingressCapacityTps : Float
  executionCapacityTps : Float
  oobCapacityTps : Float
  bridgeReplaySafe : Bool
  marketReceipts : HashMap String MarketReceipt

/-! ### Receipts -/

def marketReceiptSignature (env : MarketEnv) (receipt : MarketReceipt) : String :=
  let payload := String.intercalate ":"
    ["eth2077:market:receipt:v1", toString receipt.chainId, receipt.txHash, toString receipt.tokenId, receipt.buyer,
      receipt.seller, toString receipt.priceWei.toNat, toString receipt.blockNumberHint,
      toString receipt.timestampUnixS]
  pseudoTxHash env payload
    (((receipt.chainId.saturatingAdd receipt.tokenId).saturatingAdd receipt.blockNumberHint).saturatingAdd
      receipt.timestampUnixS)

def marketReceiptToJson (receipt : MarketReceipt) : Json :=
  .object
    [("txHash", .string receipt.txHash), ("tokenId", hexU64 receipt.tokenId), ("buyer", .string receipt.buyer),
      ("seller", .string receipt.seller), ("priceWei", hexU128 receipt.priceWei),
      ("chainId", hexU64 receipt.chainId), ("blockNumberHint", hexU64 receipt.blockNumberHint),
      ("timestampUnixS", u64Json receipt.timestampUnixS), ("signature", .string receipt.signature),
      ("scheme", .string "ETH2077-MARKET-RECEIPT-V1")]

/-! ### Requests -/

/-- The tokens that pass `p`, by their number; `order` is that of `values()`. -/
def sortedNfts {Db : Type} (order : IterOrder UInt64) (state : NodeState Db) (p : MarketNft → Bool) : Json :=
  let nfts := ((order.order state.marketNfts.keys).filterMap state.marketNfts.lookup).filter p
  .array ((nfts.mergeSort fun a b => decide (a.tokenId ≤ b.tokenId)).map marketNftToJson)

section Requests
variable {Db : Type} (env : MarketEnv) (state : DaemonState Db) (params : Json)

def tokenParam : Option UInt64 := (strParam params 0).bind parseHexU64

/-- An address in canonical form. -/
def partyParam (i : ℕ) : Option String := (strParam params i).bind canonicalAddress

/-- The hash a request names, in lower case. -/
def hashParam (i : ℕ) : Option String := ((strParam params i).map asciiLowercase).filter fun v => v ≠ ""

def marketByOwner (order : IterOrder UInt64) : Response :=
  match partyParam params 0 with
  | some owner => .result (sortedNfts order state.toNodeState fun nft => nft.owner = owner)
  | none => .error (-32602) "invalid params: expected [ownerAddress]"

/-- The transaction a request names is `party`'s; `action` and `role` are for the message. -/
def checkSender (hash : Option String) (party action role : String) : Except Response Unit :=
  match hash with
  | none => .ok ()
  | some hash =>
    match state.txs.lookup hash with
    | some tx =>
      if tx.from = party then .ok () else .error (.error (-32000) s!"tx sender does not match {role}")
    | none => .error (.error (-32000) s!"unknown tx hash for market {action}")

/-- `get_mut`: the answer of `f`, and the token it leaves. -/
def withNft (tokenId : UInt64) (f : MarketNft → Response × DaemonState Db) : Response × DaemonState Db :=
  match state.marketNfts.lookup tokenId with
  | some nft => f nft
  | none => (.error (-32000) "unknown nft token id", state)

def putNft (tokenId : UInt64) (nft : MarketNft) : DaemonState Db :=
  { state with marketNfts := AList.insert tokenId nft state.marketNfts }

/-- A sale of a listed token to someone else than its owner. -/
def sell (tokenId : UInt64) (buyer : String) (txHash : Option String) (nft : MarketNft) :
    Response × DaemonState Db :=
  if !nft.listed then (.error (-32000) "nft is not listed", state)
  else if nft.owner = buyer then (.error (-32000) "buyer already owns this nft", state)
  else
    let effectiveTxHash := txHash.getD
      (pseudoTxHash env s!"market-buy:{tokenId}:{buyer}:{env.now}" (state.txCounter.saturatingAdd env.now))
    let seller := nft.owner
    let nft := { nft with owner := buyer, listed := false, lastTxHash := some effectiveTxHash }
    let receipt : MarketReceipt :=
      { txHash := effectiveTxHash, tokenId := tokenId, buyer := buyer, seller := seller, priceWei := nft.priceWei
        chainId := state.chainId, blockNumberHint := state.currentHeight.saturatingAdd 1
        timestampUnixS := env.now, signature := "" }
    let receipt := { receipt with signature := marketReceiptSignature env receipt }
    (.result (.object [("nft", marketNftToJson nft), ("receipt", marketReceiptToJson receipt)]),
      { putNft state tokenId nft with
        marketReceipts := AList.insert effectiveTxHash receipt state.marketReceipts })

def marketBuy : Response × DaemonState Db :=
  match tokenParam params, partyParam params 1 with
  | some tokenId, some buyer =>
    match checkSender state (hashParam params 2) buyer "buy" "buyer" with
    | .error response => (response, state)
    | .ok () => withNft state tokenId (sell env state tokenId buyer (hashParam params 2))
  | _, _ => (.error (-32602) "invalid params: expected [tokenIdHex, buyerAddress, txHash?]", state)

def marketTransfer : Response × DaemonState Db :=
  match tokenParam params, partyParam params 1, partyParam params 2 with
  | some tokenId, some source, some target =>
    match checkSender state (hashParam params 3) source "transfer" "transfer source" with
    | .error response => (response, state)
    | .ok () =>
      withNft state tokenId fun nft =>
        if nft.owner ≠ source then (.error (-32000) "only current owner can transfer nft", state)
        else
          let nft := { nft with owner := target, listed := false, lastTxHash := hashParam params 3 }
          (.result (marketNftToJson nft), putNft state tokenId nft)
  | _, _, _ =>
    (.error (-32602) "invalid params: expected [tokenIdHex, fromAddress, toAddress, txHash?]", state)

def marketRelist : Response × DaemonState Db :=
  match tokenParam params, partyParam params 1, (strParam params 2).bind parseHexU128 with
  | some tokenId, some owner, some priceWei =>
    withNft state tokenId fun nft =>
      if nft.owner ≠ owner then (.error (-32000) "only owner can relist nft", state)
      else
        let nft := { nft with listed := true, priceWei := priceWei }
        (.result (marketNftToJson nft), putNft state tokenId nft)
  | _, _, _ => (.error (-32602) "invalid params: expected [tokenIdHex, ownerAddress, priceWeiHex]", state)

def marketReceipt : Response :=
  match (strParam params 0).map asciiLowercase with
  | some hash => .result (.ofOption marketReceiptToJson (state.marketReceipts.lookup hash))
  | none => .error (-32602) "invalid params: expected [txHash]"

end Requests

/-! ### What the node reports about itself -/

def eth2077StatusJson {Db : Type} (f64Json : Float → Json) (state : DaemonState Db) (now : UInt64) : Json :=
  let headBlock := state.currentHeight
  let finalizedBlock := state.finalizedHeight
  let finalityLagBlocks := headBlock.saturatingSub finalizedBlock
  let windowStart := headBlock.saturatingSub 59
  let windowBlockCount := (headBlock.saturatingSub windowStart).saturatingAdd 1
  let windowSpanSeconds := max (windowBlockCount.saturatingMul 12) 1
  let count (block : UInt64) : UInt64 := UInt64.ofNat (blockTxHashes state.toNodeState block).length
  let counts := (rangeInclusive windowStart headBlock).map count
  let windowTxs := counts.foldl UInt64.saturatingAdd 0
  let latestBlockTimestamp := (state.blockTimestamps.lookup headBlock).getD state.startedAtUnixS
  let size (n : ℕ) : Json := .number n
  .object
    [("schema", .string "eth2077/status-v1"), ("timestampUnixS", u64Json now), ("nodeId", u64Json state.nodeId),
      ("nodes", u64Json state.nodes), ("chainId", hexU64 state.chainId), ("headBlock", hexU64 headBlock),
      ("finalizedBlock", hexU64 finalizedBlock), ("finalityLagBlocks", hexU64 finalityLagBlocks),
      ("finalityLagMsEstimate", u64Json (finalityLagBlocks.saturatingMul 12000)),
      ("latestBlockTimestamp", u64Json latestBlockTimestamp),
      ("uptimeSeconds", u64Json (now.saturatingSub state.startedAtUnixS)),
      ("peersConnected", u64Json state.peersConnected), ("peersTarget", u64Json state.peersTarget),
      ("txPoolPending", size state.pendingTxs.length), ("knownTransactions", size state.txs.keys.length),
      ("window", .object
        [("startBlock", hexU64 windowStart), ("endBlock", hexU64 headBlock), ("blockCount", u64Json windowBlockCount),
          ("spanSeconds", u64Json windowSpanSeconds), ("txs", u64Json windowTxs),
          ("nonEmptyBlocks", size (counts.countP fun n => 0 < n)),
          ("avgTpsApprox", f64Json (windowTxs.toFloat / windowSpanSeconds.toFloat))]),
      ("latestBlockTxs", u64Json (count headBlock)), ("finalizedBlockTxs", u64Json (count finalizedBlock)),
      ("capacity", .object
        [("ingressTps", f64Json state.ingressCapacityTps), ("executionTps", f64Json state.executionCapacityTps),
          ("oobTps", f64Json state.oobCapacityTps), ("bridgeReplaySafe", .bool state.bridgeReplaySafe)]),
      ("app", .object
        [("marketNfts", size state.marketNfts.keys.length),
          ("marketReceipts", size state.marketReceipts.keys.length)])]

end Eth2077
