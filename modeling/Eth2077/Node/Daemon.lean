import Eth2077.Node.Parse

/-!
# Start-up and the ticker (`node/src/bin/eth2077-devnetd.rs`)

The node as `build_state` leaves it, the thread that moves the pending transactions into a block, and the
two requests besides `eth_sendRawTransaction` that matter to it: `eth_getTransactionCount` leaves the
sender the next raw transaction will have, and `eth2077_marketMint` makes up a transaction of its own.
-/

namespace Eth2077

def marketMerchantAddress : String := "0x1111111111111111111111111111111111111111"

def seedMarketNfts (now : UInt64) : HashMap UInt64 MarketNft :=
  let seed (tokenId : UInt64) (name description image : String) (priceWei : BitVec 128) : MarketNft :=
    ⟨tokenId, name, description, image, marketMerchantAddress, true, priceWei, now, none⟩
  let nfts :=
    [seed 1 "Citadel Genesis #1" "First generation ETH2077 demo marketplace NFT"
        "https://picsum.photos/seed/eth2077-genesis-1/640/640" 1500000000000000,
      seed 2 "Citadel Genesis #2" "Proof-of-concept NFT for ETH2077 marketplace flows"
        "https://picsum.photos/seed/eth2077-genesis-2/640/640" 2000000000000000,
      seed 3 "Citadel Genesis #3" "Live devnet collectible settled through MetaMask"
        "https://picsum.photos/seed/eth2077-genesis-3/640/640" 3000000000000000]
  nfts.foldl (fun out nft => AList.insert nft.tokenId nft out) ∅

/-- The node at start-up, with the chain id of the chain spec. -/
def buildState (R : Revm) (chainId startedAtUnixS : UInt64) : NodeState R.Db where
  chainId := chainId
  startedAtUnixS := startedAtUnixS
  currentHeight := 0
  finalizedHeight := 0
  pendingTxs := []
  txs := ∅
  nonceByAddress := ∅
  pendingNonceAddressHint := none
  txCounter := 0
  evmDb := R.empty
  txReceipts := ∅
  blockTimestamps := AList.insert 0 startedAtUnixS ∅
  marketNfts := seedMarketNfts startedAtUnixS

/-! ### The ticker -/

/-- `get_mut`, and a change in place. -/
def HashMap.modify {K V : Type} [DecidableEq K] (m : HashMap K V) (key : K) (f : V → V) : HashMap K V :=
  match m.lookup key with
  | some value => AList.insert key (f value) m
  | none => m

/-- `format!("{n:016x}")`. -/
def hex16 (n : UInt64) : String := hexEncode (toBeBytes n)

def blockHash (height : UInt64) : String :=
  bytesToHex (toBeBytes (height.saturatingAdd 1) ++ List.replicate 24 0)

/-- Where a transaction goes: the block, and the place in it. -/
structure Place where
  block : UInt64
  index : UInt64

namespace Place
variable (p : Place)

def tx (tx : TxRecord) : TxRecord :=
  { tx with
    blockNumber := some p.block, blockHash := some (blockHash p.block), transactionIndex := some p.index }

def log (txHash : String) (logIndex : UInt64) (log : TxLogRecord) : TxLogRecord :=
  { log with
    blockNumber := some p.block
    blockHash := some (blockHash p.block)
    transactionHash := some txHash
    transactionIndex := some p.index
    logIndex := some logIndex }

/-- The logs of a receipt, numbered on from `next`, and the number after them. -/
def logs (txHash : String) : UInt64 → List TxLogRecord → List TxLogRecord × UInt64
  | next, [] => ([], next)
  | next, l :: ls =>
    let (ls, last) := logs txHash (next.saturatingAdd 1) ls
    (p.log txHash next l :: ls, last)

def receipt (txHash : String) (cumulativeGasUsed nextLogIndex : UInt64) (receipt : TxReceiptRecord) :
    TxReceiptRecord :=
  { receipt with
    cumulativeGasUsed := cumulativeGasUsed
    blockNumber := some p.block
    blockHash := some (blockHash p.block)
    transactionIndex := some p.index
    logs := (p.logs txHash nextLogIndex receipt.logs).1 }

end Place

/-- What the loop over the pending transactions changes. -/
structure Sealing where
  txs : HashMap String TxRecord
  txReceipts : HashMap String TxReceiptRecord
  cumulativeGasUsed : UInt64
  nextLogIndex : UInt64

def Sealing.place (block : UInt64) (acc : Sealing) (entry : String × ℕ) : Sealing :=
  let txHash := entry.1
  let p : Place := ⟨block, UInt64.ofNat entry.2⟩
  let acc := { acc with txs := acc.txs.modify txHash p.tx }
  match acc.txReceipts.lookup txHash with
  | none => acc
  | some receipt =>
    let cumulativeGasUsed := acc.cumulativeGasUsed.saturatingAdd receipt.gasUsed
    { acc with
      txReceipts := AList.insert txHash (p.receipt txHash cumulativeGasUsed acc.nextLogIndex receipt) acc.txReceipts
      cumulativeGasUsed := cumulativeGasUsed
      nextLogIndex := (p.logs txHash acc.nextLogIndex receipt.logs).2 }

/-- One turn of the ticker's loop. -/
def blockTick {Db : Type} (state : NodeState Db) (now : UInt64) : NodeState Db :=
  let currentBlock := state.currentHeight.saturatingAdd 1
  let pendingHashes := state.pendingTxs
  let sealed := pendingHashes.zipIdx.foldl (Sealing.place currentBlock) ⟨state.txs, state.txReceipts, 0, 0⟩
  { state with
    currentHeight := currentBlock
    finalizedHeight := currentBlock.saturatingSub 2
    blockTimestamps := AList.insert currentBlock now state.blockTimestamps
    pendingTxs := []
    blockTxs := if pendingHashes = [] then state.blockTxs else AList.insert currentBlock pendingHashes state.blockTxs
    txs := sealed.txs
    txReceipts := sealed.txReceipts }

/-! ### Requests -/

def ethGetTransactionCount (R : Revm) (state : NodeState R.Db) (params : Json) : Response × NodeState R.Db :=
  let addressStr := (params.param 0).bind Json.asStr
  let hint := addressStr.bind canonicalAddress
  match addressStr.bind addressFromHex with
  | some address =>
    let (nonce, db) := accountNonceFromDb R state.evmDb address
    (.result (hexU64 nonce), { state with evmDb := db, pendingNonceAddressHint := hint })
  | none => (.result (hexU64 0), { state with pendingNonceAddressHint := hint })

/-- What the market uses besides the node and the request: the digest of a fresh `DefaultHasher` that was
fed a text and two numbers, and the clock. -/
structure MarketEnv where
  defaultHasher : String → UInt64 → UInt64 → UInt64
  now : UInt64

def pseudoTxHash (env : MarketEnv) (rawTx : String) (counter : UInt64) : String :=
  "0x" ++ String.join ([0, 1, 2, 3].map fun salt => hex16 (env.defaultHasher rawTx counter salt))

def mintText (owner : String) (tokenId now : UInt64) : String := s!"market-mint:{owner}:{tokenId}:{now}"

def marketNftToJson (nft : MarketNft) : Json :=
  .object
    [("tokenId", hexU64 nft.tokenId), ("name", .string nft.name), ("description", .string nft.description),
      ("image", .string nft.image), ("owner", .string nft.owner), ("listed", .bool nft.listed),
      ("priceWei", .string (hexNat nft.priceWei.toNat)), ("createdAtUnixS", u64Json nft.createdAtUnixS),
      ("lastTxHash", .ofOption .string nft.lastTxHash)]

section Mint
variable {Db : Type} (env : MarketEnv) (state : NodeState Db)

/-- The hash of the transaction a mint for `owner` makes up. The sum of the counter and the clock wraps in a
release build. -/
def mintHash (owner : String) : String :=
  pseudoTxHash env (mintText owner state.nextMarketTokenId env.now) (state.txCounter + env.now)

def eth2077MarketMint (params : Json) : Response × NodeState Db :=
  let str (i : ℕ) : Option String := (params.param i).bind Json.asStr
  let text (i : ℕ) : Option String :=
    ((str i).map fun v => String.ofList (trim v.toList)).filter fun v => v ≠ ""
  match (str 0).bind canonicalAddress with
  | none => (.error (-32602)
      "invalid params: expected [ownerAddress, name?, description?, imageUrl?, priceWeiHex?]", state)
  | some owner =>
    let tokenId := state.nextMarketTokenId
    let txHash := mintHash env state owner
    let nonce := (state.nonceByAddress.lookup owner).getD 0
    let tx : TxRecord :=
      { hash := txHash
        «from» := owner
        «to» := some marketMerchantAddress
        nonce := nonce
        gas := 120000
        gasPrice := 1000000000
        maxPriorityFeePerGas := some 0
        maxFeePerBlobGas := none
        blobVersionedHashes := []
        authorizationListLen := 0
        value := "0x0"
        input := "0x6d696e74" ++ hex16 tokenId
        txType := "0x2"
        contractAddress := none
        blockNumber := none
        blockHash := none
        transactionIndex := none }
    let nft : MarketNft :=
      { tokenId := tokenId
        name := (text 1).getD s!"ETH2077 NFT #{tokenId}"
        description := (text 2).getD "Minted on ETH2077 devnet marketplace"
        image := (text 3).getD s!"https://picsum.photos/seed/eth2077-{tokenId}/640/640"
        owner := owner
        listed := true
        priceWei := ((str 4).bind parseHexU128).getD 1000000000000000
        createdAtUnixS := env.now
        lastTxHash := some txHash }
    (.result (marketNftToJson nft),
      { state with
        nextMarketTokenId := state.nextMarketTokenId.saturatingAdd 1
        txCounter := state.txCounter.saturatingAdd 1
        nonceByAddress := AList.insert owner (nonce.saturatingAdd 1) state.nonceByAddress
        pendingTxs := state.pendingTxs ++ [txHash]
        txs := AList.insert txHash tx state.txs
        marketNfts := AList.insert tokenId nft state.marketNfts })

end Mint

end Eth2077
