import Eth2077.Text
import Eth2077.Types.Canonical
import Eth2077.Lib.Saturating

/-!
# The JSON-RPC daemon: transactions (`node/src/bin/eth2077-devnetd.rs`)

The three request handlers that run the EVM. The EVM and its database come from `revm` and are a
parameter, `Revm`; so are the functions that read a request's strings, `Decoders`. What a handler
answers and what it leaves in the `NodeState` is modelled line by line, `std::mem::take` included.
-/

namespace Eth2077

/-! ### Requests and answers -/

/-- `serde_json::Value`; a number that is no integer of 64 bits is kept as its text. -/
inductive Json where
  | null
  | bool (b : Bool)
  | number (n : Int)
  | float (text : String)
  | string (s : String)
  | array (items : List Json)
  | object (fields : List (String × Json))

namespace Json

def asStr : Json → Option String
  | string s => some s
  | _ => none

def asArray : Json → Option (List Json)
  | array items => some items
  | _ => none

def asObject : Json → Option (List (String × Json))
  | object fields => some fields
  | _ => none

def asBool : Json → Option Bool
  | bool b => some b
  | _ => none

def asU64 : Json → Option UInt64
  | number n => if 0 ≤ n ∧ n < 2 ^ 64 then some (UInt64.ofNat n.toNat) else none
  | _ => none

/-- `Value::get` with a key. -/
def get (value : Json) (key : String) : Option Json := value.asObject.bind fun fields => fields.lookup key

/-- The value of the first of the keys that is there. -/
def getFirst (value : Json) (keys : List String) : Option Json := keys.findSome? value.get

def ofOption {α : Type} (f : α → Json) : Option α → Json
  | some a => f a
  | none => null

/-- `params.as_array().and_then(|a| a.get(i))`. -/
def param (params : Json) (i : Nat) : Option Json := params.asArray.bind fun items => items[i]?

end Json

inductive Response where
  | result (value : Json)
  | error (code : Int) (message : String)

/-! ### Hexadecimal output -/

def bytesToHex (bs : List UInt8) : String := "0x" ++ hexEncode bs

/-- `format!("0x{v:x}")`. -/
def hexNat (n : Nat) : String := "0x" ++ String.ofList (Nat.toDigits 16 n)

/-! ### The EVM -/

/-- `revm::state::AccountInfo`; the code as its original bytes. -/
structure EvmAccountInfo where
  balance : U256
  nonce : UInt64
  codeHash : B256
  code : Option (List UInt8)

structure SignedAuthorization where
  chainId : U256
  address : Address
  nonce : UInt64
  yParity : UInt8
  r : U256
  s : U256

structure DecodedRawTx where
  txType : UInt8
  chainId : Option UInt64
  nonce : UInt64
  gasLimit : UInt64
  gasPrice : BitVec 128
  maxPriorityFeePerGas : Option (BitVec 128)
  maxFeePerBlobGas : Option (BitVec 128)
  blobHashes : List B256
  authorizations : List SignedAuthorization
  «to» : Option Address
  value : U256
  data : List UInt8

/-- The settings `execute_evm_transaction` makes in the context, on the Prague rules. -/
structure EvmEnv where
  chainId : UInt64
  txChainIdCheck : Bool
  blockNumber : UInt64
  blockTimestamp : UInt64
  basefee : UInt64
  gasLimit : UInt64

structure TxEnv where
  txType : UInt8
  caller : Address
  gasLimit : UInt64
  maxFeePerGas : BitVec 128
  gasPriorityFee : Option (BitVec 128)
  nonce : UInt64
  chainId : Option UInt64
  value : U256
  data : List UInt8
  maxFeePerBlobGas : BitVec 128
  blobHashes : List B256
  authorizationList : List SignedAuthorization
  kind : Option Address

structure EvmExecOutcome where
  gasUsed : UInt64
  status : Bool
  output : List UInt8
  contractAddress : Option Address
  logs : List Log

/-- What is used of `revm`. Reading may cache, so it returns the database as well; a transaction that
fails returns its error, one that runs returns the database after it. -/
structure Revm where
  Db : Type
  /-- `InMemoryDB::default()`. -/
  empty : Db
  /-- `AccountInfo::default()`. -/
  defaultInfo : EvmAccountInfo
  basic : Db → Address → Except String (Option EvmAccountInfo) × Db
  codeByHash : Db → B256 → Except String (List UInt8) × Db
  storage : Db → Address → U256 → Except String U256 × Db
  insertAccountInfo : Db → Address → EvmAccountInfo → Db
  transact : EvmEnv → Db → TxEnv → Except String (EvmExecOutcome × Db)
  transactCommit : EvmEnv → Db → TxEnv → Except String (EvmExecOutcome × Db)
  logsBloom : List Log → Bloom

/-! ### The node -/

structure TxRecord where
  hash : String
  «from» : String
  «to» : Option String
  nonce : UInt64
  gas : UInt64
  gasPrice : BitVec 128
  maxPriorityFeePerGas : Option (BitVec 128)
  maxFeePerBlobGas : Option (BitVec 128)
  blobVersionedHashes : List String
  authorizationListLen : Nat
  value : String
  input : String
  txType : String
  contractAddress : Option String
  blockNumber : Option UInt64
  blockHash : Option String
  transactionIndex : Option UInt64

structure TxLogRecord where
  address : String
  topics : List String
  data : String
  blockNumber : Option UInt64
  blockHash : Option String
  transactionHash : Option String
  transactionIndex : Option UInt64
  logIndex : Option UInt64

structure TxReceiptRecord where
  txHash : String
  «from» : String
  «to» : Option String
  contractAddress : Option String
  gasUsed : UInt64
  cumulativeGasUsed : UInt64
  effectiveGasPrice : UInt64
  txType : String
  status : Bool
  logsBloom : String
  blockNumber : Option UInt64
  blockHash : Option String
  transactionIndex : Option UInt64
  logs : List TxLogRecord

/-- An entry of an inclusion list or a payload. -/
structure EngineTxMeta where
  hash : String
  «from» : Option String := none
  nonce : Option UInt64 := none
  gasLimit : Option UInt64 := none
  gasPrice : Option (BitVec 128) := none
  value : Option U256 := none
deriving DecidableEq

structure Engine7732HeaderRecord where
  slot : UInt64
  payloadHeaderRoot : String
  parentBeaconBlockRoot : Option String
  executionBlockHash : Option String
  proposer : Option String
  bidValueWei : Option U256
  viewId : Option UInt64
  receivedAtUnixS : UInt64
deriving DecidableEq

structure Engine7732EnvelopeRecord where
  slot : UInt64
  payloadHeaderRoot : String
  executionBlockHash : Option String
  payloadBodyHash : Option String
  signer : Option String
  dataAvailable : Bool
  revealedAtUnixS : UInt64
deriving DecidableEq

/-- The values of `aggregateStatus`. -/
inductive TimelinessStatus where
  | unknown
  | orphanEnvelope
  | lateReveal
  | revealed
  | withheld
  | partialWithhold
  | headerOnly
  | partialReveal
deriving DecidableEq

inductive PenaltyState where
  | active
  | recovered
deriving DecidableEq

structure Engine7732PenaltyRecord where
  slot : UInt64
  state : PenaltyState
  reason : String
  lastStatus : TimelinessStatus
  activatedAtUnixS : UInt64
  recoveredAtUnixS : Option UInt64
deriving DecidableEq

structure MarketNft where
  tokenId : UInt64
  name : String
  description : String
  image : String
  owner : String
  listed : Bool
  priceWei : BitVec 128
  createdAtUnixS : UInt64
  lastTxHash : Option String

/-- The fields of the node the handlers touch. A new node has none of what the defaults leave out. -/
structure NodeState (Db : Type) where
  chainId : UInt64
  startedAtUnixS : UInt64
  currentHeight : UInt64
  finalizedHeight : UInt64
  pendingTxs : List String
  txs : HashMap String TxRecord
  nonceByAddress : HashMap String UInt64
  pendingNonceAddressHint : Option String
  txCounter : UInt64
  evmDb : Db
  txReceipts : HashMap String TxReceiptRecord
  blockTxs : HashMap UInt64 (List String) := ∅
  blockTimestamps : HashMap UInt64 UInt64 := ∅
  engineRequiredIlTxs : List String := []
  engineRequiredIlMeta : HashMap String EngineTxMeta := ∅
  engineRequiredIlSlot : Option UInt64 := none
  engineRequiredIlUpdatedAtUnixS : Option UInt64 := none
  engineFocilCommittee : List String := []
  engineFocilViewFrozen : Bool := false
  engineFocilFrozenSlot : Option UInt64 := none
  engineFocilFrozenIlRoot : Option String := none
  engineFocilViewId : Option UInt64 := none
  engine7732HeadersBySlot : HashMap UInt64 (List String) := ∅
  engine7732HeadersByRoot : HashMap String Engine7732HeaderRecord := ∅
  engine7732EnvelopesByRoot : HashMap String Engine7732EnvelopeRecord := ∅
  engine7732PenaltiesBySlot : HashMap UInt64 Engine7732PenaltyRecord := ∅
  marketNfts : HashMap UInt64 MarketNft := ∅
  nextMarketTokenId : UInt64 := 4

/-! ### Reading the database -/

section Evm
variable (R : Revm)

def accountNonceFromDb (db : R.Db) (address : Address) : UInt64 × R.Db :=
  let (info, db) := R.basic db address
  ((info.toOption.join.map (·.nonce)).getD 0, db)

def accountBalanceFromDb (db : R.Db) (address : Address) : U256 × R.Db :=
  let (info, db) := R.basic db address
  ((info.toOption.join.map (·.balance)).getD 0, db)

def codeHexFromDb (db : R.Db) (address : Address) : String × R.Db :=
  match R.basic db address with
  | (.ok (some info), db) =>
    match info.code with
    | some raw => (bytesToHex raw, db)
    | none =>
      if info.codeHash = FixedBytes.zero then ("0x", db)
      else
        match R.codeByHash db info.codeHash with
        | (.ok raw, db) => (bytesToHex raw, db)
        | (.error _, db) => ("0x", db)
  | (_, db) => ("0x", db)

/-- The slot `storage_hex_from_db` prints. -/
def storageFromDb (db : R.Db) (address : Address) (slot : U256) : U256 × R.Db :=
  let (value, db) := R.storage db address slot
  (value.toOption.getD 0, db)

/-! ### Running a transaction -/

structure EvmCall where
  caller : Address
  decoded : DecodedRawTx
  commit : Bool
  blockNumber : UInt64
  blockTimestamp : UInt64

def buildTxEnv (chainId : UInt64) (c : EvmCall) : TxEnv where
  txType := c.decoded.txType
  caller := c.caller
  gasLimit := max c.decoded.gasLimit 21000
  maxFeePerGas := c.decoded.gasPrice
  gasPriorityFee := c.decoded.maxPriorityFeePerGas
  nonce := c.decoded.nonce
  chainId := c.decoded.chainId.or (some chainId)
  value := c.decoded.value
  data := c.decoded.data
  maxFeePerBlobGas := c.decoded.maxFeePerBlobGas.getD 0
  blobHashes := if c.decoded.maxFeePerBlobGas.isSome then c.decoded.blobHashes else []
  authorizationList := c.decoded.authorizations
  kind := c.decoded.«to»

def executeEvmTransaction (state : NodeState R.Db) (c : EvmCall) :
    Except String EvmExecOutcome × NodeState R.Db :=
  let db := state.evmDb
  -- `std::mem::take`: from here on the node holds an empty database
  let state := { state with evmDb := R.empty }
  match R.basic db c.caller with
  | (.error e, _) => (.error ("failed reading caller account: " ++ e), state)
  | (.ok info, db) =>
    let db := if info.isNone then R.insertAccountInfo db c.caller R.defaultInfo else db
    let env : EvmEnv := ⟨state.chainId, true, c.blockNumber, c.blockTimestamp, 0, 30000000⟩
    let tx := buildTxEnv state.chainId c
    if c.commit then
      match R.transactCommit env db tx with
      | .error e => (.error ("evm transaction failed: " ++ e), state)
      | .ok (outcome, db) => (.ok outcome, { state with evmDb := db })
    else
      match R.transact env db tx with
      | .error e => (.error ("evm call failed: " ++ e), state)
      | .ok (outcome, db) => (.ok outcome, { state with evmDb := db })

/-! ### The handlers -/

structure Decoders where
  addressFromHex : String → Option Address
  parseHexBytes : String → Option (List UInt8)
  parseHexU64 : String → Option UInt64
  parseHexU128 : String → Option (BitVec 128)
  parseHexU256 : String → Option U256
  decodeRawTx : String → Except String DecodedRawTx
  keccak256 : List UInt8 → B256

variable (D : Decoders)

def blockByTag {Db : Type} (state : NodeState Db) (tag : String) : Option UInt64 :=
  if tag = "latest" ∨ tag = "pending" then some state.currentHeight
  else if tag = "finalized" then some state.finalizedHeight
  else if tag = "earliest" then some 0
  else D.parseHexU64 tag

def blockTs {Db : Type} (state : NodeState Db) (blockNumber : UInt64) : UInt64 :=
  state.startedAtUnixS.saturatingAdd (blockNumber.saturatingMul 12)

/-- The common part of `eth_estimateGas` and `eth_call`: the sender and the transaction of a call
object. Looking up the nonce may cache the account. -/
def decodeCall (state : NodeState R.Db) (call : List (String × Json)) :
    Address × DecodedRawTx × NodeState R.Db :=
  let str (key : String) : Option String := (call.lookup key).bind Json.asStr
  let caller := ((str "from").bind D.addressFromHex).or
    (state.pendingNonceAddressHint.bind D.addressFromHex) |>.getD FixedBytes.zero
  let (nonce, db) := accountNonceFromDb R state.evmDb caller
  let data := (((call.lookup "data").or (call.lookup "input")).bind Json.asStr).bind D.parseHexBytes
  let decoded : DecodedRawTx :=
    { txType := 0x2
      chainId := some state.chainId
      nonce := nonce
      gasLimit := ((str "gas").bind D.parseHexU64).getD 30000000
      gasPrice := ((str "gasPrice").bind D.parseHexU128).getD 0
      maxPriorityFeePerGas := some 0
      maxFeePerBlobGas := none
      blobHashes := []
      authorizations := []
      «to» := (str "to").bind D.addressFromHex
      value := ((str "value").bind D.parseHexU256).getD 0
      data := data.getD [] }
  (caller, decoded, { state with evmDb := db })

def callObject (params : Json) : Option (List (String × Json)) := (params.param 0).bind Json.asObject

def invalidParams : Response := .error (-32602) "invalid params: expected call object as first parameter"

inductive EvmMethod where
  | ethEstimateGas
  | ethCall
  | ethSendRawTransaction

/-- What a handler does before it runs the EVM: an answer, or the transaction to run and the state to
run it in. -/
def prepare (state : NodeState R.Db) (params : Json) : EvmMethod → Response ⊕ EvmCall × NodeState R.Db
  | .ethEstimateGas =>
    match callObject params with
    | none => .inl invalidParams
    | some call =>
      let (caller, decoded, state) := decodeCall R D state call
      .inr (⟨caller, decoded, false, state.currentHeight, blockTs state state.currentHeight⟩, state)
  | .ethCall =>
    match callObject params with
    | none => .inl invalidParams
    | some call =>
      let tag := ((params.param 1).bind Json.asStr).getD "latest"
      let (caller, decoded, state) := decodeCall R D state call
      let blockNumber := (blockByTag D state tag).getD state.currentHeight
      .inr (⟨caller, decoded, false, blockNumber, blockTs state blockNumber⟩, state)
  | .ethSendRawTransaction =>
    match D.decodeRawTx (((params.param 0).bind Json.asStr).getD "0x") with
    | .error err => .inl (.error (-32602) ("invalid raw tx: " ++ err))
    | .ok decoded =>
      if decoded.chainId.any fun id => id ≠ state.chainId then
        .inl (.error (-32000) ("chain id mismatch: tx uses " ++ toString (decoded.chainId.getD 0).toNat ++
          ", node is " ++ toString state.chainId.toNat))
      else
        match state.pendingNonceAddressHint with
        | none => .inl (.error (-32000)
            "missing sender hint; call eth_getTransactionCount(address) before eth_sendRawTransaction")
        | some hint =>
          match D.addressFromHex hint with
          | none => .inl (.error (-32000) "pending sender hint is not a valid address")
          | some caller =>
            let blockNumber := state.currentHeight.saturatingAdd 1
            .inr (⟨caller, decoded, true, blockNumber, blockTs state blockNumber⟩, state)

/-- The rest of `eth_sendRawTransaction` after the transaction has run. -/
def recordTransaction (state : NodeState R.Db) (rawTx : String) (c : EvmCall) (outcome : EvmExecOutcome) :
    Response × NodeState R.Db :=
  let callerStr := state.pendingNonceAddressHint.getD ""
  let decoded := c.decoded
  let txHash := bytesToHex (D.keccak256 ((D.parseHexBytes rawTx).getD [])).toList
  let addressToHex (a : Address) := bytesToHex a.toList
  let tx : TxRecord :=
    { hash := txHash
      «from» := callerStr
      «to» := decoded.«to».map addressToHex
      nonce := decoded.nonce
      gas := decoded.gasLimit
      gasPrice := decoded.gasPrice
      maxPriorityFeePerGas := decoded.maxPriorityFeePerGas
      maxFeePerBlobGas := decoded.maxFeePerBlobGas
      blobVersionedHashes := decoded.blobHashes.map fun h => bytesToHex h.toList
      authorizationListLen := decoded.authorizations.length
      value := hexNat decoded.value.toNat
      input := bytesToHex decoded.data
      txType := hexNat decoded.txType.toNat
      contractAddress := outcome.contractAddress.map addressToHex
      blockNumber := none
      blockHash := none
      transactionIndex := none }
  let receipt : TxReceiptRecord :=
    { txHash := txHash
      «from» := callerStr
      «to» := tx.«to»
      contractAddress := tx.contractAddress
      gasUsed := outcome.gasUsed
      cumulativeGasUsed := outcome.gasUsed
      effectiveGasPrice := UInt64.ofNat (min decoded.gasPrice.toNat UInt64.maxNat)
      txType := tx.txType
      status := outcome.status
      logsBloom := bytesToHex (R.logsBloom outcome.logs).toList
      blockNumber := none
      blockHash := none
      transactionIndex := none
      logs := outcome.logs.map fun log =>
        { address := addressToHex log.address
          topics := log.topics.map fun t => bytesToHex t.toList
          data := bytesToHex log.data.1
          blockNumber := none
          blockHash := none
          transactionHash := some txHash
          transactionIndex := none
          logIndex := none } }
  (.result (.string txHash),
    { state with
      pendingNonceAddressHint := none
      txCounter := state.txCounter.saturatingAdd 1
      nonceByAddress := AList.insert callerStr (decoded.nonce.saturatingAdd 1) state.nonceByAddress
      pendingTxs := state.pendingTxs ++ [txHash]
      txs := AList.insert txHash tx state.txs
      txReceipts := AList.insert txHash receipt state.txReceipts })

def answer (state : NodeState R.Db) (params : Json) (c : EvmCall) (outcome : EvmExecOutcome) :
    EvmMethod → Response × NodeState R.Db
  | .ethEstimateGas => (.result (.string (hexNat (max outcome.gasUsed 21000).toNat)), state)
  | .ethCall => (.result (.string (bytesToHex outcome.output)), state)
  | .ethSendRawTransaction =>
    recordTransaction R D state (((params.param 0).bind Json.asStr).getD "0x") c outcome

def answerError (err : String) : EvmMethod → Response
  | .ethEstimateGas => .error (-32000) ("estimation failed: " ++ err)
  | .ethCall => .error (-32000) ("eth_call failed: " ++ err)
  | .ethSendRawTransaction => .error (-32000) ("transaction rejected: " ++ err)

def handleJsonrpc (state : NodeState R.Db) (method : EvmMethod) (params : Json) : Response × NodeState R.Db :=
  match prepare R D state params method with
  | .inl response => (response, state)
  | .inr (c, prepared) =>
    match executeEvmTransaction R prepared c with
    | (.error err, state) => (answerError err method, state)
    | (.ok outcome, state) => answer R D state params c outcome method

end Evm

end Eth2077
