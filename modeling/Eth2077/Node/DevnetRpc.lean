import Eth2077.Node.DevnetChain
import Eth2077.Node.Parse
import Eth2077.Lib.Runs

/-!
# The JSON-RPC of the devnet node (`bridge/src/eth_rpc.rs`)

What the seven methods answer, and what becomes of the answers while the node runs. Nothing ever puts a
transaction into `pending_txs`: there is no method that takes one, and the node drops those of its peers. So
the node executes nothing, whatever its peers send.
-/

namespace Eth2077

/-- `ErrorObjectOwned`; every error of the module has code -32602. -/
structure ErrorObject where
  code : Int
  message : String
deriving DecidableEq

/-- The parameters of a call as `jsonrpsee` parses them; the block tag of the two account methods is not read. -/
inductive EthRequest where
  | chainId
  | blockNumber
  | getBalance (address : String) (blockTag : Option String)
  | getBlockByNumber (blockTag : String) (fullTxs : Bool)
  | getTransactionReceipt (txHash : String)
  | getTransactionCount (address : String) (blockTag : Option String)
  | gasPrice

/-- The `FromStr` of the two byte strings. -/
structure HexParsers where
  address : String → Option Address
  hash : String → Option B256

/-- Two digits for each byte, behind `0x` or alone. -/
def hexFromStr (n : ℕ) (text : String) : Option (FixedBytes n) :=
  let digits := strip0x text.toList
  if h : digits.length = 2 * n ∧ digits.all isAsciiHexdigit = true then
    some ⟨hexDecode digits, by rw [length_hexDecode, h.1, Nat.mul_div_cancel_left n (by decide)]⟩
  else none

def hexParsers : HexParsers := ⟨hexFromStr 20, hexFromStr 32⟩

namespace EthRpc

def invalidParams (message : String) : ErrorObject := ⟨-32602, message⟩

def parseAddress (P : HexParsers) (value : String) : Except ErrorObject Address :=
  match P.address value with
  | some address => .ok address
  | none => .error (invalidParams ("invalid address: " ++ value))

def parseBlockTag (tag : String) (latest : Option UInt64) : Except ErrorObject (Option UInt64) :=
  if tag = "latest" then .ok latest
  else match tag.toList with
    | '0' :: 'x' :: raw =>
      if raw = [] then .error (invalidParams "invalid hex block number")
      else match fromStrRadix 16 64 raw with
        | some n => .ok (some (UInt64.ofNat n))
        | none => .error (invalidParams ("invalid block number: " ++ tag))
    | _ => .error (invalidParams ("unsupported block tag: " ++ tag))

/-- `format!("{:#x}", bytes)`. -/
def hexBytes (bs : List UInt8) : Json := .string (bytesToHex bs)

def logToJson (log : Log) : Json :=
  .object [("address", hexBytes log.address.toList),
    ("topics", .array (log.topics.map fun topic => hexBytes topic.toList)),
    ("data", hexBytes log.data.1)]

def receiptToJson (receipt : Receipt) : Json :=
  .object [("transactionHash", hexBytes receipt.txHash.toList),
    ("status", .string (if receipt.status then "0x1" else "0x0")),
    ("cumulativeGasUsed", hexU64 receipt.cumulativeGasUsed),
    ("logsBloom", hexBytes receipt.logsBloom.toList),
    ("logs", .array (receipt.logs.map logToJson))]

def txToJson (tx : Transaction) : Json :=
  .object [("hash", hexBytes tx.hash.toList),
    ("nonce", hexU64 tx.nonce),
    ("from", hexBytes tx.from.toList),
    ("to", Json.ofOption (fun addr : Address => hexBytes addr.toList) tx.to),
    ("value", .string (hexNat tx.value.toNat)),
    ("gas", hexU64 tx.gasLimit),
    ("maxFeePerGas", hexU64 tx.maxFeePerGas),
    ("maxPriorityFeePerGas", hexU64 tx.maxPriorityFeePerGas),
    ("input", hexBytes tx.input.1)]

def blockToJson (keccak256 : List UInt8 → B256) (block : Block) (fullTxs : Bool) : Json :=
  let transactions := if fullTxs then block.transactions.map txToJson
    else block.transactions.map fun tx => hexBytes tx.hash.toList
  .object [("number", hexU64 block.header.number),
    ("hash", hexBytes (block.hash keccak256).toList),
    ("parentHash", hexBytes block.header.parentHash.toList),
    ("timestamp", hexU64 block.header.timestamp),
    ("gasLimit", hexU64 block.header.gasLimit),
    ("gasUsed", hexU64 block.header.gasUsed),
    ("miner", hexBytes block.header.beneficiary.toList),
    ("baseFeePerGas", Json.ofOption hexU64 block.header.baseFeePerGas),
    ("transactions", .array transactions)]

/-- The methods of `build_eth_rpc_module`. -/
def answer (P : HexParsers) (keccak256 : List UInt8 → B256) (s : EthRpcState) : EthRequest → Except ErrorObject Json
  | .chainId => .ok (hexU64 s.chainId)
  | .blockNumber => .ok (hexU64 s.latestBlockNumber)
  | .getBalance address _ => do
    let address ← parseAddress P address
    return .string (hexNat (s.stateDb.getAccount address).balance.toNat)
  | .getBlockByNumber blockTag fullTxs => do
    let number ← parseBlockTag blockTag (s.latestBlock.map Block.number)
    return Json.ofOption (fun block => blockToJson keccak256 block fullTxs) (number.bind s.getBlockByNumber)
  | .getTransactionReceipt txHash =>
    match P.hash txHash with
    | some hash => .ok (Json.ofOption receiptToJson (s.receipts.lookup hash))
    | none => .error (invalidParams ("invalid tx hash: " ++ txHash))
  | .getTransactionCount address _ => do
    let address ← parseAddress P address
    return hexU64 (s.stateDb.getAccount address).nonce
  | .gasPrice => .ok (hexU64 ((s.latestBlock.bind fun block => block.header.baseFeePerGas).getD 0))

end EthRpc

namespace DevNode
open ConsensusEngine

variable {cfg : DevnetConfig} {s s' : DevNode}

/-! ### Nothing is executed -/

/-- An empty block on the accounts of the genesis state. -/
structure Empty (cfg : DevnetConfig) (block : Block) : Prop where
  transactions : block.transactions = []
  stateRoot : block.header.stateRoot = (createGenesisBlock cfg.keccak256 cfg.allocs).1.header.stateRoot
  receiptsRoot : block.header.receiptsRoot = computeReceiptsRoot cfg.keccak256 []
  gasUsed : block.header.gasUsed = 0

/-- The accounts are the ones the node started with. -/
def AtGenesis (cfg : DevnetConfig) (db : InMemoryStateDB) : Prop :=
  db.accounts = (createGenesisBlock cfg.keccak256 cfg.allocs).2.accounts

/-- Between any two steps; `got` are the blocks that peers have sent. -/
structure Unexecuted (cfg : DevnetConfig) (got : Block → Prop) (s : DevNode) : Prop where
  chainId : s.rpcState.chainId = cfg.chainId
  pendingTxs : s.rpcState.pendingTxs = []
  receipts : s.rpcState.receipts = ∅
  stateDb : AtGenesis cfg s.rpcState.stateDb
  executionState : AtGenesis cfg s.executionState
  proposed : ∀ h built, s.proposedBlocks.lookup h = some built →
    Empty cfg built.block ∧ built.receipts = [] ∧ AtGenesis cfg built.state
  blocks : ∀ block ∈ s.rpcState.blocks, Empty cfg block ∨ got block

variable {got got' : Block → Prop}

theorem computeStateRoot_congr {keccak256 : List UInt8 → B256} {db db' : InMemoryStateDB}
    (h : db.accounts = db'.accounts) : computeStateRoot keccak256 db = computeStateRoot keccak256 db' := by
  unfold computeStateRoot statePayload sortedAddresses InMemoryStateDB.getAccount
  rw [h]

theorem AtGenesis.stateRoot {db : InMemoryStateDB} (h : AtGenesis cfg db) : computeStateRoot cfg.keccak256 db =
    (createGenesisBlock cfg.keccak256 cfg.allocs).1.header.stateRoot :=
  computeStateRoot_congr h

theorem empty_genesis (cfg : DevnetConfig) : Empty cfg (createGenesisBlock cfg.keccak256 cfg.allocs).1 :=
  ⟨rfl, rfl, rfl, rfl⟩

theorem unexecuted_start (cfg : DevnetConfig) : Unexecuted cfg got (start cfg) where
  chainId := rfl
  pendingTxs := rfl
  receipts := rfl
  stateDb := rfl
  executionState := rfl
  proposed h built hb := by
    rw [show (start cfg).proposedBlocks = ∅ from rfl, AList.lookup_empty] at hb
    cases hb
  blocks block hblock := by
    rw [List.mem_singleton.mp hblock]
    exact .inl (empty_genesis cfg)

theorem Unexecuted.mono (h : Unexecuted cfg got s) (hgot : ∀ block, got block → got' block) :
    Unexecuted cfg got' s :=
  { h with blocks := fun block hblock => (h.blocks block hblock).imp_right (hgot block) }

theorem Unexecuted.deliver (h : Unexecuted cfg got s) (ord : TallyOrder) (msg : ConsensusMessage) :
    Unexecuted cfg got (s.deliver ord msg) :=
  { h with }

/-- The queue of transactions is empty, so that the builder has nothing to run. -/
theorem Unexecuted.propose (h : Unexecuted cfg got s) (parent : Block) : Unexecuted cfg got (s.propose cfg parent) := by
  have hnil : s.rpcState.takePendingTxs.1 = [] := h.pendingTxs
  have htaken : Unexecuted cfg got { s with rpcState := s.rpcState.takePendingTxs.2 } := { h with pendingTxs := rfl }
  unfold DevNode.propose
  simp only [hnil]
  cases hbuild : BlockBuilder.buildBlock cfg.keccak256 cfg.execute ⟨FixedBytes.zero, none, some parent.header.gasLimit⟩
      parent.header [] s.executionState with
  | error err => exact htaken
  | ok built =>
    refine Unexecuted.deliver (s := { s with
      rpcState := s.rpcState.takePendingTxs.2
      proposedBlocks := AList.insert (built.block.hash cfg.keccak256) built s.proposedBlocks })
      { htaken with proposed := fun k b hb => ?_ } _ _
    obtain ⟨ex, hloop, rfl⟩ := BlockBuilder.buildBlock_eq_ok.mp hbuild
    cases hloop
    by_cases hk : k = (BlockBuilder.finish cfg.keccak256 ⟨FixedBytes.zero, none, some parent.header.gasLimit⟩
        parent.header [] (.start s.executionState)).block.hash cfg.keccak256
    · subst hk
      rw [AList.lookup_insert] at hb
      cases hb
      exact ⟨⟨rfl, h.executionState.stateRoot, rfl, rfl⟩, rfl, h.executionState⟩
    · rw [AList.lookup_insert_ne hk] at hb
      exact h.proposed k b hb

theorem Unexecuted.tick (h : Unexecuted cfg got s) : Unexecuted cfg got (s.tick cfg) := by
  simp only [DevNode.tick]
  split
  · exact h
  · split
    · exact h
    · exact h.propose _

theorem Unexecuted.receiveBlock (h : Unexecuted cfg got s) {block : Block} (hgot : got block) :
    Unexecuted cfg got (s.receiveBlock cfg block) :=
  { h with
    stateDb := h.executionState
    executionState := h.executionState
    blocks := fun b hb => by
      rcases List.mem_append.mp hb with hb | hb
      · exact h.blocks b hb
      · rw [List.mem_singleton.mp hb]
        exact .inr hgot }

theorem Unexecuted.finalize (h : Unexecuted cfg got s) (height : UInt64) (blockHash : B256) :
    Unexecuted cfg got (s.finalize height blockHash) := by
  simp only [DevNode.finalize]
  cases hb : s.proposedBlocks.lookup blockHash with
  | none => exact { h with }
  | some built =>
    obtain ⟨hempty, hnil, hstate⟩ := h.proposed blockHash built hb
    refine { h with receipts := ?_, stateDb := hstate, executionState := hstate, proposed := ?_, blocks := ?_ }
    · show built.receipts.foldl _ s.rpcState.receipts = ∅
      rw [hnil]
      exact h.receipts
    · intro k b hk
      by_cases heq : k = blockHash
      · subst heq
        rw [AList.lookup_erase] at hk
        cases hk
      · rw [AList.lookup_erase_ne heq] at hk
        exact h.proposed k b hk
    · intro b hmem
      rcases List.mem_append.mp hmem with hmem | hmem
      · exact h.blocks b hmem
      · rw [List.mem_singleton.mp hmem]
        exact .inl hempty

theorem Unexecuted.step (h : Unexecuted cfg got s) {l : DevLabel} (hl : ∀ block, l = .blockReceived block → got block)
    (hstep : s.step? cfg l = some s') : Unexecuted cfg got s' := by
  cases l with
  | tick =>
    simp only [step?] at hstep
    split_ifs at hstep
    cases hstep
    exact h.tick
  | blockReceived block =>
    simp only [step?] at hstep
    split_ifs at hstep
    cases hstep
    exact h.receiveBlock (hl block rfl)
  | messageReceived ord msg =>
    simp only [step?] at hstep
    split_ifs at hstep
    cases hstep
    exact h.deliver ord msg
  | process ord =>
    obtain ⟨event, -, rfl⟩ := Option.map_eq_some_iff.mp hstep
    have hpop : Unexecuted cfg got { s with events := s.events.dropLast } := { h with }
    cases event with
    | needProposal height round leader => exact hpop
    | roundTimeout height round => exact hpop
    | sendPrevote height round blockHash => exact hpop.deliver ..
    | sendPrecommit height round blockHash => exact hpop.deliver ..
    | blockFinalized height blockHash round => exact hpop.finalize ..

theorem unexecuted_of_run {ls : List DevLabel} (h : Run.exec (fun s l => s.step? cfg l) (start cfg) ls = some s) :
    Unexecuted cfg (fun block => .blockReceived block ∈ ls) s := by
  induction ls using List.reverseRecOn generalizing s with
  | nil =>
    cases h
    exact unexecuted_start cfg
  | append_singleton ls l ih =>
    obtain ⟨m, hm, hstep⟩ := Run.exec_concat.mp h
    refine ((ih hm).mono fun block hblock => ?_).step (fun block hblock => ?_) hstep
    · exact List.mem_append_left _ hblock
    · rw [hblock]
      exact List.mem_concat_self

/-- The requests whose answer depends on what was executed, and on nothing else. -/
def EthRequest.AboutAccounts : EthRequest → Prop
  | .chainId | .getBalance _ _ | .getTransactionCount _ _ | .getTransactionReceipt _ => True
  | _ => False

theorem Unexecuted.answer (h : Unexecuted cfg got s) (P : HexParsers) {req : EthRequest}
    (hreq : EthRequest.AboutAccounts req) :
    EthRpc.answer P cfg.keccak256 s.rpcState req = EthRpc.answer P cfg.keccak256 (start cfg).rpcState req := by
  have haccount : ∀ address,
      s.rpcState.stateDb.getAccount address = (start cfg).rpcState.stateDb.getAccount address := by
    intro address
    have hdb : s.rpcState.stateDb.accounts = (start cfg).rpcState.stateDb.accounts := h.stateDb
    rw [InMemoryStateDB.getAccount, InMemoryStateDB.getAccount, hdb]
  cases req with
  | chainId =>
    show Except.ok (hexU64 s.rpcState.chainId) = _
    rw [h.chainId]
    rfl
  | getBalance address tag => simp only [EthRpc.answer, haccount]
  | getTransactionCount address tag => simp only [EthRpc.answer, haccount]
  | getTransactionReceipt txHash =>
    have hreceipts : s.rpcState.receipts = (start cfg).rpcState.receipts := h.receipts
    simp only [EthRpc.answer, hreceipts]
  | blockNumber => cases hreq
  | getBlockByNumber tag full => cases hreq
  | gasPrice => cases hreq

/-- Whatever a node's peers send, it executes nothing: balances, transaction counts and receipts are answered as on
the first day, and every block that did not come from a peer is empty and carries the genesis state root. -/
theorem devnet_executes_nothing (cfg : DevnetConfig) (P : HexParsers) (s : DevNode) (ls : List DevLabel)
    (hrun : Run.exec (fun s l => s.step? cfg l) (start cfg) ls = some s) :
    (∀ req, EthRequest.AboutAccounts req →
      EthRpc.answer P cfg.keccak256 s.rpcState req = EthRpc.answer P cfg.keccak256 (start cfg).rpcState req) ∧
    ∀ block ∈ s.rpcState.blocks, Empty cfg block ∨ .blockReceived block ∈ ls := by
  have h := unexecuted_of_run hrun
  exact ⟨fun _ hreq => h.answer P hreq, h.blocks⟩

/-! ### Blocks are only added -/

theorem blocks_prefix_step {l : DevLabel} (hstep : s.step? cfg l = some s') :
    s.rpcState.blocks <+: s'.rpcState.blocks := by
  cases l with
  | tick =>
    simp only [step?] at hstep
    split_ifs at hstep
    cases hstep
    simp only [DevNode.tick, DevNode.propose]
    split
    · exact List.prefix_rfl
    · split
      · exact List.prefix_rfl
      · split
        · exact List.prefix_rfl
        · exact List.prefix_rfl
  | blockReceived block =>
    simp only [step?] at hstep
    split_ifs at hstep
    cases hstep
    exact List.prefix_append ..
  | messageReceived ord msg =>
    simp only [step?] at hstep
    split_ifs at hstep
    cases hstep
    exact List.prefix_rfl
  | process ord =>
    obtain ⟨event, -, rfl⟩ := Option.map_eq_some_iff.mp hstep
    cases event with
    | needProposal height round leader => exact List.prefix_rfl
    | roundTimeout height round => exact List.prefix_rfl
    | sendPrevote height round blockHash => exact List.prefix_rfl
    | sendPrecommit height round blockHash => exact List.prefix_rfl
    | blockFinalized height blockHash round =>
      simp only [processEvent, DevNode.finalize]
      cases s.proposedBlocks.lookup blockHash with
      | none => exact List.prefix_rfl
      | some built => exact List.prefix_append ..

theorem blocks_prefix {ls : List DevLabel} (hrun : Run.exec (fun s l => s.step? cfg l) s ls = some s') :
    s.rpcState.blocks <+: s'.rpcState.blocks :=
  Run.invariant (I := fun m : DevNode => s.rpcState.blocks <+: m.rpcState.blocks) List.prefix_rfl
    (fun _ _ _ hm hstep => hm.trans (blocks_prefix_step hstep)) hrun

/-- The block answered for a number is the one answered ever after, even if peers send others with that number. -/
theorem getBlockByNumber_stays {ls : List DevLabel} (hrun : Run.exec (fun s l => s.step? cfg l) s ls = some s')
    {num : UInt64} {block : Block} (h : s.rpcState.getBlockByNumber num = some block) :
    s'.rpcState.getBlockByNumber num = some block := by
  obtain ⟨more, hmore⟩ := blocks_prefix hrun
  rw [EthRpcState.getBlockByNumber, ← hmore, List.find?_append, ← EthRpcState.getBlockByNumber, h, Option.some_or]

/-! ### A run -/

/-- A tick, its block finalised, and then another block with the same number from a peer. -/
theorem devnet_executes_nothing_foreign :
    ∃ s, Run.exec (fun s l => s.step? freshConfig l) (start freshConfig)
        (oneTick ++ [.blockReceived peerBlock]) = some s ∧
      EthRpc.answer hexParsers freshConfig.keccak256 s.rpcState
          (.getBalance "0x1111111111111111111111111111111111111111" none) =
        EthRpc.answer hexParsers freshConfig.keccak256 (start freshConfig).rpcState
          (.getBalance "0x1111111111111111111111111111111111111111" none) := by
  cases hs : Run.exec (fun s l => s.step? freshConfig l) (start freshConfig)
      (oneTick ++ [.blockReceived peerBlock]) with
  | none =>
    have hsome : (Run.exec (fun s l => s.step? freshConfig l) (start freshConfig)
      (oneTick ++ [.blockReceived peerBlock])).isSome = true := by decide +kernel
    rw [hs] at hsome
    cases hsome
  | some s => exact ⟨s, rfl, (devnet_executes_nothing freshConfig hexParsers s _ hs).1 _ (by trivial)⟩

end DevNode
end Eth2077
