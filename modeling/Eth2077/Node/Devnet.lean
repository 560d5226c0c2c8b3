import Eth2077.Oob.Finality
import Eth2077.Execution.BlockBuilder

/-!
# The devnet node (`node/src/bin/devnet.rs`)

The main loop of the devnet binary around one engine: ticks of the block timer, blocks and consensus
messages from peers, and `process_consensus_events`, one pop at a time. A tick or a peer event is
taken only when no event is left to process.
-/

namespace Eth2077
open ConsensusEngine

/-! ### The RPC state (`bridge/src/eth_rpc.rs`) -/

structure EthRpcState where
  blocks : List Block
  receipts : HashMap B256 Receipt
  stateDb : InMemoryStateDB
  pendingTxs : List Transaction
  chainId : UInt64

namespace EthRpcState

def new (chainId : UInt64) (genesisBlock : Block) (genesisState : InMemoryStateDB) : EthRpcState where
  blocks := [genesisBlock]
  receipts := ∅
  stateDb := genesisState
  pendingTxs := []
  chainId := chainId

def appendBlock (s : EthRpcState) (block : Block) (receipts : List Receipt) (newState : InMemoryStateDB) :
    EthRpcState :=
  { s with
    receipts := receipts.foldl (fun m receipt => AList.insert receipt.txHash receipt m) s.receipts
    blocks := s.blocks ++ [block]
    stateDb := newState }

def latestBlock (s : EthRpcState) : Option Block := s.blocks.getLast?

def latestBlockNumber (s : EthRpcState) : UInt64 := (s.latestBlock.map Block.number).getD 0

def takePendingTxs (s : EthRpcState) : List Transaction × EthRpcState := (s.pendingTxs, { s with pendingTxs := [] })

def getBlockByNumber (s : EthRpcState) (num : UInt64) : Option Block :=
  s.blocks.find? fun block => block.number == num

end EthRpcState

/-! ### The genesis block (`execution/src/genesis.rs`) -/

def createGenesisBlock (keccak256 : List UInt8 → B256) (allocs : List (Address × U256)) : Block × InMemoryStateDB :=
  let state := allocs.foldl (fun (db : InMemoryStateDB) alloc =>
    db.insertAccount alloc.1 ⟨alloc.2, 0, FixedBytes.zero, none⟩) .new
  let block : Block :=
    { header :=
        { parentHash := FixedBytes.zero
          ommersHash := emptyOmmersHash keccak256
          beneficiary := FixedBytes.zero
          stateRoot := computeStateRoot keccak256 state
          transactionsRoot := computeTransactionsRoot keccak256 []
          receiptsRoot := computeReceiptsRoot keccak256 []
          logsBloom := FixedBytes.zero
          difficulty := 0
          number := 0
          gasLimit := 30000000
          gasUsed := 0
          timestamp := 0
          extraData := Bytes.default
          mixHash := FixedBytes.zero
          nonce := 0
          baseFeePerGas := some 1000000000
          blobGasUsed := some 0
          excessBlobGas := some 0
          parentBeaconBlockRoot := none }
      transactions := []
      ommers := [] }
  (block, state.insertBlockHash 0 (block.hash keccak256))

/-! ### The node -/

/-- What a node is started with. The binary fixes two allocations and leaves `keccak256` and the
executor to its libraries; here all three are parameters. -/
structure DevnetConfig where
  peerId : UInt64
  chainId : UInt64
  allocs : List (Address × U256)
  keccak256 : List UInt8 → B256
  execute : ExecuteTx

structure DevNode where
  consensus : ConsensusEngine
  rpcState : EthRpcState
  proposedBlocks : HashMap B256 BuiltBlock
  executionState : InMemoryStateDB
  events : List ConsensusEvent

inductive DevLabel where
  | tick
  | blockReceived (block : Block)
  | messageReceived (ord : TallyOrder) (msg : ConsensusMessage)
  | process (ord : TallyOrder)

namespace DevNode

variable (cfg : DevnetConfig) (s : DevNode)

def start : DevNode :=
  let (genesisBlock, genesisState) := createGenesisBlock cfg.keccak256 cfg.allocs
  let engine := ConsensusEngine.new (devnetValidatorSet cfg.peerId) devnetFastPathConfig
  let (consensus, events) := engine.startHeight (genesisBlock.number.saturatingAdd 1)
  { consensus := consensus
    rpcState := .new cfg.chainId genesisBlock genesisState
    proposedBlocks := ∅
    executionState := genesisState
    events := events }

def deliver (ord : TallyOrder) (msg : ConsensusMessage) : DevNode :=
  { s with
    consensus := (s.consensus.onMessage ord msg).1
    events := s.events ++ (s.consensus.onMessage ord msg).2 }

def propose (parent : Block) : DevNode :=
  let (pendingTxs, rpcState) := s.rpcState.takePendingTxs
  let config : BlockBuilderConfig := ⟨FixedBytes.zero, none, some parent.header.gasLimit⟩
  match BlockBuilder.buildBlock cfg.keccak256 cfg.execute config parent.header pendingTxs s.executionState with
  | .error _ => { s with rpcState := rpcState }
  | .ok built =>
    let blockHash := built.block.hash cfg.keccak256
    let proposal := ConsensusMessage.proposal s.consensus.currentHeight s.consensus.currentRound blockHash cfg.peerId
    { s with
      rpcState := rpcState
      proposedBlocks := AList.insert blockHash built s.proposedBlocks }.deliver .stored proposal

def tick : DevNode :=
  let leader := s.consensus.validatorSet.leaderForRound s.consensus.currentHeight s.consensus.currentRound
  if leader ≠ cfg.peerId then s
  else
    match s.rpcState.latestBlock with
    | none => s
    | some parent => s.propose cfg parent

/-- `P2pEvent::BlockReceived`: the block is appended as it comes. -/
def receiveBlock (block : Block) : DevNode :=
  let executionState := s.executionState.insertBlockHash block.number (block.hash cfg.keccak256)
  { s with
    executionState := executionState
    rpcState := s.rpcState.appendBlock block [] executionState }

/-- The `BlockFinalized` arm: append the proposal if it is in the cache, and start the next height. -/
def finalize (height : UInt64) (blockHash : B256) : DevNode :=
  let s := match s.proposedBlocks.lookup blockHash with
    | some built =>
      { s with
        proposedBlocks := s.proposedBlocks.erase blockHash
        executionState := built.state
        rpcState := s.rpcState.appendBlock built.block built.receipts built.state }
    | none => s
  let (consensus, next) := s.consensus.startHeight (height.saturatingAdd 1)
  { s with consensus := consensus, events := s.events ++ next }

/-- One round of the loop of `process_consensus_events`. -/
def processEvent (ord : TallyOrder) (event : ConsensusEvent) : DevNode :=
  let s := { s with events := s.events.dropLast }
  match event with
  | .needProposal _ _ _ => s
  | .roundTimeout _ _ => s
  | .sendPrevote height round blockHash => s.deliver ord (.prevote height round blockHash cfg.peerId)
  | .sendPrecommit height round blockHash => s.deliver ord (.precommit height round blockHash cfg.peerId)
  | .blockFinalized height blockHash _ => s.finalize height blockHash

def step? : DevLabel → Option DevNode
  | .tick => if s.events = [] then some (s.tick cfg) else none
  | .blockReceived block => if s.events = [] then some (s.receiveBlock cfg block) else none
  | .messageReceived ord msg => if s.events = [] then some (s.deliver ord msg) else none
  | .process ord => s.events.getLast?.map fun event => s.processEvent cfg ord event

end DevNode

end Eth2077
