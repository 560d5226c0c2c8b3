import Eth2077.Execution.State
import Eth2077.Lib.Saturating

/-!
# Building and validating blocks (`execution/src/block_builder.rs`, `block_validator.rs`)

Both run the transactions of a block one after the other and commit to what comes out. The executor
is a parameter: any function of the state and the transaction. `build_and_validate_agree` says that a
validator accepts exactly the headers that carry the commitments of the builder, and that both stop
at the same transaction.
-/

namespace Eth2077

inductive ExecutionError where
  | evmError (msg : String)
  | invalidTransaction (msg : String)
deriving DecidableEq

/-- `BlockExecutor::execute_tx`: the receipt and the new state. -/
abbrev ExecuteTx := InMemoryStateDB → Transaction → Except ExecutionError (Receipt × InMemoryStateDB)

/-! ### Roots -/

section Roots
variable (keccak256 : List UInt8 → B256)

def computeTransactionsRoot (transactions : List Transaction) : B256 :=
  keccak256 (beBytes 8 transactions.length ++ transactions.flatMap fun tx => tx.hash.toList)

def encodeLog (log : Log) : List UInt8 :=
  log.address.toList ++ beBytes 8 log.topics.length ++ log.topics.flatMap (fun topic => topic.toList) ++
    beBytes 8 log.data.1.length ++ log.data.1

def encodeReceipt (receipt : Receipt) : List UInt8 :=
  receipt.txHash.toList ++ [if receipt.status then 1 else 0] ++ toBeBytes receipt.cumulativeGasUsed ++
    receipt.logsBloom.toList ++ beBytes 8 receipt.logs.length ++ receipt.logs.flatMap encodeLog

def computeReceiptsRoot (receipts : List Receipt) : B256 :=
  keccak256 (beBytes 8 receipts.length ++
    receipts.flatMap fun receipt => (keccak256 (encodeReceipt receipt)).toList)

def emptyOmmersHash : B256 := keccak256 [0xc0]

end Roots

/-! ### The loop over the transactions -/

/-- What the loops of `build_block` and `validate_block` accumulate. -/
structure Execution where
  state : InMemoryStateDB
  receipts : List Receipt
  gasUsed : UInt64
  logsBloom : Bloom

namespace Execution

def start (state : InMemoryStateDB) : Execution := ⟨state, [], 0, FixedBytes.zero⟩

def push (ex : Execution) (receipt : Receipt) (state : InMemoryStateDB) : Execution where
  state := state
  receipts := ex.receipts ++ [receipt]
  gasUsed := ex.gasUsed.saturatingAdd receipt.cumulativeGasUsed
  logsBloom := Bloom.accrueBloom ex.logsBloom receipt.logsBloom

/-- The loop from transaction `index` on; a failure is reported by the error `fail` makes of it. -/
def loop {ε : Type} (fail : Nat → B256 → ExecutionError → ε) (execute : ExecuteTx) :
    Nat → List Transaction → Execution → Except ε Execution
  | _, [], ex => .ok ex
  | index, tx :: txs, ex =>
    match execute ex.state tx with
    | .error source => .error (fail index tx.hash source)
    | .ok (receipt, state) => loop fail execute (index + 1) txs (ex.push receipt state)

end Execution

/-! ### The builder -/

structure BlockBuilderConfig where
  beneficiary : Address
  timestamp : Option UInt64
  gasLimit : Option UInt64

structure BuiltBlock where
  block : Block
  receipts : List Receipt
  state : InMemoryStateDB

inductive BlockBuildError where
  | transactionExecutionFailed (index : Nat) (txHash : B256) (source : ExecutionError)
deriving DecidableEq

namespace BlockBuilder
variable (keccak256 : List UInt8 → B256) (execute : ExecuteTx)

def assemble (config : BlockBuilderConfig) (parent : Header) (txs : List Transaction) (ex : Execution) : Block where
  header :=
    { parentHash := parent.hash keccak256
      ommersHash := emptyOmmersHash keccak256
      beneficiary := config.beneficiary
      stateRoot := computeStateRoot keccak256 ex.state
      transactionsRoot := computeTransactionsRoot keccak256 txs
      receiptsRoot := computeReceiptsRoot keccak256 ex.receipts
      logsBloom := ex.logsBloom
      difficulty := parent.difficulty
      number := parent.number.saturatingAdd 1
      gasLimit := config.gasLimit.getD parent.gasLimit
      gasUsed := ex.gasUsed
      timestamp := config.timestamp.getD (parent.timestamp.saturatingAdd 12)
      extraData := Bytes.default
      mixHash := FixedBytes.zero
      nonce := 0
      baseFeePerGas := parent.baseFeePerGas
      blobGasUsed := none
      excessBlobGas := none
      parentBeaconBlockRoot := none }
  transactions := txs
  ommers := []

/-- The end of `build_block`: the state returned also knows the hash of the new block. -/
def finish (config : BlockBuilderConfig) (parent : Header) (txs : List Transaction) (ex : Execution) : BuiltBlock :=
  let block := assemble keccak256 config parent txs ex
  ⟨block, ex.receipts, ex.state.insertBlockHash block.header.number (block.hash keccak256)⟩

def buildBlock (config : BlockBuilderConfig) (parent : Header) (txs : List Transaction)
    (state : InMemoryStateDB) : Except BlockBuildError BuiltBlock := do
  let ex ← Execution.loop .transactionExecutionFailed execute 0 txs (.start state)
  return finish keccak256 config parent txs ex

end BlockBuilder

/-! ### The validator -/

inductive ValidationError where
  | transactionExecutionFailed (index : Nat) (txHash : B256) (source : ExecutionError)
  | stateRootMismatch (expected actual : B256)
  | transactionsRootMismatch (expected actual : B256)
  | receiptsRootMismatch (expected actual : B256)
  | gasUsedMismatch (expected actual : UInt64)
  | logsBloomMismatch (expected actual : Bloom)
deriving DecidableEq

namespace BlockValidator
variable (keccak256 : List UInt8 → B256) (execute : ExecuteTx)

/-- The checks after the loop, in the order of the source. -/
def check (block : Block) (ex : Execution) : Except ValidationError Unit := do
  let stateRoot := computeStateRoot keccak256 ex.state
  if stateRoot ≠ block.header.stateRoot then
    throw (.stateRootMismatch block.header.stateRoot stateRoot)
  let transactionsRoot := computeTransactionsRoot keccak256 block.transactions
  if transactionsRoot ≠ block.header.transactionsRoot then
    throw (.transactionsRootMismatch block.header.transactionsRoot transactionsRoot)
  let receiptsRoot := computeReceiptsRoot keccak256 ex.receipts
  if receiptsRoot ≠ block.header.receiptsRoot then
    throw (.receiptsRootMismatch block.header.receiptsRoot receiptsRoot)
  if ex.gasUsed ≠ block.header.gasUsed then
    throw (.gasUsedMismatch block.header.gasUsed ex.gasUsed)
  if ex.logsBloom ≠ block.header.logsBloom then
    throw (.logsBloomMismatch block.header.logsBloom ex.logsBloom)

def validateBlock (block : Block) (preState : InMemoryStateDB) : Except ValidationError Unit := do
  let ex ← Execution.loop .transactionExecutionFailed execute 0 block.transactions (.start preState)
  check keccak256 block ex

end BlockValidator

/-! ### They agree -/

/-- The loop does not depend on how failures are reported. -/
theorem Execution.loop_mapError {ε ε' : Type} (fail : Nat → B256 → ExecutionError → ε)
    (fail' : Nat → B256 → ExecutionError → ε') (execute : ExecuteTx) (index : Nat) (txs : List Transaction)
    (ex : Execution) :
    (∃ ex', Execution.loop fail execute index txs ex = .ok ex' ∧ Execution.loop fail' execute index txs ex = .ok ex') ∨
    ∃ i txHash source, Execution.loop fail execute index txs ex = .error (fail i txHash source) ∧
      Execution.loop fail' execute index txs ex = .error (fail' i txHash source) := by
  induction txs generalizing index ex with
  | nil => exact .inl ⟨ex, rfl, rfl⟩
  | cons tx txs ih =>
    unfold Execution.loop
    cases execute ex.state tx with
    | error source => exact .inr ⟨index, tx.hash, source, rfl, rfl⟩
    | ok out => exact ih (index + 1) (ex.push out.1 out.2)

section Agreement
variable {keccak256 : List UInt8 → B256} {execute : ExecuteTx} {config : BlockBuilderConfig} {parent : Header}
  {txs : List Transaction} {block : Block} {state : InMemoryStateDB} {ex : Execution}

theorem BlockBuilder.buildBlock_eq_ok {built : BuiltBlock} :
    BlockBuilder.buildBlock keccak256 execute config parent txs state = .ok built ↔
      ∃ ex, Execution.loop BlockBuildError.transactionExecutionFailed execute 0 txs (.start state) = .ok ex ∧
        BlockBuilder.finish keccak256 config parent txs ex = built := by
  unfold BlockBuilder.buildBlock
  cases Execution.loop BlockBuildError.transactionExecutionFailed execute 0 txs (.start state) with
  | error err => simp [bind, Except.bind]
  | ok ex => simp [bind, Except.bind, pure, Except.pure]

theorem BlockBuilder.buildBlock_eq_error {err : BlockBuildError}
    (h : Execution.loop BlockBuildError.transactionExecutionFailed execute 0 txs (.start state) = .error err) :
    BlockBuilder.buildBlock keccak256 execute config parent txs state = .error err := by
  unfold BlockBuilder.buildBlock
  rw [h]; rfl

theorem BlockValidator.validateBlock_eq_ok :
    BlockValidator.validateBlock keccak256 execute block state = .ok () ↔
      ∃ ex, Execution.loop ValidationError.transactionExecutionFailed execute 0 block.transactions (.start state) = .ok ex ∧
        BlockValidator.check keccak256 block ex = .ok () := by
  unfold BlockValidator.validateBlock
  cases Execution.loop ValidationError.transactionExecutionFailed execute 0 block.transactions (.start state) with
  | error err => simp [bind, Except.bind]
  | ok ex => simp [bind, Except.bind]

theorem BlockValidator.validateBlock_eq_error {err : ValidationError}
    (h : Execution.loop ValidationError.transactionExecutionFailed execute 0 block.transactions (.start state) =
      .error err) : BlockValidator.validateBlock keccak256 execute block state = .error err := by
  unfold BlockValidator.validateBlock
  rw [h]; rfl

def SameCommitments (h h' : Header) : Prop :=
  h.stateRoot = h'.stateRoot ∧ h.transactionsRoot = h'.transactionsRoot ∧ h.receiptsRoot = h'.receiptsRoot ∧
    h.gasUsed = h'.gasUsed ∧ h.logsBloom = h'.logsBloom

theorem BlockValidator.check_eq_ok (config : BlockBuilderConfig) (parent : Header) :
    BlockValidator.check keccak256 block ex = .ok () ↔ SameCommitments block.header
      (BlockBuilder.assemble keccak256 config parent block.transactions ex).header := by
  unfold BlockValidator.check SameCommitments BlockBuilder.assemble
  simp only [bind, Except.bind, throw, throwThe, MonadExceptOf.throw, pure, Except.pure]
  split_ifs with h1 h2 h3 h4 h5
  all_goals simp_all [eq_comm]

/-- The three roots of an accepted header are those of what its transactions lead to. -/
theorem BlockValidator.exists_of_validateBlock {pre : InMemoryStateDB}
    (h : BlockValidator.validateBlock keccak256 execute block pre = .ok ()) :
    ∃ ex, Execution.loop ValidationError.transactionExecutionFailed execute 0 block.transactions (.start pre) = .ok ex ∧
      block.header.stateRoot = computeStateRoot keccak256 ex.state ∧
      block.header.transactionsRoot = computeTransactionsRoot keccak256 block.transactions ∧
      block.header.receiptsRoot = computeReceiptsRoot keccak256 ex.receipts := by
  obtain ⟨ex, hloop, hcheck⟩ := BlockValidator.validateBlock_eq_ok.mp h
  -- any builder would have put the same roots into the header
  obtain ⟨hs, ht, hr, -⟩ := (BlockValidator.check_eq_ok ⟨FixedBytes.zero, none, none⟩ block.header).mp hcheck
  exact ⟨ex, hloop, hs, ht, hr⟩

/-- Builder and validator agree: on what is accepted when the block can be built, and on the
transaction that fails when it cannot. -/
theorem build_and_validate_agree (keccak256 : List UInt8 → B256) (execute : ExecuteTx)
    (config : BlockBuilderConfig) (parent : Header) (txs : List Transaction) (state : InMemoryStateDB) :
    match BlockBuilder.buildBlock keccak256 execute config parent txs state with
    | .ok built =>
      built.block.transactions = txs ∧
      BlockValidator.validateBlock keccak256 execute built.block state = .ok () ∧
      (∀ header ommers, BlockValidator.validateBlock keccak256 execute ⟨header, txs, ommers⟩ state = .ok () ↔
        SameCommitments header built.block.header) ∧
      ∃ post, built.state = post.insertBlockHash built.block.number (built.block.hash keccak256) ∧
        built.block.header.stateRoot = computeStateRoot keccak256 post
    | .error (.transactionExecutionFailed index txHash source) =>
      ∀ header ommers, BlockValidator.validateBlock keccak256 execute ⟨header, txs, ommers⟩ state =
        .error (.transactionExecutionFailed index txHash source) := by
  rcases Execution.loop_mapError BlockBuildError.transactionExecutionFailed
    ValidationError.transactionExecutionFailed execute 0 txs (.start state) with
    ⟨ex, hb, hv⟩ | ⟨i, txHash, source, hb, hv⟩
  · have hbuild : BlockBuilder.buildBlock keccak256 execute config parent txs state =
        .ok (BlockBuilder.finish keccak256 config parent txs ex) :=
      BlockBuilder.buildBlock_eq_ok.mpr ⟨ex, hb, rfl⟩
    have hval : ∀ header ommers,
        BlockValidator.validateBlock keccak256 execute ⟨header, txs, ommers⟩ state = .ok () ↔
          SameCommitments header (BlockBuilder.assemble keccak256 config parent txs ex).header := by
      intro header ommers
      rw [BlockValidator.validateBlock_eq_ok, hv]
      simp only [Except.ok.injEq, exists_eq_left']
      exact BlockValidator.check_eq_ok config parent
    rw [hbuild]
    exact ⟨rfl, (hval _ []).mpr ⟨rfl, rfl, rfl, rfl, rfl⟩, hval, ex.state, rfl, rfl⟩
  · rw [BlockBuilder.buildBlock_eq_error hb]
    intro header ommers
    exact BlockValidator.validateBlock_eq_error hv

end Agreement

end Eth2077
