import Eth2077.Execution.BlockBuilder
import Eth2077.Types.HeaderCodec

/-!
# Executing transactions (`execution/src/executor.rs`)

The executor around revm. revm is a parameter; at the end stand a plain call and the block of it.
-/

namespace Eth2077

namespace BlockExecutor

/-- What revm may ask of the state. -/
structure RevmDatabase where
  basic : Address → Option AccountInfo
  codeByHash : B256 → Bytes
  storage : Address → U256 → U256
  blockHash : UInt64 → B256

inductive TxKind where
  | call (address : Address)
  | create
deriving DecidableEq

structure TxEnv where
  caller : Address
  gasLimit : UInt64
  maxFeePerGas : BitVec 128
  gasPriorityFee : Option (BitVec 128)
  kind : TxKind
  value : U256
  data : Bytes
  nonce : UInt64
  chainId : Option UInt64

inductive ExecutionResult where
  | success (gasUsed : UInt64) (logs : List Log)
  | revert (gasUsed : UInt64)
  | halt (reason : String) (gasUsed : UInt64)

namespace ExecutionResult

def isSuccess : ExecutionResult → Bool
  | success .. => true
  | _ => false

def gasUsed : ExecutionResult → UInt64
  | success gasUsed _ | revert gasUsed | halt _ gasUsed => gasUsed

def logs : ExecutionResult → List Log
  | success _ logs => logs
  | _ => []

end ExecutionResult

structure EvmStorageSlot where
  originalValue : U256
  presentValue : U256

structure Account where
  info : AccountInfo
  storage : List (U256 × EvmStorageSlot)
  isSelfdestructed : Bool
  isCreated : Bool

/-- What is used of revm. `transact` returns the accounts it touched in the order in which its map
yields them, and `keys` is the order in which `code_by_hash` goes through the accounts. -/
structure Evm where
  keys : IterOrder Address
  build : TxEnv → Except String TxEnv
  transact : RevmDatabase → TxEnv → Except String (ExecutionResult × List (Address × Account))
  logsBloom : List Log → Bloom

variable (evm : Evm)

def codeByHash (state : InMemoryStateDB) (codeHash : B256) : Bytes :=
  ((evm.keys.order state.accounts.keys).findSome? fun address =>
    let account := state.getAccount address
    if account.codeHash = codeHash then account.code else none).getD Bytes.default

def database (state : InMemoryStateDB) : RevmDatabase where
  basic address := if state.accountExists address then some (state.getAccount address) else none
  codeByHash := codeByHash evm state
  storage := state.getStorage
  blockHash := state.getBlockHash

def applyAccountChange (state : InMemoryStateDB) (change : Address × Account) : InMemoryStateDB :=
  let (address, account) := change
  if account.isSelfdestructed then state.removeAccount address
  else
    let state := state.insertAccount address account.info
    let state := if account.isCreated then state.clearStorage address else state
    (account.storage.filter fun x => x.2.originalValue ≠ x.2.presentValue).foldl
      (fun state x => state.setStorage address x.1 x.2.presentValue) state

def applyStateChanges (state : InMemoryStateDB) (changes : List (Address × Account)) : InMemoryStateDB :=
  changes.foldl applyAccountChange state

def txEnv (tx : Transaction) : TxEnv where
  caller := tx.from
  gasLimit := tx.gasLimit
  maxFeePerGas := BitVec.ofNat 128 tx.maxFeePerGas.toNat
  gasPriorityFee := some (BitVec.ofNat 128 tx.maxPriorityFeePerGas.toNat)
  kind := match tx.to with
    | some address => .call address
    | none => .create
  value := tx.value
  data := tx.input
  nonce := tx.nonce
  chainId := some tx.chainId

def executeTx : ExecuteTx := fun state tx => do
  if tx.maxFeePerGas < tx.maxPriorityFeePerGas then
    throw (.invalidTransaction "max_priority_fee_per_gas exceeds max_fee_per_gas")
  if tx.gasLimit = 0 then
    throw (.invalidTransaction "gas_limit must be greater than zero")
  let env ← (evm.build (txEnv tx)).mapError .invalidTransaction
  let (result, changes) ← (evm.transact (database evm state) env).mapError .evmError
  if let .halt reason _ := result then
    throw (.evmError s!"transaction halted: {reason}")
  return ({ txHash := tx.hash
            status := result.isSuccess
            cumulativeGasUsed := result.gasUsed
            logsBloom := evm.logsBloom result.logs
            logs := result.logs },
    applyStateChanges state changes)

end BlockExecutor

/-! ### One call -/

namespace BlockValidator

def keccakEmpty : B256 := .ofNat 32 0xc5d2460186f7233c927e7db2dcc703c0e500b653ca82273b7bfad8045d85a470

/-- An account as revm leaves it once its code was asked for. -/
def loaded (account : Option AccountInfo) : AccountInfo :=
  let info := account.getD ⟨0, 0, keccakEmpty, none⟩
  { info with code := some (info.code.getD Bytes.default) }

/-- revm on a call without value or fee between accounts without code. -/
def plainCall : BlockExecutor.Evm where
  keys := .stored
  build := .ok
  transact db env :=
    match env.kind with
    | .create => .error "not a call"
    | .call address =>
      let caller := loaded (db.basic env.caller)
      .ok (.success 21000 [],
        [(env.caller, ⟨{ caller with nonce := caller.nonce + 1 }, [], false, false⟩),
          (address, ⟨loaded (db.basic address), [], false, false⟩)])
  logsBloom _ := FixedBytes.zero

/-- A contract that reads a slot of its storage. -/
def slotReader : AccountInfo where
  balance := 0
  nonce := 1
  codeHash := .ofNat 32 0x2d794fa12acf19644b4db0c2d50dcf9a54d41ebe5fa17efc4b2809837bdc21ac
  code := some ⟨[0x60, 0x00, 0x54, 0x00], by decide⟩

/-- A caller and the beneficiary, which it calls, an account that takes no part and a contract. -/
def callState : InMemoryStateDB :=
  (((InMemoryStateDB.new.insertAccount (.repeatByte 1) ⟨5, 0, keccakEmpty, none⟩).insertAccount .zero
    ⟨1, 0, keccakEmpty, some Bytes.default⟩).insertAccount (.repeatByte 3)
    ⟨7, 0, keccakEmpty, none⟩).insertAccount (.repeatByte 4) slotReader

def callTx : Transaction where
  hash := .repeatByte 7
  nonce := 0
  «from» := .repeatByte 1
  «to» := some .zero
  value := 0
  gasLimit := 21000
  maxFeePerGas := 0
  maxPriorityFeePerGas := 0
  input := Bytes.default
  chainId := 1
  signatureR := 0
  signatureS := 0
  signatureV := 0

def callExecution : Execution :=
  (Execution.start callState).push ⟨.repeatByte 7, true, 21000, .zero, []⟩
    ((callState.insertAccount (.repeatByte 1) ⟨5, 1, keccakEmpty, some Bytes.default⟩).insertAccount .zero
      ⟨1, 0, keccakEmpty, some Bytes.default⟩)

theorem loop_callTx (r : U256) :
    Execution.loop ValidationError.transactionExecutionFailed (BlockExecutor.executeTx plainCall) 0
      [{ callTx with signatureR := r }] (.start callState) = .ok callExecution := by
  rfl

/-- The header a builder makes for the call. -/
def callHeader (keccak256 : List UInt8 → B256) : Header :=
  (BlockBuilder.assemble keccak256 ⟨.zero, none, none⟩ .genesis [callTx] callExecution).header

theorem callHeader_stateRoot (keccak256 : List UInt8 → B256) :
    (callHeader keccak256).stateRoot = computeStateRoot keccak256 callExecution.state := rfl

theorem validateBlock_callTx (keccak256 : List UInt8 → B256) (r : U256) :
    validateBlock keccak256 (BlockExecutor.executeTx plainCall)
      ⟨callHeader keccak256, [{ callTx with signatureR := r }], []⟩ callState = .ok () := by
  refine validateBlock_eq_ok.mpr ⟨callExecution, loop_callTx r, ?_⟩
  exact (check_eq_ok ⟨.zero, none, none⟩ .genesis).mpr ⟨rfl, rfl, rfl, rfl, rfl⟩

/-- The digests of the four byte strings hashed for the call. -/
def callDigest (bs : List UInt8) : B256 :=
  if bs.length = 408 then .ofNat 32 0x6f4aa4d442a170740d1587f675ac7fcf070f13b8464dfde5d740cc6607a034c6
  else if bs.length = 305 then .ofNat 32 0xb155e5e999763f2dce27d661037a886813afcea9fd5bbdf92ce64209bd4e6892
  else if bs.getLast? = some 7 then .ofNat 32 0x342537c4dffa3b03f89f9dd537a0015dc1dbbcc92fb7ca46ba98b6aa3045afc9
  else .ofNat 32 0xc205efbd1fc63a7ebb4dbf0eda5b521d8d08049cb434378e551655408149caa1

end BlockValidator

end Eth2077
