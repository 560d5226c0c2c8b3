import Eth2077.Node.Devnetd

/-!
# What a failed EVM run leaves behind

`execute_evm_transaction` moves the database out of the node and puts it back only when the
transaction has run, so every failure leaves the empty database in its place. Nothing else is
touched. A failed request therefore changes nothing exactly when there was nothing to lose
(`failed_run_unchanged_iff`).
-/

namespace Eth2077

variable (R : Revm) (D : Decoders)

/-- The default database knows no account and reads every slot as zero. -/
def Revm.EmptyReads : Prop :=
  ∀ a, (R.basic R.empty a).1 = .ok none ∧ ∀ slot, (R.storage R.empty a slot).1 = .ok 0

structure SameReads (db db' : R.Db) : Prop where
  balance : ∀ a, (accountBalanceFromDb R db' a).1 = (accountBalanceFromDb R db a).1
  nonce : ∀ a, (accountNonceFromDb R db' a).1 = (accountNonceFromDb R db a).1
  code : ∀ a, (codeHexFromDb R db' a).1 = (codeHexFromDb R db a).1
  storage : ∀ a slot, (storageFromDb R db' a slot).1 = (storageFromDb R db a slot).1

structure Blank (db : R.Db) : Prop where
  balance : ∀ a, (accountBalanceFromDb R db a).1 = 0
  nonce : ∀ a, (accountNonceFromDb R db a).1 = 0
  code : ∀ a, (codeHexFromDb R db a).1 = "0x"
  storage : ∀ a slot, (storageFromDb R db a slot).1 = 0

structure Unchanged (state state' : NodeState R.Db) : Prop where
  reads : SameReads R state.evmDb state'.evmDb
  pendingTxs : state'.pendingTxs = state.pendingTxs
  txs : state'.txs = state.txs
  txReceipts : state'.txReceipts = state.txReceipts
  nonceByAddress : state'.nonceByAddress = state.nonceByAddress

/-- The request is answered with an error of `execute_evm_transaction`. -/
def FailsInEvm (state : NodeState R.Db) (method : EvmMethod) (params : Json) : Prop :=
  ∃ c prepared err, prepare R D state params method = .inr (c, prepared) ∧
    (executeEvmTransaction R prepared c).1 = .error err

variable {R D} {state prepared : NodeState R.Db} {method : EvmMethod} {params : Json} {c : EvmCall}

theorem blank_empty (hR : R.EmptyReads) : Blank R R.empty where
  balance a := by simp [accountBalanceFromDb, (hR a).1]; rfl
  nonce a := by simp [accountNonceFromDb, (hR a).1]; rfl
  code a := by
    have hb : R.basic R.empty a = (.ok none, (R.basic R.empty a).2) := Prod.ext (hR a).1 rfl
    unfold codeHexFromDb
    rw [hb]
  storage a slot := by simp [storageFromDb, (hR a).2 slot]; rfl

/-- Every early return of `execute_evm_transaction` leaves the node without its database. -/
theorem executeEvmTransaction_error {err : String} (h : (executeEvmTransaction R state c).1 = .error err) :
    (executeEvmTransaction R state c).2 = { state with evmDb := R.empty } := by
  rcases hb : R.basic state.evmDb c.caller with ⟨res, db⟩
  simp only [executeEvmTransaction, hb] at h ⊢
  cases res with
  | error e => rfl
  | ok info =>
    cases hc : c.commit with
    | true =>
      simp only [hc, if_true] at h ⊢
      split at h
      · rfl
      · cases h
    | false =>
      simp only [hc, Bool.false_eq_true, if_false] at h ⊢
      split at h
      · rfl
      · cases h

theorem prepare_frame (h : prepare R D state params method = .inr (c, prepared)) :
    prepared = { state with evmDb := prepared.evmDb } := by
  cases method with
  | ethEstimateGas | ethCall =>
    simp only [prepare] at h
    split at h
    · cases h
    · cases h; rfl
  | ethSendRawTransaction =>
    simp only [prepare] at h
    split at h
    · cases h
    · split_ifs at h
      split at h
      · cases h
      · split at h
        · cases h
        · cases h; rfl

theorem FailsInEvm.handleJsonrpc_eq (h : FailsInEvm R D state method params) :
    (handleJsonrpc R D state method params).2 = { state with evmDb := R.empty } := by
  obtain ⟨c, prepared, err, hprep, hexec⟩ := h
  have hstate := executeEvmTransaction_error hexec
  have hout : executeEvmTransaction R prepared c = (.error err, { prepared with evmDb := R.empty }) :=
    Prod.ext hexec hstate
  unfold handleJsonrpc
  rw [hprep]
  simp only [hout]
  rw [prepare_frame hprep]

/-- A request that fails in the EVM leaves everything as it was if and only if no account held
anything before. -/
theorem failed_run_unchanged_iff (R : Revm) (D : Decoders) (hR : R.EmptyReads) (state : NodeState R.Db)
    (method : EvmMethod) (params : Json) (hfail : FailsInEvm R D state method params) :
    Unchanged R state (handleJsonrpc R D state method params).2 ↔ Blank R state.evmDb := by
  have hempty := blank_empty hR
  rw [hfail.handleJsonrpc_eq]
  constructor
  · intro h
    constructor
    · intro a; rw [← h.reads.balance a]; exact hempty.balance a
    · intro a; rw [← h.reads.nonce a]; exact hempty.nonce a
    · intro a; rw [← h.reads.code a]; exact hempty.code a
    · intro a slot; rw [← h.reads.storage a slot]; exact hempty.storage a slot
  · intro h
    refine ⟨⟨?_, ?_, ?_, ?_⟩, rfl, rfl, rfl, rfl⟩
    · intro a; rw [h.balance a]; exact hempty.balance a
    · intro a; rw [h.nonce a]; exact hempty.nonce a
    · intro a; rw [h.code a]; exact hempty.code a
    · intro a slot; rw [h.storage a slot]; exact hempty.storage a slot

/-! ### A call its sender cannot pay for -/

/-- A database of accounts without storage, and an EVM that does what `revm` does with a call whose
sender cannot pay its value. -/
def accountsOnly : Revm where
  Db := List (Address × EvmAccountInfo)
  empty := []
  defaultInfo := ⟨0, 0, .ofNat 32 0xc5d2460186f7233c927e7db2dcc703c0e500b653ca82273b7bfad8045d85a470, some []⟩
  basic db a := (.ok (db.lookup a), db)
  codeByHash db _ := (.ok [], db)
  storage db _ _ := (.ok 0, db)
  insertAccountInfo db a info := (a, info) :: db
  transact _ db tx :=
    let balance := ((db.lookup tx.caller).map (·.balance)).getD 0
    if balance < tx.value then
      .error ("transaction validation error: lack of funds (" ++ toString balance.toNat ++ ") for max fee (" ++
        toString tx.value.toNat ++ ")")
    else .ok (⟨21000, true, [], none, []⟩, db)
  transactCommit _ db _ := .ok (⟨21000, true, [], none, []⟩, db)
  logsBloom _ := FixedBytes.zero

def poorSender : String := "0x2222222222222222222222222222222222222222"

def requestDecoders : Decoders where
  addressFromHex s := if s = poorSender then some (.repeatByte 0x22) else none
  parseHexBytes _ := none
  parseHexU64 _ := none
  parseHexU128 _ := none
  parseHexU256 s := if s = "0x1" then some 1 else none
  decodeRawTx _ := .error "empty raw tx"
  keccak256 _ := FixedBytes.zero

/-- `eth_call` of one wei from an account that has none. -/
def unpaidCall : Json := .array [.object [("from", .string poorSender), ("value", .string "0x1")]]

def nodeWith (db : accountsOnly.Db) : NodeState accountsOnly.Db where
  chainId := 2077001
  startedAtUnixS := 1772409600
  currentHeight := 5
  finalizedHeight := 3
  pendingTxs := []
  txs := ∅
  nonceByAddress := ∅
  pendingNonceAddressHint := none
  txCounter := 0
  evmDb := db
  txReceipts := ∅

theorem accountsOnly_emptyReads : accountsOnly.EmptyReads := fun _ => ⟨rfl, fun _ => rfl⟩

theorem failed_run_unchanged_blank :
    FailsInEvm accountsOnly requestDecoders (nodeWith []) .ethCall unpaidCall ∧
    Unchanged accountsOnly (nodeWith [])
      (handleJsonrpc accountsOnly requestDecoders (nodeWith []) .ethCall unpaidCall).2 := by
  have hfail : FailsInEvm accountsOnly requestDecoders (nodeWith []) .ethCall unpaidCall :=
    ⟨_, _, _, rfl, rfl⟩
  have hblank : Blank accountsOnly (nodeWith []).evmDb := blank_empty accountsOnly_emptyReads
  exact ⟨hfail, (failed_run_unchanged_iff accountsOnly requestDecoders accountsOnly_emptyReads (nodeWith []) .ethCall
    unpaidCall hfail).mpr hblank⟩

/-- One ether of somebody who has nothing to do with the call. -/
def richDb : accountsOnly.Db := [(.repeatByte 0x11, ⟨1000000000000000000, 0, FixedBytes.zero, none⟩)]

theorem failed_call_wipes_accounts :
    FailsInEvm accountsOnly requestDecoders (nodeWith richDb) .ethCall unpaidCall ∧
    ¬ Unchanged accountsOnly (nodeWith richDb)
      (handleJsonrpc accountsOnly requestDecoders (nodeWith richDb) .ethCall unpaidCall).2 := by
  have hfail : FailsInEvm accountsOnly requestDecoders (nodeWith richDb) .ethCall unpaidCall :=
    ⟨_, _, _, rfl, rfl⟩
  refine ⟨hfail, fun h => ?_⟩
  have hbalance := h.reads.balance (.repeatByte 0x11)
  rw [hfail.handleJsonrpc_eq] at hbalance
  exact absurd hbalance (by decide)

end Eth2077
