import Eth2077.Node.FocilFreeze
import Eth2077.Node.Inclusion
import Eth2077.Node.Rpc

/-!
# Runs of the daemon (`node/src/bin/eth2077-devnetd.rs`, `main`)

Requests, the routes of the engine API and the ticker take turns on one state behind a lock. A panic ends the node,
so it ends the run. `respond_cases` says once what a request can do to the stores the results about runs are about;
most requests do nothing to them.
-/

namespace Eth2077

namespace Daemon

open Rpc

/-! ### Events -/

/-- What follows `POST /engine/v1/` in a request line; the body is handed to the method as it is. -/
def engineRoutes : List (String × Method) :=
  [("getInclusionListV1", .engineGetInclusionList), ("newPayloadV3", .engineNewPayload),
    ("forkchoiceUpdatedV3", .engineForkchoiceUpdated),
    ("registerExecutionPayloadHeaderV1", .engineRegisterPayloadHeader),
    ("registerExecutionPayloadEnvelopeV1", .engineRegisterPayloadEnvelope),
    ("getPayloadTimelinessV1", .query .engineGetPayloadTimeliness),
    ("getPayloadTimelinessByRangeV1", .query .engineGetPayloadTimelinessByRange),
    ("getPayloadPenaltyV1", .query .engineGetPayloadPenalty),
    ("getPayloadPenaltiesByRangeV1", .query .engineGetPayloadPenaltiesByRange),
    ("getExecutionPayloadHeaderV1", .query .engineGetPayloadHeader),
    ("getExecutionPayloadHeadersBySlotV1", .query .engineGetPayloadHeadersBySlot),
    ("getExecutionPayloadHeadersByRangeV1", .query .engineGetPayloadHeadersByRange),
    ("getExecutionPayloadEnvelopeV1", .query .engineGetPayloadEnvelope),
    ("getExecutionPayloadEnvelopesBySlotV1", .query .engineGetPayloadEnvelopesBySlot),
    ("getExecutionPayloadEnvelopesByRangeV1", .query .engineGetPayloadEnvelopesByRange)]

/-- What the node turns to next, with the clock and the outside functions as they are then. -/
inductive Event where
  | rpc (env : RpcEnv) (req : Json)
  | engine (env : RpcEnv) (route : String) (req : Json)
  | tick (now : UInt64)

/-- The method an event runs. -/
def Event.method : Event → Option (RpcEnv × Json × Method)
  | rpc env req => (methods.lookup (methodName req)).map fun method => (env, req, method)
  | engine env route req => (engineRoutes.lookup route).map fun method => (env, req, method)
  | tick _ => none

section Step
variable (R : Revm)

def step (node : DaemonState R.Db) : Event → Option (DaemonState R.Db)
  | .rpc env req => (Rpc.handleJsonrpc R env node req).toOption.map Prod.snd
  | .engine env route req =>
    match engineRoutes.lookup route with
    | none => some node
    | some method => (respond R env node req (requestParams req) method).toOption.map Prod.snd
  | .tick now => some { node with toNodeState := blockTick node.toNodeState now }

/-- The hash under which a method records a new transaction. -/
def recordedHash (env : RpcEnv) (node : DaemonState R.Db) (params : Json) : Method → Option String
  | .evm .ethSendRawTransaction =>
    if Inclusion.accepted R (decoders env) node.toNodeState params then
      some (bytesToHex (env.engine.keccak256 ((parseHexBytes (Inclusion.rawTx params)).getD [])).toList)
    else none
  | .marketMint => (partyParam params 0).map (mintHash env.market node.toNodeState)
  | _ => none

/-- The hash of the transaction an event adds to the pending ones. -/
def Event.recorded (node : DaemonState R.Db) (e : Event) : Option String :=
  e.method.bind fun m => recordedHash R m.1 node (requestParams m.2.1) m.2.2

/-- The node that `main` starts with. -/
def Started (node : DaemonState R.Db) : Prop :=
  (∃ chainId startedAtUnixS, node.toNodeState = buildState R chainId startedAtUnixS) ∧ node.marketReceipts = ∅

end Step

/-! ### What a request changes -/

/-- The stores that the results about runs are about. -/
structure Ledger where
  currentHeight : UInt64
  pendingTxs : List String
  blockTxs : HashMap UInt64 (List String)
  txs : HashMap String TxRecord
  txReceipts : HashMap String TxReceiptRecord
  headersByRoot : HashMap String Engine7732HeaderRecord
  marketReceipts : HashMap String MarketReceipt

def ledgerOf {Db : Type} (s : NodeState Db) (marketReceipts : HashMap String MarketReceipt) : Ledger :=
  ⟨s.currentHeight, s.pendingTxs, s.blockTxs, s.txs, s.txReceipts, s.engine7732HeadersByRoot, marketReceipts⟩

def ledger {Db : Type} (node : DaemonState Db) : Ledger := ledgerOf node.toNodeState node.marketReceipts

/-- At start-up these stores are empty. -/
theorem Started.ledger_eq {R : Revm} {node : DaemonState R.Db} (h : Started R node) :
    ledger node = ⟨0, [], ∅, ∅, ∅, ∅, ∅⟩ := by
  obtain ⟨⟨chainId, startedAtUnixS, hnode⟩, hreceipts⟩ := h
  rw [ledger, hnode, hreceipts]
  rfl

section Frame
variable {Db : Type} {R : Revm} {marketReceipts : HashMap String MarketReceipt}

theorem ledgerOf_judge (env : EngineEnv) (s : NodeState Db) (slot now : UInt64) :
    ledgerOf (Focil.judge env s slot now).state marketReceipts = ledgerOf s marketReceipts := by
  obtain ⟨penalties, hstate⟩ := Focil.judge_state env s slot now
  rw [hstate]
  rfl

theorem ledgerOf_acceptUpdate (env : EngineEnv) (s : NodeState Db) (req : Json) (slot : UInt64)
    (entries : Option (List EngineTxMeta)) :
    ledgerOf (Focil.acceptUpdate env s req slot entries) marketReceipts = ledgerOf s marketReceipts := by
  unfold Focil.acceptUpdate Focil.unfreezeOther
  dsimp only
  cases entries with
  | none => split_ifs <;> rfl
  | some entries => split_ifs <;> rfl

theorem ledgerOf_getInclusionList (env : EngineEnv) (s : NodeState Db) (req : Json) :
    ledgerOf (Focil.getInclusionListResponse env s req).2 marketReceipts = ledgerOf s marketReceipts := by
  unfold Focil.getInclusionListResponse Focil.freezeView
  dsimp only
  split_ifs <;> rfl

theorem ledgerOf_forkchoiceUpdated {env : EngineEnv} {s s' : NodeState Db} {req answer : Json}
    (h : Focil.forkchoiceUpdatedResponse env s req = .ok (answer, s')) :
    ledgerOf s' marketReceipts = ledgerOf s marketReceipts := by
  rcases Focil.forkchoiceUpdated_cases h with ⟨-, -, rfl⟩ | ⟨-, entries, -, rfl⟩
  · exact ledgerOf_judge ..
  · rw [ledgerOf_acceptUpdate, ledgerOf_judge]

theorem ledgerOf_newPayload {env : EngineEnv} {s s' : NodeState R.Db} {req answer : Json}
    (h : Focil.newPayloadResponse env R s req = .ok (answer, s')) :
    ledgerOf s' marketReceipts = ledgerOf s marketReceipts := by
  obtain ⟨db, rfl⟩ := Focil.newPayload_state h
  exact ledgerOf_judge ..

theorem ledgerOf_registerEnvelope (env : EngineEnv) (s : NodeState Db) (req : Json) :
    ledgerOf (Engine7732.registerPayloadEnvelopeResponse env s req).2 marketReceipts = ledgerOf s marketReceipts := by
  unfold Engine7732.registerPayloadEnvelopeResponse
  split
  · rw [Engine7732.registerEnvelope_snd]
    rfl
  · rfl

/-- A header is filed under its root, or nothing is. -/
theorem ledgerOf_registerHeader {env : EngineEnv} {s s' : NodeState Db} {req answer : Json}
    (h : Engine7732.registerPayloadHeaderResponse env s req = .ok (answer, s')) :
    ledgerOf s' marketReceipts = ledgerOf s marketReceipts ∨
    ∃ header, Engine7732.parseHeaderRecord env req (Engine7732.fallbackSlot s) = .ok (.ok header) ∧
      ledgerOf s' marketReceipts = { ledgerOf s marketReceipts with
        headersByRoot := AList.insert header.payloadHeaderRoot header s.engine7732HeadersByRoot } := by
  obtain ⟨parsed, hparse, h⟩ := except_bind_eq_ok.mp h
  cases parsed with
  | error err =>
    cases h
    exact .inl rfl
  | ok header =>
    have hs' : s' = (Engine7732.registerHeader s header).2 := (Prod.mk.inj (Except.ok.inj h)).2.symm
    rcases Engine7732.registerHeader_cases s header with
      ⟨existing, -, -, -, heq⟩ | ⟨existing, -, -, -, -, heq⟩ | ⟨-, -, heq⟩
    · rw [hs', heq]
      exact .inl rfl
    · rw [hs', heq]
      exact .inl rfl
    · rw [hs', heq]
      exact .inr ⟨header, hparse, rfl⟩

/-- A call leaves the database behind and nothing else. -/
theorem ledgerOf_call (D : Decoders) (s : NodeState R.Db) (params : Json) {method : EvmMethod}
    (hmethod : method ≠ .ethSendRawTransaction) :
    ledgerOf (handleJsonrpc R D s method params).2 marketReceipts = ledgerOf s marketReceipts := by
  rcases hprepare : prepare R D s params method with response | ⟨c, prepared⟩
  · simp only [handleJsonrpc, hprepare]
  · obtain ⟨db, hstate⟩ := Inclusion.executeEvmTransaction_snd prepared c
    have hframe := prepare_frame hprepare
    rcases hrun : executeEvmTransaction R prepared c with ⟨err | outcome, state⟩
    · simp only [handleJsonrpc, hprepare, hrun]
      rw [hrun, hframe] at hstate
      subst hstate
      rfl
    · simp only [handleJsonrpc, hprepare, hrun]
      rw [hrun, hframe] at hstate
      subst hstate
      cases method with
      | ethSendRawTransaction => exact absurd rfl hmethod
      | ethEstimateGas | ethCall => rfl

/-- A raw transaction that the EVM ran is recorded and waits. -/
theorem ledgerOf_sendRawTransaction (D : Decoders) (s : NodeState R.Db) (params : Json) :
    (Inclusion.accepted R D s params = false ∧
      ledgerOf (handleJsonrpc R D s .ethSendRawTransaction params).2 marketReceipts = ledgerOf s marketReceipts) ∨
    (Inclusion.accepted R D s params = true ∧ ∃ hash tx receipt,
      hash = bytesToHex (D.keccak256 ((D.parseHexBytes (Inclusion.rawTx params)).getD [])).toList ∧
      ledgerOf (handleJsonrpc R D s .ethSendRawTransaction params).2 marketReceipts =
        { ledgerOf s marketReceipts with
          pendingTxs := s.pendingTxs ++ [hash]
          txs := AList.insert hash tx s.txs
          txReceipts := AList.insert hash receipt s.txReceipts }) := by
  rcases hprepare : prepare R D s params .ethSendRawTransaction with response | ⟨c, prepared⟩
  · simp only [handleJsonrpc, Inclusion.accepted, hprepare]
    exact .inl ⟨trivial, trivial⟩
  · obtain ⟨db, hstate⟩ := Inclusion.executeEvmTransaction_snd prepared c
    have hframe := prepare_frame hprepare
    rcases hrun : executeEvmTransaction R prepared c with ⟨err | outcome, state⟩
    · simp only [handleJsonrpc, Inclusion.accepted, hprepare, hrun]
      rw [hrun, hframe] at hstate
      subst hstate
      exact .inl ⟨rfl, rfl⟩
    · simp only [handleJsonrpc, Inclusion.accepted, hprepare, hrun]
      rw [hrun, hframe] at hstate
      subst hstate
      exact .inr ⟨rfl, _, _, _, rfl, rfl⟩

/-- A mint with a valid owner is recorded and waits, without a receipt. -/
theorem ledgerOf_marketMint (env : MarketEnv) (s : NodeState Db) (params : Json) :
    (partyParam params 0 = none ∧
      ledgerOf (eth2077MarketMint env s params).2 marketReceipts = ledgerOf s marketReceipts) ∨
    (∃ owner tx, partyParam params 0 = some owner ∧
      ledgerOf (eth2077MarketMint env s params).2 marketReceipts =
        { ledgerOf s marketReceipts with
          pendingTxs := s.pendingTxs ++ [mintHash env s owner]
          txs := AList.insert (mintHash env s owner) tx s.txs }) := by
  unfold eth2077MarketMint
  dsimp only
  split
  · rename_i hnone
    exact .inl ⟨hnone, rfl⟩
  · rename_i owner hsome
    exact .inr ⟨owner, _, hsome, rfl⟩

theorem ledgerOf_getTransactionCount (s : NodeState R.Db) (params : Json) :
    ledgerOf (ethGetTransactionCount R s params).2 marketReceipts = ledgerOf s marketReceipts := by
  unfold ethGetTransactionCount
  dsimp only
  split <;> rfl

theorem ledgerOf_getBalance (s : NodeState R.Db) (params : Json) :
    ledgerOf (ethGetBalance R s params).2 marketReceipts = ledgerOf s marketReceipts := by
  unfold ethGetBalance
  split <;> rfl

theorem ledgerOf_getCode (s : NodeState R.Db) (params : Json) :
    ledgerOf (ethGetCode R s params).2 marketReceipts = ledgerOf s marketReceipts := by
  unfold ethGetCode
  split <;> rfl

theorem ledgerOf_getStorageAt {s s' : NodeState R.Db} {params : Json} {response : Response}
    (h : ethGetStorageAt R s params = .ok (response, s')) :
    ledgerOf s' marketReceipts = ledgerOf s marketReceipts := by
  obtain ⟨slot, -, h⟩ := except_bind_eq_ok.mp h
  cases hparam : addressParam params 0 with
  | none =>
    rw [hparam] at h
    cases h
    rfl
  | some address =>
    rw [hparam] at h
    cases h
    rfl

theorem ledgerOf_setBalance {s s' : NodeState R.Db} {params : Json} {response : Response}
    (h : Eth2077.setBalance R s params = .ok (response, s')) :
    ledgerOf s' marketReceipts = ledgerOf s marketReceipts := by
  obtain ⟨amount, -, h⟩ := except_bind_eq_ok.mp h
  split at h
  · cases h
    rfl
  · cases h
    rfl

theorem ledger_marketTransfer (node : DaemonState Db) (params : Json) :
    ledger (Eth2077.marketTransfer node params).2 = ledger node := by
  unfold Eth2077.marketTransfer withNft
  split
  · split
    · rfl
    · split
      · dsimp only
        split_ifs <;> rfl
      · rfl
  · rfl

theorem ledger_marketRelist (node : DaemonState Db) (params : Json) :
    ledger (Eth2077.marketRelist node params).2 = ledger node := by
  unfold Eth2077.marketRelist withNft
  split
  · split
    · dsimp only
      split_ifs <;> rfl
    · rfl
  · rfl

/-- A sale files its receipt and does nothing else to these stores. -/
theorem ledger_marketBuy (env : MarketEnv) (node : DaemonState Db) (params : Json) :
    ∃ receipts, ledger (Eth2077.marketBuy env node params).2 = { ledger node with marketReceipts := receipts } := by
  unfold Eth2077.marketBuy withNft
  split
  · split
    · exact ⟨_, rfl⟩
    · split
      · unfold sell
        split_ifs <;> exact ⟨_, rfl⟩
      · exact ⟨_, rfl⟩
  · exact ⟨_, rfl⟩

end Frame

/-! ### What a step changes -/

section Cases
variable {R : Revm} {env : RpcEnv} {node node' : DaemonState R.Db} {req params : Json} {method : Method}
  {response : Response} {e : Event}

/-- A request leaves the ledger as it is, records a transaction, files the receipt of a sale, or files a header. -/
theorem respond_cases (h : respond R env node req params method = .ok (response, node')) :
    (recordedHash R env node params method = none ∧ ledger node' = ledger node) ∨
    (∃ hash tx receipts, recordedHash R env node params method = some hash ∧
      (receipts = node.txReceipts ∨ ∃ receipt, receipts = AList.insert hash receipt node.txReceipts) ∧
      ledger node' = { ledger node with
        pendingTxs := node.pendingTxs ++ [hash]
        txs := AList.insert hash tx node.txs
        txReceipts := receipts }) ∨
    (method = .marketBuy ∧ ∃ receipts, ledger node' = { ledger node with marketReceipts := receipts }) ∨
    (method = .engineRegisterPayloadHeader ∧ ∃ header,
      Engine7732.parseHeaderRecord env.engine req (Engine7732.fallbackSlot node.toNodeState) = .ok (.ok header) ∧
      ledger node' = { ledger node with
        headersByRoot := AList.insert header.payloadHeaderRoot header node.engine7732HeadersByRoot }) := by
  cases method with
  | query q =>
    cases h
    exact .inl ⟨rfl, rfl⟩
  | ethGetBlockByNumber | ethGetBlockByHash =>
    obtain ⟨block, -, h⟩ := except_bind_eq_ok.mp h
    cases h
    exact .inl ⟨rfl, rfl⟩
  | evm method =>
    obtain ⟨-, -, h⟩ := except_bind_eq_ok.mp h
    cases h
    cases method with
    | ethEstimateGas | ethCall => exact .inl ⟨rfl, ledgerOf_call _ _ _ nofun⟩
    | ethSendRawTransaction =>
      rcases ledgerOf_sendRawTransaction (decoders env) node.toNodeState params with
        ⟨hno, hsame⟩ | ⟨hyes, hash, tx, receipt, rfl, hrecorded⟩
      · exact .inl ⟨by simp [recordedHash, hno], hsame⟩
      · exact .inr (.inl ⟨_, tx, _, if_pos hyes, .inr ⟨receipt, rfl⟩, hrecorded⟩)
  | ethGetBalance =>
    cases h
    exact .inl ⟨rfl, ledgerOf_getBalance _ _⟩
  | ethGetTransactionCount =>
    cases h
    exact .inl ⟨rfl, ledgerOf_getTransactionCount _ _⟩
  | ethGetCode =>
    cases h
    exact .inl ⟨rfl, ledgerOf_getCode _ _⟩
  | ethGetStorageAt =>
    obtain ⟨r, hr, h⟩ := except_bind_eq_ok.mp h
    cases h
    exact .inl ⟨rfl, ledgerOf_getStorageAt hr⟩
  | engineGetInclusionList =>
    cases h
    exact .inl ⟨rfl, ledgerOf_getInclusionList _ _ _⟩
  | engineForkchoiceUpdated =>
    obtain ⟨r, hr, h⟩ := except_bind_eq_ok.mp h
    cases h
    exact .inl ⟨rfl, ledgerOf_forkchoiceUpdated hr⟩
  | engineNewPayload =>
    obtain ⟨r, hr, h⟩ := except_bind_eq_ok.mp h
    cases h
    exact .inl ⟨rfl, ledgerOf_newPayload hr⟩
  | engineRegisterPayloadHeader =>
    obtain ⟨r, hr, h⟩ := except_bind_eq_ok.mp h
    cases h
    rcases ledgerOf_registerHeader hr with hsame | ⟨header, hparse, hfiled⟩
    · exact .inl ⟨rfl, hsame⟩
    · exact .inr (.inr (.inr ⟨rfl, header, hparse, hfiled⟩))
  | engineRegisterPayloadEnvelope =>
    cases h
    exact .inl ⟨rfl, ledgerOf_registerEnvelope _ _ _⟩
  | setBalance =>
    obtain ⟨r, hr, h⟩ := except_bind_eq_ok.mp h
    cases h
    exact .inl ⟨rfl, ledgerOf_setBalance hr⟩
  | marketMint =>
    obtain ⟨-, -, h⟩ := except_bind_eq_ok.mp h
    cases h
    rcases ledgerOf_marketMint env.market node.toNodeState params with ⟨hnone, hsame⟩ | ⟨owner, tx, howner, hrecorded⟩
    · exact .inl ⟨by simp [recordedHash, hnone], hsame⟩
    · exact .inr (.inl ⟨_, tx, _, by simp [recordedHash, howner], .inl rfl, hrecorded⟩)
  | marketBuy =>
    obtain rfl : (Eth2077.marketBuy env.market node params).2 = node' := congrArg Prod.snd (Except.ok.inj h)
    exact .inr (.inr (.inl ⟨rfl, ledger_marketBuy _ _ _⟩))
  | marketTransfer =>
    obtain rfl : (Eth2077.marketTransfer node params).2 = node' := congrArg Prod.snd (Except.ok.inj h)
    exact .inl ⟨rfl, ledger_marketTransfer _ _⟩
  | marketRelist =>
    obtain rfl : (Eth2077.marketRelist node params).2 = node' := congrArg Prod.snd (Except.ok.inj h)
    exact .inl ⟨rfl, ledger_marketRelist _ _⟩

/-- A step is a tick, or runs the method of its event if it has one. -/
theorem step_method (h : step R node e = some node') :
    (∃ now, e = .tick now ∧ node' = { node with toNodeState := blockTick node.toNodeState now }) ∨
    (e.method = none ∧ node' = node) ∨
    (∃ env req method response, e.method = some (env, req, method) ∧
      respond R env node req (requestParams req) method = .ok (response, node')) := by
  cases e with
  | tick now => exact .inl ⟨now, rfl, (Option.some_inj.mp h).symm⟩
  | engine env route req =>
    rw [step] at h
    rw [Event.method]
    cases hroute : engineRoutes.lookup route with
    | none =>
      rw [hroute] at h
      exact .inr (.inl ⟨rfl, (Option.some_inj.mp h).symm⟩)
    | some method =>
      rw [hroute] at h
      obtain ⟨response, hrespond⟩ := toOption_map_snd.mp h
      exact .inr (.inr ⟨env, req, method, response, rfl, hrespond⟩)
  | rpc env req =>
    obtain ⟨answer, hanswer⟩ := toOption_map_snd.mp h
    rw [Rpc.handleJsonrpc] at hanswer
    rw [Event.method]
    cases hmethod : methods.lookup (methodName req) with
    | none =>
      rw [hmethod] at hanswer
      exact .inr (.inl ⟨rfl, (congrArg Prod.snd (Except.ok.inj hanswer)).symm⟩)
    | some method =>
      rw [hmethod] at hanswer
      obtain ⟨⟨response, node'⟩, hrespond, hanswer⟩ := except_bind_eq_ok.mp hanswer
      cases hanswer
      exact .inr (.inr ⟨env, req, method, response, rfl, hrespond⟩)

/-- A step seals a block, leaves the ledger as it is, records a transaction, files the receipt of a sale, or files
a header. -/
theorem step_cases (h : step R node e = some node') :
    (∃ now, e = .tick now ∧ node' = { node with toNodeState := blockTick node.toNodeState now }) ∨
    (e.recorded R node = none ∧ ledger node' = ledger node) ∨
    (∃ hash tx receipts, e.recorded R node = some hash ∧
      (receipts = node.txReceipts ∨ ∃ receipt, receipts = AList.insert hash receipt node.txReceipts) ∧
      ledger node' = { ledger node with
        pendingTxs := node.pendingTxs ++ [hash]
        txs := AList.insert hash tx node.txs
        txReceipts := receipts }) ∨
    (∃ receipts, ledger node' = { ledger node with marketReceipts := receipts }) ∨
    (∃ env req header,
      Engine7732.parseHeaderRecord env req (Engine7732.fallbackSlot node.toNodeState) = .ok (.ok header) ∧
      ledger node' = { ledger node with
        headersByRoot := AList.insert header.payloadHeaderRoot header node.engine7732HeadersByRoot }) := by
  rcases step_method h with htick | ⟨hnone, rfl⟩ | ⟨env, req, method, response, hmethod, hrespond⟩
  · exact .inl htick
  · exact .inr (.inl ⟨by simp [Event.recorded, hnone], rfl⟩)
  · have hrecorded : e.recorded R node = recordedHash R env node (requestParams req) method := by
      simp [Event.recorded, hmethod]
    rw [hrecorded]
    rcases respond_cases hrespond with hsame | hrecord | ⟨-, hsale⟩ | ⟨-, header, hparse, hfiled⟩
    · exact .inr (.inl hsame)
    · exact .inr (.inr (.inl hrecord))
    · exact .inr (.inr (.inr (.inl hsale)))
    · exact .inr (.inr (.inr (.inr ⟨env.engine, req, header, hparse, hfiled⟩)))

end Cases

/-! ### A node and its requests -/

def request (method : String) (params : List Json) : Json :=
  .object [("jsonrpc", .string "2.0"), ("id", .number 1), ("method", .string method), ("params", .array params)]

def startedNode (R : Revm) : DaemonState R.Db where
  toNodeState := buildState R 2077001 1772409600
  nodeId := 0
  nodes := 4
  peersTarget := 3
  peersConnected := 3
  ingressCapacityTps := 220000
  executionCapacityTps := 152000
  oobCapacityTps := 186000
  bridgeReplaySafe := true
  marketReceipts := ∅

theorem started_startedNode (R : Revm) : Started R (startedNode R) := ⟨⟨2077001, 1772409600, rfl⟩, rfl⟩

/-- A release build, for requests that carry `Inclusion.someRawTx` or mint a token after it. -/
def walletEnv : RpcEnv :=
  { releaseEnv with
    engine := { Engine7732.namedRootEnv with keccak256 := Inclusion.walletDecoders.keccak256 }
    market := ⟨Inclusion.someHasher, 1772409700⟩
    rlp := .shortLists }

def askNonce : Event := .rpc walletEnv (request "eth_getTransactionCount" [.string poorSender])

def sendSomeTx : Event := .rpc walletEnv (request "eth_sendRawTransaction" [.string Inclusion.someRawTx])

def mintToken : Event := .rpc walletEnv (request "eth2077_marketMint" [.string poorSender])

end Daemon

end Eth2077
