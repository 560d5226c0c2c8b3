import Mathlib.Data.List.ReduceOption
import Eth2077.Node.Engine7732

/-!
# Inclusion lists (`node/src/bin/eth2077-devnetd.rs`, the `engine_*` handlers)

`engine_forkchoiceUpdatedV3` hands the node the inclusion list of a slot, `engine_getInclusionListV1` serves
it and freezes the view, and `engine_newPayloadV3` judges a payload by it. The list is kept as hashes in
their order and, beside them, a map from the hash to the details of the transaction; the root that is
frozen is the hash of the former.
-/

namespace Eth2077

namespace Focil

/-! ### Reading requests -/

/-- The entry an item of a list of transactions stands for: a hash, or an object with one. -/
def txMetaOfItem (item : Json) : Except Panic (Option EngineTxMeta) :=
  match item.asStr.bind normalizeHash32, item.asObject with
  | some hash, _ => .ok (some { hash := hash })
  | none, none => .ok none
  | none, some _ =>
    match ((item.getFirst ["hash", "txHash", "transactionHash"]).bind Json.asStr).bind normalizeHash32 with
    | none => .ok none
    | some hash => do
      let value ← (item.get "value").elim (.ok none) parseU256Value
      return some
        { hash := hash
          «from» := ((item.get "from").bind Json.asStr).bind canonicalAddress
          nonce := (item.get "nonce").bind parseU64Value
          gasLimit := (item.getFirst ["gas", "gasLimit"]).bind parseU64Value
          gasPrice := (item.getFirst ["maxFeePerGas", "gasPrice"]).bind parseU128Value
          value := value }

/-- `if seen.insert(meta.hash) { out.push(meta) }`. -/
def pushMeta (out : List EngineTxMeta) (entry : EngineTxMeta) : List EngineTxMeta :=
  if entry.hash ∈ out.map EngineTxMeta.hash then out else out ++ [entry]

def dedupTxMetaArray (value : Json) : Except Panic (List EngineTxMeta) :=
  match value.asArray with
  | none => .ok []
  | some items => do
    let entries ← items.mapM txMetaOfItem
    return entries.reduceOption.foldl pushMeta []

section Request
variable (req : Json)

/-- `req["params"][i]`. -/
def requestParam (i : ℕ) : Option Json := (req.get "params").bind fun params => params.param i

def payloadAttributes : Option Json :=
  (req.get "payloadAttributes").or ((requestParam req 1).bind fun attrs => attrs.get "payloadAttributes")

def executionPayload : Option Json :=
  (req.get "executionPayload").or
    ((requestParam req 0).bind fun payload => (payload.get "executionPayload").or (some payload))

def hasInclusionList : Bool :=
  (payloadAttributes req).any fun attrs =>
    (attrs.get "inclusionListTransactions").isSome || (attrs.get "inclusionList").isSome

def collectInclusionListEntries : Except Panic (List EngineTxMeta) :=
  match payloadAttributes req with
  | none => .ok []
  | some attrs =>
    match attrs.get "inclusionListTransactions" with
    | some list => dedupTxMetaArray list
    | none =>
      match (attrs.get "inclusionList").bind fun il => (il.get "transactions").or (some il) with
      | some list => dedupTxMetaArray list
      | none => .ok []

def collectPayloadTransactionEntries : Except Panic (List EngineTxMeta) :=
  match (executionPayload req).bind fun payload => payload.get "transactions" with
  | some txs => dedupTxMetaArray txs
  | none =>
    match req.get "transactions" with
    | some txs => dedupTxMetaArray txs
    | none => .ok []

def dedupStringArray (value : Json) : List String :=
  let members := (value.asArray.getD []).filterMap fun item => item.asStr.map fun raw =>
    (canonicalAddress raw).getD (String.ofList ((trim raw.toList).map Char.toLower))
  members.foldl (fun out member => if member ∈ out then out else out ++ [member]) []

def collectCommitteeMembers : List String :=
  match payloadAttributes req with
  | none => []
  | some attrs =>
    match (attrs.getFirst ["inclusionListCommittee", "committee"]).or
        ((attrs.get "inclusionList").bind fun il => il.get "committee") with
    | some committee => dedupStringArray committee
    | none => []

def slotFromPayloadAttributes : Option UInt64 :=
  ((payloadAttributes req).bind fun attrs => attrs.get "slot").bind parseU64Value

def viewIdFromPayloadAttributes : Option UInt64 :=
  ((payloadAttributes req).bind fun attrs => attrs.getFirst ["viewId", "view"]).bind parseU64Value

def payloadSlot : Option UInt64 :=
  let ofPayload (key : String) := (executionPayload req).bind fun payload => (payload.get key).bind parseU64Value
  (((req.get "slot").bind parseU64Value).or (ofPayload "slot")).or (ofPayload "blockNumber")

def currentUnixS : Option UInt64 :=
  ((req.get "currentUnixS").bind parseU64Value).or ((requestParam req 1).bind parseU64Value)

end Request

variable (env : EngineEnv)

def inclusionListRoot (hashes : List String) : String :=
  bytesToHex (env.keccak256 (asBytes (String.intercalate "," hashes))).toList

def txMetaToJson (entry : EngineTxMeta) : Json :=
  .object
    [("hash", .string entry.hash), ("from", .ofOption .string entry.from),
      ("nonce", .ofOption hexU64 entry.nonce), ("gas", .ofOption hexU64 entry.gasLimit),
      ("maxFeePerGas", .ofOption (fun v => .string (hexNat v.toNat)) entry.gasPrice),
      ("value", .ofOption (fun v => .string (hexNat v.toNat)) entry.value)]

/-- The entries in a map, each under its hash. -/
def metaByHash (entries : List EngineTxMeta) : HashMap String EngineTxMeta :=
  entries.foldl (fun metas entry => AList.insert entry.hash entry metas) ∅

section State
variable {Db : Type} (state : NodeState Db) (req : Json)

/-- The slot a request is about when it names none. -/
def defaultSlot : UInt64 := state.engineRequiredIlSlot.getD (state.currentHeight.saturatingAdd 1)

/-! ### Serving the list -/

def requestedSlot : UInt64 :=
  (((req.get "slot").bind parseU64Value).or ((requestParam req 0).bind parseU64Value)).getD (defaultSlot state)

/-- The details `engine_getInclusionListV1` serves. -/
def transactionDetails : List EngineTxMeta :=
  state.engineRequiredIlTxs.filterMap fun h => state.engineRequiredIlMeta.lookup h

/-- The list of the slot has been handed out. -/
def freezeView (slot : UInt64) : NodeState Db :=
  { state with
    engineFocilViewFrozen := true
    engineFocilFrozenSlot := some slot
    engineFocilFrozenIlRoot := some (inclusionListRoot env state.engineRequiredIlTxs)
    engineFocilViewId := state.engineFocilViewId.or (some slot) }

def getInclusionListResponse : Json × NodeState Db :=
  let slot := requestedSlot state req
  let state := if state.engineRequiredIlSlot = some slot then freezeView env state slot else state
  (.object
    [("slot", hexU64 slot), ("transactions", .array (state.engineRequiredIlTxs.map .string)),
      ("transactionDetails", .array ((transactionDetails state).map txMetaToJson)),
      ("committee", .array (state.engineFocilCommittee.map .string)),
      ("viewId", .ofOption hexU64 state.engineFocilViewId),
      ("viewFreeze", .object
        [("frozen", .bool state.engineFocilViewFrozen), ("slot", .ofOption hexU64 state.engineFocilFrozenSlot),
          ("inclusionListRoot", .ofOption .string state.engineFocilFrozenIlRoot)]),
      ("maxBytesPerInclusionList", .string "0x2000"),
      ("updatedAtUnixS", .ofOption u64Json state.engineRequiredIlUpdatedAtUnixS)],
    state)

/-! ### Timeliness -/

/-- What the head of the two other handlers finds out about the slot of a request. -/
structure Judgement (Db : Type) where
  status : TimelinessStatus
  error : String
  timeliness : Json
  penalty : Json
  /-- The node with the penalty of the slot brought up to date. -/
  state : NodeState Db

def judge (slot now : UInt64) : Judgement Db :=
  let status := (Engine7732.slotStatus env state slot now).aggregateStatus
  let error := s!"EIP-7732 timeliness violation for slot {slot}: {status.text}"
  let reason := if status.isViolation then error else "EIP-7732 timeliness recovered"
  let (record, state') := Engine7732.updatePenaltyState state slot status reason now
  { status, error, timeliness := Engine7732.slotStatusResponse env state slot now
    penalty := .ofOption Engine7732.penaltyToJson record, state := state' }

/-! ### Updating the list -/

def fcSlot : UInt64 := (slotFromPayloadAttributes req).getD (defaultSlot state)

def payloadStatus (status : String) (validationError : Json) : Json :=
  .object [("status", .string status), ("latestValidHash", .string "0x00"), ("validationError", validationError)]

def focilToJson : Json :=
  .object
    [("requiredTransactions", .string (hexNat state.engineRequiredIlTxs.length)),
      ("slot", .ofOption hexU64 state.engineRequiredIlSlot), ("viewId", .ofOption hexU64 state.engineFocilViewId),
      ("viewFrozen", .bool state.engineFocilViewFrozen),
      ("committeeSize", .string (hexNat state.engineFocilCommittee.length)),
      ("frozenInclusionListRoot", .ofOption .string state.engineFocilFrozenIlRoot)]

/-- The view is frozen for the slot and the request brings a list of another root. -/
def refusesList (slot : UInt64) (entries : Option (List EngineTxMeta)) : Bool :=
  state.engineFocilViewFrozen && state.engineFocilFrozenSlot == some slot &&
    entries.any fun entries =>
      some (inclusionListRoot env (entries.map EngineTxMeta.hash)) != state.engineFocilFrozenIlRoot

def unfreezeOther (slot : UInt64) : NodeState Db :=
  if state.engineFocilViewFrozen ∧ state.engineFocilFrozenSlot ≠ some slot then
    { state with
      engineFocilViewFrozen := false
      engineFocilFrozenSlot := none
      engineFocilFrozenIlRoot := none }
  else state

def replaceList (slot : UInt64) (entries : List EngineTxMeta) : NodeState Db :=
  { state with
    engineRequiredIlTxs := entries.map EngineTxMeta.hash
    engineRequiredIlMeta := metaByHash entries
    engineRequiredIlSlot := some slot
    engineRequiredIlUpdatedAtUnixS := some env.now }

/-- What an update that is not refused leaves. -/
def acceptUpdate (slot : UInt64) (entries : Option (List EngineTxMeta)) : NodeState Db :=
  let state := unfreezeOther state slot
  let committee := collectCommitteeMembers req
  let state :=
    { state with
      engineFocilCommittee := if committee = [] then state.engineFocilCommittee else committee
      engineFocilViewId := (viewIdFromPayloadAttributes req).or (some slot) }
  match entries with
  | none => state
  | some entries => replaceList env state slot entries

/-- The entries of the list in the request, if there is one. -/
def submittedEntries : Except Panic (Option (List EngineTxMeta)) :=
  if hasInclusionList req then do
    let entries ← collectInclusionListEntries req
    return some entries
  else .ok none

def forkchoiceUpdatedResponse : Except Panic (Json × NodeState Db) :=
  let slot := fcSlot state req
  let judgement := judge env state slot ((currentUnixS req).getD env.now)
  if judgement.status.isViolation then
    .ok (.object
        [("payloadStatus", payloadStatus "INVALID" (.string judgement.error)), ("payloadId", .null),
          ("timeliness", judgement.timeliness), ("penalty", judgement.penalty)],
      judgement.state)
  else do
    let entries ← submittedEntries req
    if refusesList env judgement.state slot entries then
      let error := s!"FOCIL view frozen for slot {slot}; inclusion list is immutable"
      return (.object
          [("payloadStatus", payloadStatus "INVALID" (.string error)), ("payloadId", .null),
            ("focil", focilToJson judgement.state)],
        judgement.state)
    else
      let state := acceptUpdate env judgement.state req slot entries
      return (.object
          [("payloadStatus", payloadStatus "VALID" .null), ("payloadId", .string "0x0000000000000000"),
            ("timeliness", judgement.timeliness), ("penalty", judgement.penalty), ("focil", focilToJson state)],
        state)

end State

/-! ### Judging a payload -/

def engineBlockGasLimit : UInt64 := 30000000

/-- What is wrong with one field of the payload's entry for a transaction of the list. -/
def fieldCheck {α : Type} [DecidableEq α] (hash field : String) (text : α → String) (required payload : Option α) :
    List String :=
  match required, payload with
  | none, _ => []
  | some _, none => [hash ++ ": payload " ++ field ++ " missing"]
  | some required, some payload =>
    if payload = required then []
    else [hash ++ ": " ++ field ++ " mismatch (required " ++ text required ++ ", got " ++ text payload ++ ")"]

def metaChecks (hash : String) (required payload : EngineTxMeta) : List String :=
  fieldCheck hash "sender" id required.from payload.from ++
    fieldCheck hash "nonce" toString required.nonce payload.nonce ++
    fieldCheck hash "gas" toString required.gasLimit payload.gasLimit ++
    fieldCheck hash "gas price" (fun v => hexNat v.toNat) required.gasPrice payload.gasPrice ++
    fieldCheck hash "value" (fun v => hexNat v.toNat) required.value payload.value

/-- What the loop over the payload's entries carries along. -/
structure Simulation (Db : Type) where
  nonces : HashMap String UInt64
  balances : HashMap String U256
  totalKnownGas : UInt64
  unknownGasCount : ℕ
  checks : List String
  db : Db

section Evm
variable (R : Revm)

namespace Simulation

def start (db : R.Db) (checks : List String) : Simulation R.Db := ⟨∅, ∅, 0, 0, checks, db⟩

variable {R} (acc : Simulation R.Db)

def countGas (gasLimit : Option UInt64) : Simulation R.Db :=
  match gasLimit with
  | some gas => { acc with totalKnownGas := acc.totalKnownGas.saturatingAdd gas }
  | none => { acc with unknownGasCount := acc.unknownGasCount + 1 }

def report (check : String) : Simulation R.Db := { acc with checks := acc.checks ++ [check] }

/-- `simulated_nonce.entry(from).or_insert_with(..)`. -/
def expectedNonce (sender : String) (address : Address) : UInt64 × Simulation R.Db :=
  match acc.nonces.lookup sender with
  | some nonce => (nonce, acc)
  | none =>
    let (nonce, db) := accountNonceFromDb R acc.db address
    (nonce, { acc with nonces := AList.insert sender nonce acc.nonces, db := db })

/-- `simulated_balance.entry(from).or_insert_with(..)`. -/
def remainingBalance (sender : String) (address : Address) : U256 × Simulation R.Db :=
  match acc.balances.lookup sender with
  | some balance => (balance, acc)
  | none =>
    let (balance, db) := accountBalanceFromDb R acc.db address
    (balance, { acc with balances := AList.insert sender balance acc.balances, db := db })

def checkGasLimit (payload : EngineTxMeta) : Simulation R.Db :=
  match payload.gasLimit with
  | some gas =>
    if engineBlockGasLimit < gas then
      acc.report s!"{payload.hash}: gas limit {gas} exceeds block gas limit {engineBlockGasLimit}"
    else acc
  | none => acc

/-- The price of the gas and the value, in 256 bits: the sum can wrap. -/
def requiredWei (gasLimit : UInt64) (gasPrice : BitVec 128) (value : U256) : U256 :=
  BitVec.ofNat 256 gasLimit.toNat * BitVec.ofNat 256 gasPrice.toNat + value

def pay (payload : EngineTxMeta) (sender : String) (address : Address) : Simulation R.Db :=
  match payload.gasLimit, payload.gasPrice, payload.value with
  | some gas, some price, some value =>
    let (balance, acc) := acc.remainingBalance sender address
    let wei := requiredWei gas price value
    if balance < wei then
      let needed := hexNat wei.toNat
      let available := hexNat balance.toNat
      acc.report s!"{payload.hash}: insufficient balance (need {needed}, have {available})"
    else { acc with balances := AList.insert sender (balance - wei) acc.balances }
  | _, _, _ => acc

/-- The rest of the loop body for an entry of the list that names its sender. -/
def spend (payload : EngineTxMeta) (sender : String) (address : Address) : Simulation R.Db :=
  let (expected, acc) := acc.expectedNonce sender address
  match payload.nonce with
  | none => (acc.checkGasLimit payload).pay payload sender address
  | some nonce =>
    if nonce ≠ expected then acc.report s!"{payload.hash}: nonce {nonce} does not match expected {expected}"
    else
      let acc := (acc.checkGasLimit payload).pay payload sender address
      { acc with nonces := AList.insert sender (expected.saturatingAdd 1) acc.nonces }

/-- One turn of the loop over the payload's entries; `required` are the hashes of the list. -/
def entry (required : List String) (payload : EngineTxMeta) : Simulation R.Db :=
  let acc := acc.countGas payload.gasLimit
  if payload.hash ∉ required then acc
  else
    match payload.from with
    | none => acc
    | some sender =>
      match addressFromHex sender with
      | none => acc.report s!"{payload.hash}: sender is not a valid address"
      | some address => acc.spend payload sender address

end Simulation

variable (state : NodeState R.Db) (req : Json)

def npSlot : UInt64 := (payloadSlot req).getD (defaultSlot state)

/-- The hashes of the list the payload lacks. -/
def missingTxs (entries : List EngineTxMeta) : List String :=
  state.engineRequiredIlTxs.filter fun tx => tx ∉ entries.map EngineTxMeta.hash

/-- The checks of the entries against the list. -/
def listChecks (entries : List EngineTxMeta) : List String :=
  state.engineRequiredIlTxs.flatMap fun hash =>
    match state.engineRequiredIlMeta.lookup hash, (metaByHash entries).lookup hash with
    | some required, some payload => metaChecks hash required payload
    | _, _ => []

def simulate (entries : List EngineTxMeta) : Simulation R.Db :=
  let acc := entries.foldl (fun acc payload => acc.entry state.engineRequiredIlTxs payload)
    (Simulation.start R state.evmDb (listChecks R state entries))
  if acc.unknownGasCount = 0 ∧ entries ≠ [] ∧ engineBlockGasLimit < acc.totalKnownGas ∧
      state.engineRequiredIlTxs ≠ [] then
    acc.report s!"payload gas {acc.totalKnownGas} exceeds block gas limit {engineBlockGasLimit}"
  else acc

def newPayloadResponse : Except Panic (Json × NodeState R.Db) := do
  let entries ← collectPayloadTransactionEntries req
  let missing := missingTxs R state entries
  let latestValidHash := (normalizeHash32Value ((executionPayload req).bind fun p => p.get "blockHash")).getD "0x00"
  let slot := npSlot R state req
  let judgement := judge env state slot ((currentUnixS req).getD env.now)
  let respond (status : String) (validationError : Json) : Json :=
    .object
      [("status", .string status), ("latestValidHash", .string latestValidHash),
        ("validationError", validationError), ("timeliness", judgement.timeliness),
        ("penalty", judgement.penalty)]
  let state := judgement.state
  if judgement.status.isViolation then return (respond "INVALID" (.string judgement.error), state)
  else if missing ≠ [] then
    let count := missing.length
    let preview := String.intercalate ", " (missing.take 3)
    let error := s!"missing {count} inclusion-list tx(s): {preview}"
    return (respond "INCLUSION_LIST_UNSATISFIED" (.string error), state)
  else
    match state.engineFocilFrozenSlot.filter fun frozen => state.engineFocilViewFrozen && slot != frozen with
    | some frozen =>
      let error := s!"FOCIL view frozen at slot {frozen}; payload targets slot {slot}"
      return (respond "INCLUSION_LIST_UNSATISFIED" (.string error), state)
    | none =>
      let acc := simulate R state entries
      let state := { state with evmDb := acc.db }
      if acc.checks = [] then return (respond "VALID" .null, state)
      else
        let preview := String.intercalate "; " (acc.checks.take 3)
        return (respond "INCLUSION_LIST_UNSATISFIED" (.string preview), state)

end Evm

/-! ### What the lists of transactions are -/

/-- Distinct hashes in their normal form, and senders in theirs. -/
structure WellFormed (entries : List EngineTxMeta) : Prop where
  nodup : (entries.map EngineTxMeta.hash).Nodup
  hash : ∀ entry ∈ entries, IsHash32 entry.hash
  sender : ∀ entry ∈ entries, ∀ sender ∈ entry.from, ∃ input, canonicalAddress input = some sender

theorem WellFormed.nil : WellFormed [] := ⟨List.nodup_nil, by simp, by simp⟩

theorem txMetaOfItem_some {item : Json} {entry : EngineTxMeta} (h : txMetaOfItem item = .ok (some entry)) :
    IsHash32 entry.hash ∧ ∀ sender ∈ entry.from, ∃ input, canonicalAddress input = some sender := by
  unfold txMetaOfItem at h
  split at h
  · rename_i hash _ hhash
    obtain ⟨text, -, htext⟩ := Option.bind_eq_some_iff.mp hhash
    cases h
    exact ⟨⟨text, htext⟩, by simp⟩
  · cases h
  · split at h
    · cases h
    · rename_i hash hhash
      obtain ⟨text, -, htext⟩ := Option.bind_eq_some_iff.mp hhash
      obtain ⟨value, -, hentry⟩ := except_bind_eq_ok.mp h
      cases hentry
      refine ⟨⟨text, htext⟩, ?_⟩
      intro sender hsender
      obtain ⟨input, -, hinput⟩ := Option.bind_eq_some_iff.mp hsender
      exact ⟨input, hinput⟩

theorem WellFormed.pushMeta {out : List EngineTxMeta} (hout : WellFormed out) {entry : EngineTxMeta}
    (hhash : IsHash32 entry.hash)
    (hsender : ∀ sender ∈ entry.from, ∃ input, canonicalAddress input = some sender) :
    WellFormed (pushMeta out entry) := by
  unfold Focil.pushMeta
  split_ifs with hmem
  · exact hout
  · constructor
    · rw [List.map_append, List.map_singleton]
      exact List.nodup_append'.mpr ⟨hout.nodup, List.nodup_singleton _, by simpa using hmem⟩
    all_goals
      intro e he
      rcases List.mem_append.mp he with he | he
    · exact hout.hash e he
    · rw [List.mem_singleton.mp he]
      exact hhash
    · exact hout.sender e he
    · rw [List.mem_singleton.mp he]
      exact hsender

theorem wellFormed_dedupTxMetaArray {value : Json} {entries : List EngineTxMeta}
    (h : dedupTxMetaArray value = .ok entries) : WellFormed entries := by
  unfold dedupTxMetaArray at h
  split at h
  · cases h
    exact WellFormed.nil
  · rename_i items _
    obtain ⟨parsed, hparsed, hentries⟩ := except_bind_eq_ok.mp h
    cases hentries
    have hall : ∀ entry ∈ parsed.reduceOption, ∃ item, txMetaOfItem item = .ok (some entry) := by
      intro entry hentry
      obtain ⟨item, -, hitem⟩ := exists_of_mem_mapM hparsed (List.reduceOption_mem_iff.mp hentry)
      exact ⟨item, hitem⟩
    refine List.foldlRecOn parsed.reduceOption Focil.pushMeta WellFormed.nil ?_
    intro out hout entry hentry
    obtain ⟨item, hitem⟩ := hall entry hentry
    obtain ⟨hhash, hsender⟩ := txMetaOfItem_some hitem
    exact hout.pushMeta hhash hsender

theorem wellFormed_inclusionListEntries {req : Json} {entries : List EngineTxMeta}
    (h : collectInclusionListEntries req = .ok entries) : WellFormed entries := by
  unfold collectInclusionListEntries at h
  split at h
  · cases h
    exact WellFormed.nil
  · split at h
    · exact wellFormed_dedupTxMetaArray h
    · split at h
      · exact wellFormed_dedupTxMetaArray h
      · cases h
        exact WellFormed.nil

theorem wellFormed_submittedEntries {req : Json} {entries : List EngineTxMeta}
    (h : submittedEntries req = .ok (some entries)) : WellFormed entries := by
  unfold submittedEntries at h
  split_ifs at h
  · obtain ⟨entries', hentries', h⟩ := except_bind_eq_ok.mp h
    cases h
    exact wellFormed_inclusionListEntries hentries'
  · cases h

theorem wellFormed_payloadEntries {req : Json} {entries : List EngineTxMeta}
    (h : collectPayloadTransactionEntries req = .ok entries) : WellFormed entries := by
  unfold collectPayloadTransactionEntries at h
  split at h
  · exact wellFormed_dedupTxMetaArray h
  · split at h
    · exact wellFormed_dedupTxMetaArray h
    · cases h
      exact WellFormed.nil

/-- With distinct hashes, the map holds each entry under its hash and nothing else. -/
theorem lookup_metaByHash {entries : List EngineTxMeta} (h : (entries.map EngineTxMeta.hash).Nodup)
    {hash : String} {entry : EngineTxMeta} :
    (metaByHash entries).lookup hash = some entry ↔ entry ∈ entries ∧ entry.hash = hash := by
  induction entries using List.reverseRecOn with
  | nil => simp [metaByHash]
  | append_singleton entries last ih =>
    rw [List.map_append, List.map_singleton, List.nodup_append'] at h
    obtain ⟨hnodup, -, hlast⟩ := h
    have hinsert : metaByHash (entries ++ [last]) = AList.insert last.hash last (metaByHash entries) := by
      simp [metaByHash]
    rw [hinsert]
    by_cases heq : hash = last.hash
    · subst heq
      rw [AList.lookup_insert, Option.some_inj]
      constructor
      · rintro rfl
        simp
      · rintro ⟨hmem, hhash⟩
        rcases List.mem_append.mp hmem with hmem | hmem
        · exact absurd (List.mem_singleton_self _) (hlast (hhash ▸ List.mem_map_of_mem hmem))
        · exact (List.mem_singleton.mp hmem).symm
    · rw [AList.lookup_insert_ne heq, ih hnodup]
      constructor
      · rintro ⟨hmem, hhash⟩
        exact ⟨List.mem_append_left _ hmem, hhash⟩
      · rintro ⟨hmem, hhash⟩
        rcases List.mem_append.mp hmem with hmem | hmem
        · exact ⟨hmem, hhash⟩
        · exact absurd ((List.mem_singleton.mp hmem) ▸ hhash.symm) heq

end Focil

end Eth2077
