import Eth2077.Node.Parse

/-!
# Payload headers and envelopes (`node/src/bin/eth2077-devnetd.rs`, `engine_7732_*`)

Builders register the header of a payload and, later or earlier, the envelope that reveals it. The node
indexes headers by slot and by root, and envelopes by root, and judges a slot by which of its headers
have been revealed in time.
-/

namespace Eth2077

/-- What the engine handlers use besides the node and the request. -/
structure EngineEnv where
  keccak256 : List UInt8 → B256
  /-- `serde_json::to_string`. -/
  jsonText : Json → Option String
  /-- `now_unix_s`. -/
  now : UInt64
  envelopeOrder : IterOrder String

namespace TimelinessStatus

def text : TimelinessStatus → String
  | unknown => "UNKNOWN"
  | orphanEnvelope => "ORPHAN_ENVELOPE"
  | lateReveal => "LATE_REVEAL"
  | revealed => "REVEALED"
  | withheld => "WITHHELD"
  | partialWithhold => "PARTIAL_WITHHOLD"
  | headerOnly => "HEADER_ONLY"
  | partialReveal => "PARTIAL_REVEAL"

/-- `engine_7732_is_timeliness_violation`. -/
def isViolation : TimelinessStatus → Bool
  | withheld | partialWithhold | lateReveal => true
  | _ => false

end TimelinessStatus

def PenaltyState.text : PenaltyState → String
  | active => "ACTIVE"
  | recovered => "RECOVERED"

namespace Engine7732

variable (env : EngineEnv)

/-! ### Requests -/

/-- The object a registration is about: under one of `keys`, or the first parameter. -/
def source (keys : List String) (req : Json) : Option Json :=
  (req.getFirst keys).or ((req.get "params").bind fun params => params.param 0)

def payloadHeaderSource (req : Json) : Option Json :=
  source ["payloadHeader", "signedExecutionPayloadHeader", "executionPayloadHeader"] req

def payloadEnvelopeSource (req : Json) : Option Json :=
  source ["payloadEnvelope", "signedExecutionPayloadEnvelope", "executionPayloadEnvelope"] req

def payloadHeaderRootFromValue (value : Json) : Option String :=
  let message := (value.get "message").getD value
  normalizeHash32Value (message.getFirst
    ["payloadHeaderRoot", "executionPayloadHeaderRoot", "headerRoot", "payloadRoot", "root"])

/-- The root a request names, or else the hash of its message. -/
def payloadHeaderRoot (source message : Json) : String :=
  (payloadHeaderRootFromValue source).getD
    (bytesToHex (env.keccak256 (asBytes ((env.jsonText message).getD "\x7b\x7d"))).toList)

def requestSlot (req message : Json) : Option UInt64 :=
  ((message.get "slot").bind parseU64Value).or ((req.get "slot").bind parseU64Value)

/-- An address in canonical form, any other text as it is. -/
def party (value : Option Json) : Option String :=
  (value.bind Json.asStr).map fun raw => (canonicalAddress raw).getD raw

def parseHeaderRecord (req : Json) (fallbackSlot : UInt64) :
    Except Panic (Except String Engine7732HeaderRecord) :=
  match payloadHeaderSource req with
  | none => .ok (.error "missing payload header object")
  | some source => do
    let message := (source.get "message").getD source
    let bidValueWei ← match message.getFirst ["bidValue", "bidValueWei"] with
      | some value => parseU256Value value
      | none => .ok none
    return .ok
      { slot := (requestSlot req message).getD fallbackSlot
        payloadHeaderRoot := payloadHeaderRoot env source message
        parentBeaconBlockRoot := normalizeHash32Value (message.getFirst ["parentBeaconBlockRoot", "parentRoot"])
        executionBlockHash := normalizeHash32Value (message.getFirst ["executionBlockHash", "blockHash"])
        proposer := party (message.getFirst ["proposer", "proposerAddress", "builder"])
        bidValueWei := bidValueWei
        viewId := (message.getFirst ["viewId", "view"]).bind parseU64Value
        receivedAtUnixS :=
          (((req.get "receivedAtUnixS").or (message.get "receivedAtUnixS")).bind parseU64Value).getD env.now }

def parseEnvelopeRecord (req : Json) (fallbackSlot : UInt64) : Except String Engine7732EnvelopeRecord :=
  match payloadEnvelopeSource req with
  | none => .error "missing payload envelope object"
  | some source =>
    let message := (source.get "message").getD source
    .ok
      { slot := (requestSlot req message).getD fallbackSlot
        payloadHeaderRoot := payloadHeaderRoot env source message
        executionBlockHash := normalizeHash32Value (message.getFirst ["executionBlockHash", "blockHash"])
        payloadBodyHash := normalizeHash32Value (message.getFirst ["payloadBodyHash", "payloadHash", "bodyRoot"])
        signer := party (message.getFirst ["signer", "builder", "revealer"])
        dataAvailable := ((message.get "dataAvailable").bind Json.asBool).getD true
        revealedAtUnixS :=
          (((req.get "revealedAtUnixS").or (message.get "revealedAtUnixS")).bind parseU64Value).getD env.now }

/-! ### Answers -/

def headerToJson (header : Engine7732HeaderRecord) : Json :=
  .object
    [("slot", hexU64 header.slot), ("payloadHeaderRoot", .string header.payloadHeaderRoot),
      ("parentBeaconBlockRoot", .ofOption .string header.parentBeaconBlockRoot),
      ("executionBlockHash", .ofOption .string header.executionBlockHash),
      ("proposer", .ofOption .string header.proposer),
      ("bidValue", .ofOption (fun v => .string (hexNat v.toNat)) header.bidValueWei),
      ("viewId", .ofOption hexU64 header.viewId), ("receivedAtUnixS", u64Json header.receivedAtUnixS)]

def envelopeToJson (envelope : Engine7732EnvelopeRecord) : Json :=
  .object
    [("slot", hexU64 envelope.slot), ("payloadHeaderRoot", .string envelope.payloadHeaderRoot),
      ("executionBlockHash", .ofOption .string envelope.executionBlockHash),
      ("payloadBodyHash", .ofOption .string envelope.payloadBodyHash),
      ("signer", .ofOption .string envelope.signer), ("dataAvailable", .bool envelope.dataAvailable),
      ("revealedAtUnixS", u64Json envelope.revealedAtUnixS)]

def penaltyToJson (record : Engine7732PenaltyRecord) : Json :=
  .object
    [("slot", hexU64 record.slot), ("state", .string record.state.text), ("reason", .string record.reason),
      ("lastStatus", .string record.lastStatus.text), ("activatedAtUnixS", u64Json record.activatedAtUnixS),
      ("recoveredAtUnixS", .ofOption u64Json record.recoveredAtUnixS)]

def headerConflicts (existing incoming : Engine7732HeaderRecord) : Bool :=
  existing.slot != incoming.slot || existing.payloadHeaderRoot != incoming.payloadHeaderRoot ||
    existing.parentBeaconBlockRoot != incoming.parentBeaconBlockRoot ||
    existing.executionBlockHash != incoming.executionBlockHash || existing.proposer != incoming.proposer ||
    existing.bidValueWei != incoming.bidValueWei || existing.viewId != incoming.viewId

def envelopeConflicts (existing incoming : Engine7732EnvelopeRecord) : Bool :=
  existing.slot != incoming.slot || existing.payloadHeaderRoot != incoming.payloadHeaderRoot ||
    existing.executionBlockHash != incoming.executionBlockHash ||
    existing.payloadBodyHash != incoming.payloadBodyHash || existing.signer != incoming.signer ||
    existing.dataAvailable != incoming.dataAvailable

section State
variable {Db : Type} (state : NodeState Db)

/-! ### The status of a slot -/

def slotDeadlineUnixS (slot : UInt64) : UInt64 :=
  (state.startedAtUnixS.saturatingAdd (slot.saturatingMul 12)).saturatingAdd 12

/-- What `engine_7732_slot_status_response` reports. -/
structure SlotStatus where
  slot : UInt64
  aggregateStatus : TimelinessStatus
  headerRoots : List String
  revealedOnTime : List String
  lateReveals : List String
  pendingReveals : List String
  orphanEnvelopes : List String
  deadlineUnixS : UInt64
  currentUnixS : UInt64
  deadlinePassed : Bool
  penalty : Option Engine7732PenaltyRecord

def slotStatus (slot currentUnixS : UInt64) : SlotStatus :=
  let headerRoots := (state.engine7732HeadersBySlot.lookup slot).getD []
  let deadline := slotDeadlineUnixS state slot
  let deadlinePassed := decide (deadline < currentUnixS)
  let revealedOnTime := headerRoots.filter fun root =>
    (state.engine7732EnvelopesByRoot.lookup root).any fun env => env.revealedAtUnixS ≤ deadline
  let lateReveals := headerRoots.filter fun root =>
    (state.engine7732EnvelopesByRoot.lookup root).any fun env => deadline < env.revealedAtUnixS
  let pendingReveals := headerRoots.filter fun root => (state.engine7732EnvelopesByRoot.lookup root).isNone
  let orphanRoots := (env.envelopeOrder.order state.engine7732EnvelopesByRoot.keys).filter fun root =>
    (state.engine7732EnvelopesByRoot.lookup root).any fun env =>
      env.slot = slot ∧ (state.engine7732HeadersByRoot.lookup env.payloadHeaderRoot).isNone
  let aggregateStatus : TimelinessStatus :=
    if headerRoots = [] ∧ orphanRoots = [] then .unknown
    else if headerRoots = [] ∧ orphanRoots ≠ [] then .orphanEnvelope
    else if pendingReveals = [] ∧ lateReveals ≠ [] then .lateReveal
    else if pendingReveals = [] then .revealed
    else if deadlinePassed ∧ revealedOnTime = [] ∧ lateReveals = [] then .withheld
    else if deadlinePassed then .partialWithhold
    else if revealedOnTime = [] then .headerOnly
    else .partialReveal
  { slot, aggregateStatus, headerRoots, revealedOnTime, lateReveals, pendingReveals
    orphanEnvelopes := orphanRoots, deadlineUnixS := deadline, currentUnixS, deadlinePassed
    penalty := state.engine7732PenaltiesBySlot.lookup slot }

def slotStatusResponse (slot currentUnixS : UInt64) : Json :=
  let status := slotStatus env state slot currentUnixS
  let strings (l : List String) : Json := .array (l.map .string)
  .object
    [("slot", hexU64 slot), ("aggregateStatus", .string status.aggregateStatus.text),
      ("headerRoots", strings status.headerRoots), ("revealedOnTime", strings status.revealedOnTime),
      ("lateReveals", strings status.lateReveals), ("pendingReveals", strings status.pendingReveals),
      ("orphanEnvelopes", strings status.orphanEnvelopes),
      ("headerCount", .string (hexNat status.headerRoots.length)),
      ("revealedCount", .string (hexNat (status.headerRoots.countP fun root =>
        (state.engine7732EnvelopesByRoot.lookup root).isSome))),
      ("lateRevealCount", .string (hexNat status.lateReveals.length)),
      ("deadlineUnixS", u64Json status.deadlineUnixS), ("currentUnixS", u64Json currentUnixS),
      ("deadlinePassed", .bool status.deadlinePassed), ("penalty", .ofOption penaltyToJson status.penalty)]

/-! ### Penalties -/

def updatePenaltyState (slot : UInt64) (status : TimelinessStatus) (reason : String) (currentUnixS : UInt64) :
    Option Engine7732PenaltyRecord × NodeState Db :=
  if status.isViolation then
    let record := (state.engine7732PenaltiesBySlot.lookup slot).getD
      ⟨slot, .active, reason, status, currentUnixS, none⟩
    let record :=
      if record.state ≠ .active then { record with activatedAtUnixS := currentUnixS, recoveredAtUnixS := none }
      else record
    let record := { record with state := .active, reason := reason, lastStatus := status }
    (some record,
      { state with engine7732PenaltiesBySlot := AList.insert slot record state.engine7732PenaltiesBySlot })
  else
    match state.engine7732PenaltiesBySlot.lookup slot with
    | none => (none, state)
    | some existing =>
      let existing := { existing with lastStatus := status }
      let existing :=
        if existing.state ≠ .recovered then
          { existing with state := .recovered, reason := reason, recoveredAtUnixS := some currentUnixS }
        else existing
      (some existing,
        { state with engine7732PenaltiesBySlot := AList.insert slot existing state.engine7732PenaltiesBySlot })

/-! ### Registration -/

def fallbackSlot : UInt64 := state.currentHeight.saturatingAdd 1

/-- `entry(slot).or_default()`, then `push` unless the root is there. -/
def pushRoot (roots : HashMap UInt64 (List String)) (slot : UInt64) (root : String) :
    HashMap UInt64 (List String) :=
  let slotRoots := (roots.lookup slot).getD []
  if root ∈ slotRoots then roots else AList.insert slot (slotRoots ++ [root]) roots

def invalid (err : String) (fields : List (String × Json)) : Json :=
  .object ([("status", .string "INVALID"), ("validationError", .string err)] ++ fields)

def registerHeader (header : Engine7732HeaderRecord) : Json × NodeState Db :=
  let root := header.payloadHeaderRoot
  let accepted (replayStatus : String) (header : Engine7732HeaderRecord)
      (headersBySlot : HashMap UInt64 (List String)) : Json :=
    .object
      [("status", .string "ACCEPTED"), ("replayStatus", .string replayStatus), ("slot", hexU64 header.slot),
        ("payloadHeaderRoot", .string root),
        ("knownHeadersAtSlot", .string (hexNat ((headersBySlot.lookup header.slot).getD []).length)),
        ("header", headerToJson header)]
  match state.engine7732HeadersByRoot.lookup root with
  | some existing =>
    if headerConflicts existing header then
      (invalid s!"conflicting header replay for root {root}"
        [("existingHeader", headerToJson existing), ("incomingHeader", headerToJson header)], state)
    else
      let headersBySlot := pushRoot state.engine7732HeadersBySlot existing.slot root
      (accepted "DUPLICATE" existing headersBySlot, { state with engine7732HeadersBySlot := headersBySlot })
  | none =>
    let headersBySlot := pushRoot state.engine7732HeadersBySlot header.slot root
    (accepted "NEW" header headersBySlot,
      { state with
        engine7732HeadersByRoot := AList.insert root header state.engine7732HeadersByRoot
        engine7732HeadersBySlot := headersBySlot })

def registerPayloadHeaderResponse (req : Json) : Except Panic (Json × NodeState Db) := do
  match ← parseHeaderRecord env req (fallbackSlot state) with
  | .ok header => return registerHeader state header
  | .error err => return (invalid err [], state)

def registerEnvelope (envelope : Engine7732EnvelopeRecord) : Json × NodeState Db :=
  let root := envelope.payloadHeaderRoot
  let slot := envelope.slot
  let header := state.engine7732HeadersByRoot.lookup root
  let linkageStatus := if header.isSome then "LINKED" else "ORPHAN"
  let accepted (replayStatus : String) (envelope : Engine7732EnvelopeRecord) : Json :=
    .object
      [("status", .string "ACCEPTED"), ("replayStatus", .string replayStatus), ("slot", hexU64 envelope.slot),
        ("payloadHeaderRoot", .string root), ("linkageStatus", .string linkageStatus),
        ("envelope", envelopeToJson envelope)]
  match header.filter fun header => header.slot ≠ slot with
  | some header =>
    (invalid (s!"envelope slot mismatch for root {root}: header slot {header.slot}, envelope slot {slot}") [],
      state)
  | none =>
    match state.engine7732EnvelopesByRoot.lookup root with
    | some existing =>
      if envelopeConflicts existing envelope then
        (invalid s!"conflicting envelope replay for root {root}"
          [("existingEnvelope", envelopeToJson existing), ("incomingEnvelope", envelopeToJson envelope)], state)
      else (accepted "DUPLICATE" existing, state)
    | none =>
      (accepted "NEW" envelope,
        { state with engine7732EnvelopesByRoot := AList.insert root envelope state.engine7732EnvelopesByRoot })

def registerPayloadEnvelopeResponse (req : Json) : Json × NodeState Db :=
  match parseEnvelopeRecord env req (fallbackSlot state) with
  | .ok envelope => registerEnvelope state envelope
  | .error err => (invalid err [], state)

end State

end Engine7732

end Eth2077
