import Eth2077.Node.DaemonRuns
import Eth2077.Node.Numbers

/-!
# Payloads by root and by slot (`node/src/bin/eth2077-devnetd.rs`, `engine_getPayload*V1`)

The first parameter of a query is tried as a slot and then as the root of a payload. A root is the text of 32 bytes,
which is a number as well; one that is small enough to be a slot is taken for that slot.
-/

namespace Eth2077

namespace Engine7732

/-! ### Roots -/

/-- The text of 32 bytes as the node writes it. -/
def IsRoot (root : String) : Prop :=
  ∃ digits, root.toList = '0' :: 'x' :: digits ∧ digits.length = 64 ∧ ∀ c ∈ digits, IsLowerHex c

/-- The root, read as a number. -/
def rootValue (root : String) : ℕ := digitsValue 16 (strip0x root.toList)

theorem isRoot_of_normalizeHash32 {input root : String} (h : normalizeHash32 input = some root) : IsRoot root := by
  simp only [normalizeHash32] at h
  split_ifs at h with hraw
  obtain rfl := Option.some_inj.mp h
  obtain ⟨hlen, hhex⟩ := not_or.mp hraw
  refine ⟨_, String.toList_ofList, ?_, fun c hc => ?_⟩
  · rw [List.length_map]
    exact not_not.mp hlen
  · obtain ⟨d, hd, rfl⟩ := List.mem_map.mp hc
    have hall : (strip0x (trim input.toList)).all isAsciiHexdigit = true := by simpa using hhex
    exact ⟨d, List.all_eq_true.mp hall d hd, rfl⟩

theorem isRoot_bytesToHex (bytes : B256) : IsRoot (bytesToHex bytes.toList) := by
  refine ⟨(hexEncode bytes.toList).toList, ?_, ?_, isLowerHex_of_mem_hexEncode⟩
  · rw [bytesToHex, String.toList_append]
    rfl
  · rw [length_toList_hexEncode, bytes.toList_length]

theorem isRoot_payloadHeaderRoot (env : EngineEnv) (source message : Json) :
    IsRoot (payloadHeaderRoot env source message) := by
  unfold payloadHeaderRoot
  cases hroot : payloadHeaderRootFromValue source with
  | none => exact isRoot_bytesToHex _
  | some root =>
    obtain ⟨input, -, hnormal⟩ := Option.bind_eq_some_iff.mp hroot
    exact isRoot_of_normalizeHash32 hnormal

theorem isRoot_of_parseHeaderRecord {env : EngineEnv} {req : Json} {slot : UInt64} {header : Engine7732HeaderRecord}
    (h : parseHeaderRecord env req slot = .ok (.ok header)) : IsRoot header.payloadHeaderRoot := by
  unfold parseHeaderRecord at h
  split at h
  · cases h
  · dsimp only at h
    split at h
    all_goals
      obtain ⟨bidValueWei, -, h⟩ := except_bind_eq_ok.mp h
      cases h
      exact isRoot_payloadHeaderRoot _ _ _

section Root
variable {root : String}

/-- A root is in normal form. -/
theorem IsRoot.normalizeHash32 (h : IsRoot root) : normalizeHash32 root = some root := by
  obtain ⟨digits, hroot, hlen, hhex⟩ := h
  have htrim : trim root.toList = root.toList := by
    refine trim_of_forall fun c hc => ?_
    rw [hroot, List.mem_cons, List.mem_cons] at hc
    rcases hc with rfl | rfl | hc
    · decide
    · decide
    · exact (hhex c hc).spec.2.2.1
  have hlower : digits.map Char.toLower = digits := by
    conv_rhs => rw [← List.map_id digits]
    exact List.map_congr_left fun c hc => (hhex c hc).spec.2.1
  have hall : digits.all isAsciiHexdigit = true := List.all_eq_true.mpr fun c hc => (hhex c hc).spec.1
  rw [Eth2077.normalizeHash32, htrim, hroot, strip0x, hlower, hall, hlen, ← hroot, String.ofList_toList]
  rfl

theorem IsRoot.parseU64Value (h : IsRoot root) : parseU64Value (.string root) =
    if rootValue root < 2 ^ 64 then some (.ofNat (rootValue root)) else none := by
  obtain ⟨digits, hroot, hlen, hhex⟩ := h
  have hne : digits ≠ [] := List.ne_nil_of_length_pos (by omega)
  have hhexadecimal : fromStrRadix 16 64 digits =
      if digitsValue 16 digits < 2 ^ 64 then some (digitsValue 16 digits) else none :=
    fromStrRadix_digits hne fun c hc => (hhex c hc).spec.1
  -- the `x` of the prefix is no decimal digit
  have hdecimal : fromStrRadix 10 64 ('0' :: 'x' :: digits) = none := rfl
  simp only [Eth2077.parseU64Value, Json.asU64, Json.asStr, Option.none_or, Option.bind_some, parseHexU64, rootValue, hroot,
    strip0x, hhexadecimal, hdecimal, Option.map_none, Option.or_none]
  split_ifs <;> rfl

end Root

/-! ### Queries -/

open Rpc Daemon

section Query
variable (R : Revm) (env : RpcEnv) (node : DaemonState R.Db)

/-- The answer of `method` about the payload or the slot that `first` names, at time `now`. -/
def ask (method : String) (first : Json) (now : UInt64) : Except Panic (Json × DaemonState R.Db) :=
  Rpc.handleJsonrpc R env node (request method [first, u64Json now])

/-- The queries about the header's root and about its slot have the same answers. -/
def SameAnswers (header : Engine7732HeaderRecord) (now : UInt64) : Prop :=
  ∀ method ∈ ["engine_getPayloadTimelinessV1", "engine_getPayloadPenaltyV1"],
    ask R env node method (.string header.payloadHeaderRoot) now = ask R env node method (u64Json header.slot) now

variable {R env node}

/-- The slot the first parameter comes down to. -/
def namedSlot {Db : Type} (state : NodeState Db) (first : Json) : UInt64 :=
  let root := normalizeHash32Value (some first)
  (((parseU64Value first).or ((root.bind state.engine7732HeadersByRoot.lookup).map Engine7732HeaderRecord.slot)).or
    ((root.bind state.engine7732EnvelopesByRoot.lookup).map Engine7732EnvelopeRecord.slot)).getD (fallbackSlot state)

theorem parseU64Value_u64Json (n : UInt64) : parseU64Value (u64Json n) = some n := by
  have hfits : (0 : ℤ) ≤ (n.toNat : ℤ) ∧ (n.toNat : ℤ) < 2 ^ 64 :=
    ⟨Int.natCast_nonneg _, by exact_mod_cast n.toNat_lt⟩
  simp only [parseU64Value, u64Json, Json.asU64, hfits, and_self, if_true, Int.toNat_natCast, UInt64.ofNat_toNat,
    Option.some_or]

section Request
variable {method : String} {first : Json} {now : UInt64}

theorem numberParam_request {key : String} {params : List Json} {i : ℕ} {value : Json}
    (hkey : (request method params).get key = none) (hi : params[i]? = some value) :
    numberParam (request method params) key i = parseU64Value value := by
  have hparam : Focil.requestParam (request method params) i = params[i]? := rfl
  rw [numberParam, hkey, hparam, hi, Option.bind_none, Option.none_or, Option.bind_some]

theorem queriedSlot_request {Db : Type} (state : NodeState Db) :
    queriedSlot state (request method [first, u64Json now]) = namedSlot state first := by
  have hroot : rootFromReq (request method [first, u64Json now]) = normalizeHash32Value (some first) := rfl
  rw [queriedSlot, numberParam_request rfl rfl, hroot]
  rfl

theorem currentUnixS_request :
    currentUnixSFromReqWithParam (request method [first, u64Json now]) 1 = some now := by
  rw [currentUnixSFromReqWithParam, numberParam_request rfl rfl, parseU64Value_u64Json]

theorem ask_timeliness (first : Json) (now : UInt64) :
    ask R env node "engine_getPayloadTimelinessV1" first now =
      .ok (toJson (.number 1) (.result (slotStatusResponse env.engine node.toNodeState
        (namedSlot node.toNodeState first) now)), node) := by
  have hhandle : ask R env node "engine_getPayloadTimelinessV1" first now =
      .ok (toJson (.number 1) (.result (getPayloadTimelinessResponse env.engine node.toNodeState
        (request "engine_getPayloadTimelinessV1" [first, u64Json now]))), node) := rfl
  rw [hhandle, getPayloadTimelinessResponse, queriedSlot_request, currentUnixS_request, Option.getD_some]

theorem ask_penalty (first : Json) (now : UInt64) :
    ask R env node "engine_getPayloadPenaltyV1" first now =
      .ok (toJson (.number 1) (.result (penaltySlotSnapshot env.engine node.toNodeState
        (namedSlot node.toNodeState first) now)), node) := by
  have hhandle : ask R env node "engine_getPayloadPenaltyV1" first now =
      .ok (toJson (.number 1) (.result (getPayloadPenaltyResponse env.engine node.toNodeState
        (request "engine_getPayloadPenaltyV1" [first, u64Json now]))), node) := rfl
  rw [hhandle, getPayloadPenaltyResponse, queriedSlot_request, currentUnixS_request, Option.getD_some]

end Request

/-- Each answer names its slot, so the answers tell the slots apart. -/
theorem sameAnswers_iff {header : Engine7732HeaderRecord} {now : UInt64} : SameAnswers R env node header now ↔
    namedSlot node.toNodeState (.string header.payloadHeaderRoot) = header.slot := by
  have hslot : namedSlot node.toNodeState (u64Json header.slot) = header.slot := by
    rw [namedSlot, parseU64Value_u64Json, Option.some_or, Option.some_or, Option.getD_some]
  constructor
  · intro h
    have htimeliness := h "engine_getPayloadTimelinessV1" (List.mem_cons_self ..)
    rw [ask_timeliness, ask_timeliness, hslot] at htimeliness
    have hanswer := congrArg (fun answer => ((Prod.fst answer).get "result").bind fun result => result.get "slot")
      (Except.ok.inj htimeliness)
    exact UInt64.toNat_inj.mp (hexNat_injective (Json.string.inj (Option.some_inj.mp hanswer)))
  · intro h method hmethod
    simp only [List.mem_cons, List.not_mem_nil, or_false] at hmethod
    rcases hmethod with rfl | rfl
    · rw [ask_timeliness, ask_timeliness, hslot, h]
    · rw [ask_penalty, ask_penalty, hslot, h]

/-- A registered root is taken for its header, unless it is small enough for a slot. -/
theorem namedSlot_root {Db : Type} {state : NodeState Db} {root : String} {header : Engine7732HeaderRecord}
    (hroot : IsRoot root) (hheader : state.engine7732HeadersByRoot.lookup root = some header) :
    namedSlot state (.string root) =
      if rootValue root < 2 ^ 64 then .ofNat (rootValue root) else header.slot := by
  have hnormal : normalizeHash32Value (some (.string root)) = some root := hroot.normalizeHash32
  rw [namedSlot, hroot.parseU64Value, hnormal, Option.bind_some, hheader]
  split_ifs <;> rfl

end Query

/-! ### Runs -/

/-- A header is filed under its root, and that is one. -/
def HeadersFiled (l : Ledger) : Prop :=
  ∀ root header, l.headersByRoot.lookup root = some header → header.payloadHeaderRoot = root ∧ IsRoot root

theorem headersFiled_step {R : Revm} {node node' : DaemonState R.Db} {e : Event} (hinv : HeadersFiled (ledger node))
    (h : Daemon.step R node e = some node') : HeadersFiled (ledger node') := by
  rcases step_cases h with ⟨now, rfl, rfl⟩ | ⟨-, heq⟩ | ⟨hash, tx, receipts, -, -, heq⟩ | ⟨receipts, heq⟩ |
    ⟨env, req, header, hparse, heq⟩
  · exact hinv
  · rw [heq]
    exact hinv
  · rw [heq]
    exact hinv
  · rw [heq]
    exact hinv
  · rw [heq]
    intro root filed hfiled
    by_cases hroot : root = header.payloadHeaderRoot
    · rw [hroot] at hfiled ⊢
      obtain rfl := Option.some_inj.mp ((AList.lookup_insert _).symm.trans hfiled)
      exact ⟨rfl, isRoot_of_parseHeaderRecord hparse⟩
    · exact hinv root filed ((AList.lookup_insert_ne hroot).symm.trans hfiled)

/-- In every state the node can be in, a header can be asked for by its root and by its slot alike if and only if the
root is too large for a slot, or is the slot. -/
theorem root_slot_queries_iff (R : Revm) {start node : DaemonState R.Db} (hstart : Started R start) {events : List Event}
    (hrun : Run.exec (Daemon.step R) start events = some node) {root : String} {header : Engine7732HeaderRecord}
    (hheader : node.engine7732HeadersByRoot.lookup root = some header) (env : RpcEnv) (now : UInt64) :
    SameAnswers R env node header now ↔
      2 ^ 64 ≤ rootValue header.payloadHeaderRoot ∨ rootValue header.payloadHeaderRoot = header.slot.toNat := by
  have hinit : HeadersFiled (ledger start) := by
    rw [hstart.ledger_eq]
    exact nofun
  have hinv : HeadersFiled (ledger node) :=
    Run.invariant (I := fun m => HeadersFiled (ledger m)) hinit (fun m e m' hm hm' => headersFiled_step hm hm') hrun
  obtain ⟨rfl, hroot⟩ := hinv root header hheader
  rw [sameAnswers_iff, namedSlot_root hroot hheader]
  split_ifs with hsmall
  · rw [← UInt64.toNat_inj, UInt64.toNat_ofNat_of_lt' hsmall, or_iff_right (Nat.not_le.mpr hsmall)]
  · exact iff_of_true rfl (.inl (Nat.not_lt.mp hsmall))

def registerRun (root : String) : List Event :=
  [.engine releaseEnv "registerExecutionPayloadHeaderV1" (rootRequest "payloadHeader" root 5)]

theorem root_slot_queries_some_root : ∃ node header,
    Run.exec (Daemon.step accountsOnly) (startedNode accountsOnly) (registerRun someRoot) = some node ∧
    node.engine7732HeadersByRoot.lookup someRoot = some header ∧ header.slot = 5 ∧
    SameAnswers accountsOnly releaseEnv node header 1772409700 := by
  have hregistered : ∃ node header,
      Run.exec (Daemon.step accountsOnly) (startedNode accountsOnly) (registerRun someRoot) = some node ∧
      node.engine7732HeadersByRoot.lookup someRoot = some header ∧ header.slot = 5 ∧
      header.payloadHeaderRoot = someRoot := ⟨_, _, rfl, rfl, rfl, rfl⟩
  obtain ⟨node, header, hrun, hheader, hslot, hroot⟩ := hregistered
  refine ⟨node, header, hrun, hheader, hslot, ?_⟩
  refine (root_slot_queries_iff accountsOnly (started_startedNode accountsOnly) hrun hheader releaseEnv
    1772409700).mpr (.inl ?_)
  rw [hroot]
  exact (by decide : 2 ^ 64 ≤ rootValue someRoot)

/-- A root with the number 7. -/
def smallRoot : String := "0x0000000000000000000000000000000000000000000000000000000000000007"

/-- The header of slot 5 under the root of number 7 is asked for by its root, and the answer is about slot 7. -/
theorem small_root_names_slot : ∃ node header,
    Run.exec (Daemon.step accountsOnly) (startedNode accountsOnly) (registerRun smallRoot) = some node ∧
    node.engine7732HeadersByRoot.lookup smallRoot = some header ∧ header.slot = 5 ∧
    namedSlot node.toNodeState (.string smallRoot) = 7 ∧
    ¬ SameAnswers accountsOnly releaseEnv node header 1772409700 := by
  have hvalue : rootValue smallRoot = 7 := by decide +kernel
  have hseven : parseU64Value (.string smallRoot) = some 7 := by
    have hnormal : normalizeHash32 smallRoot = some smallRoot := by decide
    rw [(isRoot_of_normalizeHash32 hnormal).parseU64Value, hvalue]
    rfl
  have hregistered : ∃ node header,
      Run.exec (Daemon.step accountsOnly) (startedNode accountsOnly) (registerRun smallRoot) = some node ∧
      node.engine7732HeadersByRoot.lookup smallRoot = some header ∧ header.slot = 5 ∧
      header.payloadHeaderRoot = smallRoot := ⟨_, _, rfl, rfl, rfl, rfl⟩
  obtain ⟨node, header, hrun, hheader, hslot, hroot⟩ := hregistered
  have hnamed : namedSlot node.toNodeState (.string smallRoot) = 7 := by
    rw [namedSlot, hseven, Option.some_or, Option.some_or, Option.getD_some]
  refine ⟨node, header, hrun, hheader, hslot, hnamed, fun h => ?_⟩
  have hsame := sameAnswers_iff.mp h
  rw [hroot, hnamed, hslot] at hsame
  exact absurd hsame (by decide)

end Engine7732

end Eth2077
