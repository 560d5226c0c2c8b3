import Mathlib.Data.List.Induction
import Mathlib.Data.List.Sort
import Mathlib.Algebra.GroupWithZero.Nat
import Mathlib.Data.Set.Lattice
import Mathlib.Order.CompletePartialOrder
import Eth2077.Prim

/-!
# Transaction lanes (`execution/src/eip8142.rs`)

Transactions are grouped into lanes, within the capacity of each lane and such that transactions of one lane
share no state key. Within a lane conflicts are found by an index of who touched a key first, across lanes by
comparing every pair.
-/

namespace Eth2077

namespace Eip8142

/-- A set is a map to `()`. -/
abbrev KeySet := HashMap B256 Unit

inductive LaneId where
  | transfer
  | tokenOps
  | deFi
  | stateHeavy
  | systemOps
  | blobCarrying
  | uncategorized
deriving DecidableEq

structure LaneAssignment where
  txHash : B256
  assignedLane : LaneId
  stateKeysAccessed : List B256
  conflictSet : KeySet
  gasEstimate : UInt64

inductive LaneAssignmentError where
  | emptyTransaction
  | conflictDetected (txA txB conflictingKey : B256)
  | laneCapacityExceeded (lane : LaneId) (current max : ℕ)
  | invalidStateKeys

structure LaneConfig where
  maxTxsPerLane : ℕ
  maxTotalGasPerLane : UInt64
  enableConflictDetection : Bool
  parallelLanes : ℕ

def defaultLaneConfig : LaneConfig where
  maxTxsPerLane := 128
  maxTotalGasPerLane := 15000000
  enableConflictDetection := true
  parallelLanes := 4

/-- `HashSet::extend`. -/
def extendKeys (keys : KeySet) (more : List B256) : KeySet := more.foldl (fun keys key => AList.insert key () keys) keys

def normalizeKeys (assignment : LaneAssignment) : Except LaneAssignmentError KeySet :=
  if FixedBytes.zero ∈ assignment.stateKeysAccessed ++ assignment.conflictSet.keys then .error .invalidStateKeys
  else .ok (extendKeys (extendKeys ∅ assignment.stateKeysAccessed) assignment.conflictSet.keys)

/-! ### Within the lanes -/

/-- The variables of the loop in `assign_to_lanes`. -/
structure Lanes where
  grouped : HashMap LaneId (List ℕ)
  laneGas : HashMap LaneId UInt64
  laneKeys : HashMap LaneId (HashMap B256 B256)
  errors : List LaneAssignmentError

/-- A transaction touches a key: the first one owns it. -/
def touchKey (txHash : B256) (acc : HashMap B256 B256 × List LaneAssignmentError) (key : B256) :
    HashMap B256 B256 × List LaneAssignmentError :=
  match acc.1.lookup key with
  | some existingTx =>
    if existingTx ≠ txHash then (acc.1, acc.2 ++ [.conflictDetected existingTx txHash key]) else acc
  | none => (AList.insert key txHash acc.1, acc.2)

section Loop
variable (config : LaneConfig) (order : IterOrder B256)

/-- The loop body from the keys of the assignment on. -/
def Lanes.enter (acc : Lanes) (index : ℕ) (assignment : LaneAssignment) (normalizedKeys : KeySet) : Lanes :=
  let lane := assignment.assignedLane
  let laneEntries := (acc.grouped.lookup lane).getD []
  let nextCount := laneEntries.length + 1
  let errors :=
    if config.maxTxsPerLane < nextCount then
      acc.errors ++ [.laneCapacityExceeded lane nextCount config.maxTxsPerLane]
    else acc.errors
  let laneTotalGas := (acc.laneGas.lookup lane).getD 0
  let nextGas := laneTotalGas.saturatingAdd assignment.gasEstimate
  let errors :=
    if config.maxTotalGasPerLane < nextGas then
      errors ++ [.laneCapacityExceeded lane nextGas.toNat config.maxTotalGasPerLane.toNat]
    else errors
  let (laneKeys, errors) :=
    if config.enableConflictDetection then
      let (keyIndex, errors) := (order.order normalizedKeys.keys).foldl (touchKey assignment.txHash)
        ((acc.laneKeys.lookup lane).getD ∅, errors)
      (AList.insert lane keyIndex acc.laneKeys, errors)
    else (acc.laneKeys, errors)
  { grouped := AList.insert lane (laneEntries ++ [index]) acc.grouped
    laneGas := AList.insert lane nextGas acc.laneGas
    laneKeys, errors }

def Lanes.assign (acc : Lanes) (index : ℕ) (assignment : LaneAssignment) : Lanes :=
  if assignment.txHash = FixedBytes.zero then { acc with errors := acc.errors ++ [.emptyTransaction] }
  else
    match normalizeKeys assignment with
    | .error err => { acc with errors := acc.errors ++ [err] }
    | .ok normalizedKeys => acc.enter config order index assignment normalizedKeys

end Loop

/-- The loop over the assignments, from `index` on; `orders` are the orders in which their sets are traversed. -/
def assignFrom (config : LaneConfig) (orders : ℕ → IterOrder B256) : ℕ → Lanes → List LaneAssignment → Lanes
  | _, acc, [] => acc
  | index, acc, assignment :: rest =>
    assignFrom config orders (index + 1) (acc.assign config (orders index) index assignment) rest

def assignToLanes (orders : ℕ → IterOrder B256) (assignments : List LaneAssignment) (config : LaneConfig) :
    Except (List LaneAssignmentError) (HashMap LaneId (List ℕ)) :=
  let acc := assignFrom config orders 0 ⟨∅, ∅, ∅, []⟩ assignments
  match acc.errors with
  | [] => .ok acc.grouped
  | errors => .error errors

/-! ### Across the lanes -/

/-- The derived order of `[u8; 32]`. -/
def KeyLE (a b : B256) : Prop := a.toList ≤ b.toList

instance (a b : B256) : Decidable (KeyLE a b) := inferInstanceAs (Decidable (a.toList ≤ b.toList))

/-- The first key, in sorted order, that two assignments of different lanes share. -/
def crossLaneConflict (a b : LaneAssignment × KeySet) : Option B256 :=
  if a.1.assignedLane = b.1.assignedLane then none
  else (a.2.keys.insertionSort KeyLE).find? fun key => key ∈ b.2

def detectCrossLaneConflicts (assignments : List LaneAssignment) : List (ℕ × ℕ × B256) :=
  let normalized := assignments.map fun a => (a, match normalizeKeys a with | .ok keys => keys | .error _ => ∅)
  (List.range assignments.length).flatMap fun i =>
    (List.range' (i + 1) (assignments.length - (i + 1))).filterMap fun j =>
      normalized[i]?.bind fun a => normalized[j]?.bind fun b => (crossLaneConflict a b).map fun key => (i, j, key)

/-! ### What a schedule should be -/

/-- The keys the transaction touches. -/
def keysOf (a : LaneAssignment) : Set B256 := {key | key ∈ a.stateKeysAccessed ∨ key ∈ a.conflictSet}

section Spec
variable (assignments : List LaneAssignment) (lane : LaneId)

def inLane : List LaneAssignment := assignments.filter fun a => a.assignedLane = lane

/-- The exact gas of a lane. -/
def gasIn : ℕ := ((inLane assignments lane).map fun a => a.gasEstimate.toNat).sum

/-- The places of the assignments of a lane. -/
def indicesIn : List ℕ := (assignments.zipIdx.filter fun x => x.1.assignedLane = lane).map Prod.snd

end Spec

structure Schedulable (config : LaneConfig) (assignments : List LaneAssignment) : Prop where
  hash : ∀ a ∈ assignments, a.txHash ≠ FixedBytes.zero
  keys : ∀ a ∈ assignments, FixedBytes.zero ∉ keysOf a
  count : ∀ lane, (inLane assignments lane).length ≤ config.maxTxsPerLane
  gas : ∀ lane, gasIn assignments lane ≤ config.maxTotalGasPerLane.toNat
  disjoint : ∀ a ∈ assignments, ∀ b ∈ assignments, a.assignedLane = b.assignedLane → a.txHash ≠ b.txHash →
    Disjoint (keysOf a) (keysOf b)

variable {config : LaneConfig} {order : IterOrder B256} {done : List LaneAssignment} {a : LaneAssignment}
  {lane : LaneId} {acc : Lanes}

theorem inLane_concat : inLane (done ++ [a]) lane = inLane done lane ++ if a.assignedLane = lane then [a] else [] := by
  unfold inLane
  split_ifs with h <;> simp [h]

theorem gasIn_concat :
    gasIn (done ++ [a]) lane = gasIn done lane + if a.assignedLane = lane then a.gasEstimate.toNat else 0 := by
  unfold gasIn
  rw [inLane_concat]
  split_ifs <;> simp

theorem indicesIn_concat :
    indicesIn (done ++ [a]) lane = indicesIn done lane ++ if a.assignedLane = lane then [done.length] else [] := by
  unfold indicesIn
  rw [List.zipIdx_append]
  split_ifs with h <;> simp [h]

theorem length_indicesIn : (indicesIn done lane).length = (inLane done lane).length := by
  induction done using List.reverseRecOn with
  | nil => rfl
  | append_singleton done a ih =>
    rw [indicesIn_concat, inLane_concat, List.length_append, List.length_append, ih]
    split_ifs <;> rfl

theorem schedulable_nil : Schedulable config [] :=
  ⟨nofun, nofun, fun _ => Nat.zero_le _, fun _ => Nat.zero_le _, nofun⟩

/-- What one more assignment has to meet. -/
structure Fits (config : LaneConfig) (done : List LaneAssignment) (a : LaneAssignment) : Prop where
  hash : a.txHash ≠ FixedBytes.zero
  keys : FixedBytes.zero ∉ keysOf a
  count : (inLane done a.assignedLane).length + 1 ≤ config.maxTxsPerLane
  gas : gasIn done a.assignedLane + a.gasEstimate.toNat ≤ config.maxTotalGasPerLane.toNat
  disjoint : ∀ b ∈ done, b.assignedLane = a.assignedLane → b.txHash ≠ a.txHash → Disjoint (keysOf b) (keysOf a)

theorem schedulable_concat :
    Schedulable config (done ++ [a]) ↔ Schedulable config done ∧ Fits config done a := by
  refine ⟨fun h => ⟨?_, ?_⟩, fun ⟨hdone, ha⟩ => ?_⟩
  · refine ⟨fun b hb => h.hash b (List.mem_append_left _ hb), fun b hb => h.keys b (List.mem_append_left _ hb),
      fun lane => ?_, fun lane => ?_,
      fun b hb b' hb' => h.disjoint b (List.mem_append_left _ hb) b' (List.mem_append_left _ hb')⟩
    · have := h.count lane
      rw [inLane_concat, List.length_append] at this
      exact Nat.le_of_add_right_le this
    · have := h.gas lane
      rw [gasIn_concat] at this
      exact Nat.le_of_add_right_le this
  · have hmem : a ∈ done ++ [a] := by simp
    refine ⟨h.hash a hmem, h.keys a hmem, ?_, ?_, fun b hb => h.disjoint b (List.mem_append_left _ hb) a hmem⟩
    · simpa [inLane_concat] using h.count a.assignedLane
    · simpa [gasIn_concat] using h.gas a.assignedLane
  · refine ⟨?_, ?_, fun lane => ?_, fun lane => ?_, ?_⟩
    · simpa [or_imp, forall_and] using ⟨hdone.hash, ha.hash⟩
    · simpa [or_imp, forall_and] using ⟨hdone.keys, ha.keys⟩
    · rw [inLane_concat]
      split_ifs with hlane
      · subst hlane
        simpa using ha.count
      · simpa using hdone.count lane
    · rw [gasIn_concat]
      split_ifs with hlane
      · subst hlane
        exact ha.gas
      · exact hdone.gas lane
    · intro b hb b' hb' hlane hne
      rcases List.mem_append.mp hb with hold | hnew <;> rcases List.mem_append.mp hb' with hold' | hnew'
      · exact hdone.disjoint b hold b' hold' hlane hne
      · obtain rfl := List.mem_singleton.mp hnew'
        exact ha.disjoint b hold hlane hne
      · obtain rfl := List.mem_singleton.mp hnew
        exact (ha.disjoint b' hold' hlane.symm hne.symm).symm
      · rw [List.mem_singleton.mp hnew, List.mem_singleton.mp hnew'] at hne
        exact absurd rfl hne

/-! ### Keys -/

theorem mem_extendKeys {keys : KeySet} {more : List B256} {key : B256} :
    key ∈ extendKeys keys more ↔ key ∈ keys ∨ key ∈ more := by
  unfold extendKeys
  induction more generalizing keys with
  | nil => simp
  | cons k more ih =>
    rw [List.foldl_cons, ih, AList.mem_insert, List.mem_cons]
    tauto

/-- The keys are refused if the zero key is among them. -/
theorem normalizeKeys_cases (a : LaneAssignment) :
    (FixedBytes.zero ∈ keysOf a ∧ normalizeKeys a = .error .invalidStateKeys) ∨
    (FixedBytes.zero ∉ keysOf a ∧ ∃ keys, normalizeKeys a = .ok keys ∧ ∀ key, key ∈ keys ↔ key ∈ keysOf a) := by
  have hmem : ∀ key, key ∈ a.stateKeysAccessed ++ a.conflictSet.keys ↔ key ∈ keysOf a := fun key => by
    simp [keysOf, AList.mem_keys]
  unfold normalizeKeys
  split_ifs with hzero
  · exact .inl ⟨(hmem _).mp hzero, rfl⟩
  · refine .inr ⟨fun h => hzero ((hmem _).mpr h), _, rfl, fun key => ?_⟩
    rw [mem_extendKeys, mem_extendKeys, ← hmem]
    simp

/-- Touching keys reports those that another transaction owns, and takes the free ones. -/
theorem foldl_touchKey (txHash : B256) (keys : List B256) (index : HashMap B256 B256)
    (errors : List LaneAssignmentError) :
    ((keys.foldl (touchKey txHash) (index, errors)).2 = [] ↔
      errors = [] ∧ ∀ key ∈ keys, ∀ owner, index.lookup key = some owner → owner = txHash) ∧
    ∀ key, (keys.foldl (touchKey txHash) (index, errors)).1.lookup key =
      (index.lookup key).or (if key ∈ keys then some txHash else none) := by
  induction keys generalizing index errors with
  | nil => exact ⟨by simp, by simp⟩
  | cons k keys ih =>
    rw [List.foldl_cons]
    cases hk : index.lookup k with
    | none =>
      have htouch : touchKey txHash (index, errors) k = (AList.insert k txHash index, errors) := by
        simp [touchKey, hk]
      obtain ⟨hnil, hlookup⟩ := ih (AList.insert k txHash index) errors
      rw [htouch]
      refine ⟨hnil.trans (and_congr_right fun _ => ?_), fun key => ?_⟩
      · simp only [List.mem_cons, forall_eq_or_imp, hk, reduceCtorEq, false_implies, implies_true, true_and]
        refine forall₂_congr fun key _ => ?_
        by_cases hkey : key = k
        · subst hkey
          simp [hk, AList.lookup_insert]
        · rw [AList.lookup_insert_ne hkey]
      · rw [hlookup]
        by_cases hkey : key = k
        · subst hkey
          simp [hk, AList.lookup_insert]
        · rw [AList.lookup_insert_ne hkey]
          simp [hkey]
    | some owner =>
      -- the index stays, and `k` is in it anyway
      have hlook : ∀ key, (index.lookup key).or (if key ∈ keys then some txHash else none) =
          (index.lookup key).or (if key ∈ k :: keys then some txHash else none) := by
        intro key
        by_cases hkey : key = k
        · subst hkey
          simp [hk]
        · simp [hkey]
      by_cases howner : owner = txHash
      · have htouch : touchKey txHash (index, errors) k = (index, errors) := by
          simp [touchKey, hk, howner]
        obtain ⟨hnil, hlookup⟩ := ih index errors
        rw [htouch]
        refine ⟨hnil.trans ?_, fun key => (hlookup key).trans (hlook key)⟩
        simp [hk, howner]
      · have htouch : touchKey txHash (index, errors) k =
            (index, errors ++ [.conflictDetected owner txHash k]) := by
          simp [touchKey, hk, howner]
        obtain ⟨hnil, hlookup⟩ := ih index (errors ++ [.conflictDetected owner txHash k])
        rw [htouch]
        refine ⟨hnil.trans ?_, fun key => (hlookup key).trans (hlook key)⟩
        simp [hk, howner]

/-! ### The loop -/

/-- The owner of a key in a lane. -/
def Lanes.owner (acc : Lanes) (lane : LaneId) (key : B256) : Option B256 :=
  ((acc.laneKeys.lookup lane).getD ∅).lookup key

/-- The loop without errors, after the assignments `done`. -/
structure Tracks (done : List LaneAssignment) (acc : Lanes) : Prop where
  grouped : ∀ lane, (acc.grouped.lookup lane).getD [] = indicesIn done lane
  gas : ∀ lane, ((acc.laneGas.lookup lane).getD 0).toNat = gasIn done lane
  owner : ∀ lane key txHash, acc.owner lane key = some txHash ↔
    ∃ b ∈ done, b.assignedLane = lane ∧ key ∈ keysOf b ∧ b.txHash = txHash

variable {index : ℕ} {keys : KeySet}

theorem report_eq_nil {p : Prop} [Decidable p] {errors : List LaneAssignmentError} {err : LaneAssignmentError} :
    (if p then errors ++ [err] else errors) = [] ↔ errors = [] ∧ ¬ p := by
  by_cases hp : p
  · simp [hp]
  · simp [hp]

/-- When an assignment adds no error. -/
theorem errors_enter (hdetect : config.enableConflictDetection = true) :
    (acc.enter config order index a keys).errors = [] ↔ acc.errors = [] ∧
      ((acc.grouped.lookup a.assignedLane).getD []).length + 1 ≤ config.maxTxsPerLane ∧
      ((acc.laneGas.lookup a.assignedLane).getD 0).saturatingAdd a.gasEstimate ≤ config.maxTotalGasPerLane ∧
      ∀ key ∈ keys, ∀ owner, acc.owner a.assignedLane key = some owner → owner = a.txHash := by
  unfold Lanes.enter
  simp only [hdetect, if_true]
  rw [(foldl_touchKey ..).1, report_eq_nil, report_eq_nil, Nat.not_lt, UInt64.not_lt, and_assoc, and_assoc]
  simp only [IterOrder.mem_order, ← AList.mem_keys]
  rfl

theorem owner_enter (hdetect : config.enableConflictDetection = true) (lane : LaneId) (key : B256) :
    (acc.enter config order index a keys).owner lane key =
      if lane = a.assignedLane then (acc.owner lane key).or (if key ∈ keys then some a.txHash else none)
      else acc.owner lane key := by
  unfold Lanes.enter Lanes.owner
  simp only [hdetect, if_true]
  by_cases hlane : lane = a.assignedLane
  · subst hlane
    rw [AList.lookup_insert, if_pos rfl, Option.getD_some, (foldl_touchKey ..).2]
    simp only [IterOrder.mem_order, ← AList.mem_keys]
  · rw [AList.lookup_insert_ne hlane, if_neg hlane]

theorem saturatingAdd_le_iff {x y bound : UInt64} (hbound : bound < UInt64.ofNat UInt64.maxNat) :
    x.saturatingAdd y ≤ bound ↔ x.toNat + y.toNat ≤ bound.toNat := by
  have hlt : bound.toNat < UInt64.maxNat := by
    rwa [UInt64.lt_iff_toNat_lt, UInt64.toNat_ofNat_of_le le_rfl] at hbound
  rw [UInt64.le_iff_toNat_le, UInt64.toNat_saturatingAdd]
  omega

/-- An assignment with its keys is free of errors if it fits. -/
theorem Tracks.errors_enter (h : Tracks done acc) (hnil : acc.errors = [])
    (hdetect : config.enableConflictDetection = true)
    (hgas : config.maxTotalGasPerLane < UInt64.ofNat UInt64.maxNat) (hhash : a.txHash ≠ FixedBytes.zero)
    (hzero : FixedBytes.zero ∉ keysOf a) (hkeys : ∀ key, key ∈ keys ↔ key ∈ keysOf a) :
    (acc.enter config order index a keys).errors = [] ↔ Fits config done a := by
  have hdisjoint : (∀ key ∈ keys, ∀ owner, acc.owner a.assignedLane key = some owner → owner = a.txHash) ↔
      ∀ b ∈ done, b.assignedLane = a.assignedLane → b.txHash ≠ a.txHash → Disjoint (keysOf b) (keysOf a) := by
    simp only [h.owner, hkeys, Set.disjoint_left]
    refine ⟨fun hown b hb hlane hne key hkey hkey' => hne (hown key hkey' _ ⟨b, hb, hlane, hkey, rfl⟩), ?_⟩
    rintro hdis key hkey _ ⟨b, hb, hlane, hkey', rfl⟩
    by_contra hne
    exact hdis b hb hlane hne hkey' hkey
  rw [Eip8142.errors_enter hdetect, h.grouped, length_indicesIn, saturatingAdd_le_iff hgas, h.gas, hdisjoint]
  refine ⟨fun ⟨_, hcount, hgas, hdis⟩ => ⟨hhash, hzero, hcount, hgas, hdis⟩, fun hfits => ?_⟩
  exact ⟨hnil, hfits.count, hfits.gas, hfits.disjoint⟩

theorem Tracks.concat (h : Tracks done acc) (hdetect : config.enableConflictDetection = true)
    (hkeys : ∀ key, key ∈ keys ↔ key ∈ keysOf a) (hfits : Fits config done a) :
    Tracks (done ++ [a]) (acc.enter config order done.length a keys) := by
  refine ⟨fun lane => ?_, fun lane => ?_, fun lane key txHash => ?_⟩
  · show ((AList.insert a.assignedLane _ acc.grouped).lookup lane).getD [] = _
    rw [indicesIn_concat]
    by_cases hlane : a.assignedLane = lane
    · subst hlane
      rw [AList.lookup_insert, if_pos rfl, ← h.grouped]
      rfl
    · rw [AList.lookup_insert_ne (Ne.symm hlane), if_neg hlane, List.append_nil, h.grouped]
  · show ((AList.insert a.assignedLane _ acc.laneGas).lookup lane |>.getD 0).toNat = _
    rw [gasIn_concat]
    by_cases hlane : a.assignedLane = lane
    · subst hlane
      rw [AList.lookup_insert, if_pos rfl, Option.getD_some, UInt64.toNat_saturatingAdd, h.gas]
      have := hfits.gas
      have := config.maxTotalGasPerLane.toNat_le_maxNat
      omega
    · rw [AList.lookup_insert_ne (Ne.symm hlane), if_neg hlane, Nat.add_zero, h.gas]
  · rw [owner_enter hdetect]
    simp only [List.mem_append, List.mem_singleton, or_and_right, exists_or, exists_eq_left]
    rw [← h.owner lane key txHash]
    by_cases hlane : lane = a.assignedLane
    · subst hlane
      rw [if_pos rfl, ← hkeys]
      cases howner : acc.owner a.assignedLane key with
      | none => simp
      | some owner =>
        -- whoever owns a key of the assignment has its hash
        have hsame : key ∈ keys → owner = a.txHash := fun hkey => by
          obtain ⟨b, hb, hlane, hkey', rfl⟩ := (h.owner _ _ _).mp howner
          by_contra hne
          exact Set.disjoint_left.mp (hfits.disjoint b hb hlane hne) hkey' ((hkeys key).mp hkey)
        simp only [Option.some_or, Option.some_inj, true_and, iff_self_or]
        rintro ⟨hkey, rfl⟩
        exact hsame hkey
    · rw [if_neg hlane]
      simp [Ne.symm hlane]

theorem errors_of_assign (hdetect : config.enableConflictDetection = true)
    (h : (acc.assign config order index a).errors = []) : acc.errors = [] := by
  unfold Lanes.assign at h
  split_ifs at h
  · simp at h
  · split at h
    · simp at h
    · exact ((errors_enter hdetect).mp h).1

/-- The loop is free of errors as long as the assignments can be scheduled. -/
structure Inv (config : LaneConfig) (done : List LaneAssignment) (acc : Lanes) : Prop where
  errors : acc.errors = [] ↔ Schedulable config done
  tracks : acc.errors = [] → Tracks done acc

theorem inv_start : Inv config [] ⟨∅, ∅, ∅, []⟩ := by
  refine ⟨iff_of_true rfl schedulable_nil, fun _ => ⟨fun _ => rfl, fun _ => rfl, fun lane key txHash => ?_⟩⟩
  exact iff_of_false nofun (by simp)

theorem Inv.assign (h : Inv config done acc) (hdetect : config.enableConflictDetection = true)
    (hgas : config.maxTotalGasPerLane < UInt64.ofNat UInt64.maxNat) :
    Inv config (done ++ [a]) (acc.assign config order done.length a) := by
  by_cases herrors : acc.errors = []
  · have htracks := h.tracks herrors
    have hdone := h.errors.mp herrors
    -- an error is an assignment that does not fit
    have hstop : ∀ err, ¬ Fits config done a → Inv config (done ++ [a]) { acc with errors := acc.errors ++ [err] } := by
      intro err hfits
      refine ⟨iff_of_false (by simp) fun hsch => hfits (schedulable_concat.mp hsch).2, fun hnil => ?_⟩
      simp at hnil
    unfold Lanes.assign
    split_ifs with hhash
    · exact hstop _ fun hfits => hfits.hash hhash
    · rcases normalizeKeys_cases a with ⟨hzero, hnorm⟩ | ⟨hzero, keys, hnorm, hkeys⟩
      · rw [hnorm]
        exact hstop _ fun hfits => hfits.keys hzero
      · rw [hnorm]
        have hnil : (acc.enter config order done.length a keys).errors = [] ↔ Fits config done a :=
          htracks.errors_enter herrors hdetect hgas hhash hzero hkeys
        refine ⟨hnil.trans ?_, fun h => htracks.concat hdetect hkeys (hnil.mp h)⟩
        rw [schedulable_concat]
        exact (and_iff_right hdone).symm
  · have hne : (acc.assign config order done.length a).errors ≠ [] := fun h => herrors (errors_of_assign hdetect h)
    exact ⟨iff_of_false hne fun hsch => herrors (h.errors.mpr (schedulable_concat.mp hsch).1), fun h => absurd h hne⟩

theorem Inv.assignFrom {orders : ℕ → IterOrder B256} {rest : List LaneAssignment} (h : Inv config done acc)
    (hdetect : config.enableConflictDetection = true)
    (hgas : config.maxTotalGasPerLane < UInt64.ofNat UInt64.maxNat) :
    Inv config (done ++ rest) (assignFrom config orders done.length acc rest) := by
  induction rest generalizing done acc with
  | nil =>
    rw [List.append_nil]
    exact h
  | cons a rest ih =>
    have := ih (h.assign hdetect hgas : Inv config (done ++ [a]) (acc.assign config (orders done.length) done.length a))
    rwa [List.append_assoc, List.singleton_append, List.length_append] at this

/-! ### Across the lanes -/

theorem crossLaneConflict_eq_none {x y : LaneAssignment × KeySet} :
    crossLaneConflict x y = none ↔ x.1.assignedLane = y.1.assignedLane ∨ ∀ key ∈ x.2, key ∉ y.2 := by
  unfold crossLaneConflict
  by_cases hlane : x.1.assignedLane = y.1.assignedLane
  · simp [hlane]
  · simp [hlane, List.find?_eq_none, AList.mem_keys]

/-- No pair is reported: assignments of different lanes share no key, if theirs are valid. -/
theorem disjoint_of_detect {assignments : List LaneAssignment} (h : detectCrossLaneConflicts assignments = [])
    (hvalid : ∀ b ∈ assignments, FixedBytes.zero ∉ keysOf b) {i j : ℕ} {x y : LaneAssignment} (hij : i < j)
    (hx : assignments[i]? = some x) (hy : assignments[j]? = some y) (hlane : x.assignedLane ≠ y.assignedLane) :
    Disjoint (keysOf x) (keysOf y) := by
  have hj : j < assignments.length := (List.getElem?_eq_some_iff.mp hy).1
  have hkeys : ∀ b ∈ assignments, ∃ keys, normalizeKeys b = .ok keys ∧ ∀ key, key ∈ keys ↔ key ∈ keysOf b := by
    intro b hb
    rcases normalizeKeys_cases b with ⟨hzero, -⟩ | ⟨-, hok⟩
    · exact absurd hzero (hvalid b hb)
    · exact hok
  obtain ⟨xkeys, hxok, hxkeys⟩ := hkeys x (List.mem_of_getElem? hx)
  obtain ⟨ykeys, hyok, hykeys⟩ := hkeys y (List.mem_of_getElem? hy)
  simp only [detectCrossLaneConflicts, List.flatMap_eq_nil_iff, List.filterMap_eq_nil_iff, List.mem_range,
    List.mem_range'_1] at h
  have hpair := h i (hij.trans hj) j ⟨hij, by omega⟩
  simp only [List.getElem?_map, hx, hy, hxok, hyok, Option.map_some, Option.bind_some, Option.map_eq_none_iff,
    crossLaneConflict_eq_none] at hpair
  rw [Set.disjoint_left]
  intro key hxkey hykey
  exact (hpair.resolve_left hlane) key ((hxkeys key).mpr hxkey) ((hykeys key).mpr hykey)

/-! ### Scheduling -/

theorem mem_indicesIn {assignments : List LaneAssignment} {i : ℕ} :
    i ∈ indicesIn assignments lane ↔ ∃ b, assignments[i]? = some b ∧ b.assignedLane = lane := by
  simp [indicesIn, List.mem_zipIdx_iff_getElem?]

theorem pairwise_indicesIn : (indicesIn done lane).Pairwise (· < ·) := by
  induction done using List.reverseRecOn with
  | nil => exact .nil
  | append_singleton done a ih =>
    rw [indicesIn_concat]
    refine List.pairwise_append.mpr ⟨ih, by split_ifs <;> simp, fun i hi j hj => ?_⟩
    obtain ⟨b, hb, -⟩ := mem_indicesIn.mp hi
    split_ifs at hj
    · rw [List.mem_singleton.mp hj]
      exact (List.getElem?_eq_some_iff.mp hb).1
    · cases hj

theorem assignToLanes_eq_ok {orders : ℕ → IterOrder B256} {assignments : List LaneAssignment}
    {groups : HashMap LaneId (List ℕ)} : assignToLanes orders assignments config = .ok groups ↔
      (assignFrom config orders 0 ⟨∅, ∅, ∅, []⟩ assignments).errors = [] ∧
        (assignFrom config orders 0 ⟨∅, ∅, ∅, []⟩ assignments).grouped = groups := by
  unfold assignToLanes
  dsimp only
  cases (assignFrom config orders 0 ⟨∅, ∅, ∅, []⟩ assignments).errors with
  | nil => simp
  | cons err errors => simp

/-- Every index stands once, under its lane, in ascending order. -/
def Groups (assignments : List LaneAssignment) (groups : HashMap LaneId (List ℕ)) : Prop :=
  ∀ lane, ((groups.lookup lane).getD []).Pairwise (· < ·) ∧
    ∀ i, i ∈ (groups.lookup lane).getD [] ↔ ∃ a, assignments[i]? = some a ∧ a.assignedLane = lane

/-- Scheduling finds the assignments that can be scheduled, groups them, and with no conflict across the lanes no two
transactions meet in a key. -/
theorem lanes_sound_complete (orders : ℕ → IterOrder B256) (assignments : List LaneAssignment) (config : LaneConfig)
    (hdetect : config.enableConflictDetection = true) (hgas : config.maxTotalGasPerLane < UInt64.ofNat UInt64.maxNat) :
    ((∃ groups, assignToLanes orders assignments config = .ok groups) ↔ Schedulable config assignments) ∧
    ∀ groups, assignToLanes orders assignments config = .ok groups →
      Groups assignments groups ∧ (detectCrossLaneConflicts assignments = [] →
        ∀ a ∈ assignments, ∀ b ∈ assignments, a.txHash ≠ b.txHash → Disjoint (keysOf a) (keysOf b)) := by
  have hinv : Inv config assignments (assignFrom config orders 0 ⟨∅, ∅, ∅, []⟩ assignments) :=
    inv_start.assignFrom hdetect hgas
  refine ⟨?_, fun groups hok => ⟨fun lane => ?_, fun hcross a ha b hb hne => ?_⟩⟩
  · simp only [assignToLanes_eq_ok, exists_and_left, exists_eq', and_true]
    exact hinv.errors
  · obtain ⟨hnil, rfl⟩ := assignToLanes_eq_ok.mp hok
    rw [(hinv.tracks hnil).grouped]
    exact ⟨pairwise_indicesIn, fun i => mem_indicesIn⟩
  · have hsch := hinv.errors.mp (assignToLanes_eq_ok.mp hok).1
    by_cases hlane : a.assignedLane = b.assignedLane
    · exact hsch.disjoint a ha b hb hlane hne
    · obtain ⟨i, hi⟩ := List.getElem?_of_mem ha
      obtain ⟨j, hj⟩ := List.getElem?_of_mem hb
      rcases Nat.lt_trichotomy i j with hij | rfl | hij
      · exact disjoint_of_detect hcross hsch.keys hij hi hj hlane
      · exact absurd (congrArg LaneAssignment.txHash (Option.some_inj.mp (hi.symm.trans hj))) hne
      · exact (disjoint_of_detect hcross hsch.keys hij hj hi (Ne.symm hlane)).symm

/-- A transfer that touches one key. -/
def transferOf (n : UInt8) : LaneAssignment where
  txHash := .repeatByte n
  assignedLane := .transfer
  stateKeysAccessed := [.repeatByte n]
  conflictSet := ∅
  gasEstimate := 21000

theorem lanes_sound_complete_transfers :
    ∃ groups, assignToLanes (fun _ => .stored) [transferOf 1, transferOf 2] defaultLaneConfig = .ok groups ∧
      groups.lookup .transfer = some [0, 1] ∧ Groups [transferOf 1, transferOf 2] groups := by
  refine ⟨_, rfl, by decide, ?_⟩
  exact ((lanes_sound_complete (fun _ => .stored) [transferOf 1, transferOf 2] defaultLaneConfig rfl
    (by decide)).2 _ rfl).1

end Eip8142

end Eth2077
