import Mathlib.Data.Rat.Cast.Order
import Mathlib.Algebra.BigOperators.Fin
import Mathlib.Data.List.Dedup
import Mathlib.Tactic.FieldSimp
import Eth2077.Execution.Lanes
import Eth2077.Types.Canonical
import Eth2077.Lib.ListScheduling
import Eth2077.Lib.PrefixCode
import Eth2077.Lib.KeyedFold

/-!
# How parallel the lanes are (`execution/src/eip8142.rs`)

The statistics of a set of assignments and the commitment to a lane. The lanes go to the workers as whole jobs,
the deepest first, each to the worker with the least to do; the reported parallelism is what this schedule
reaches. The quotients are exact here, the code rounds them to `f64`.
-/

namespace Eth2077

namespace Eip8142

/-- `{lane:?}`. -/
def LaneId.debug : LaneId → String
  | transfer => "Transfer"
  | tokenOps => "TokenOps"
  | deFi => "DeFi"
  | stateHeavy => "StateHeavy"
  | systemOps => "SystemOps"
  | blobCarrying => "BlobCarrying"
  | uncategorized => "Uncategorized"

def laneDiscriminant : LaneId → UInt8
  | .transfer => 0
  | .tokenOps => 1
  | .deFi => 2
  | .stateHeavy => 3
  | .systemOps => 4
  | .blobCarrying => 5
  | .uncategorized => 6

/-! ### The statistics -/

def laneDepths (assignments : List LaneAssignment) : HashMap LaneId ℕ :=
  assignments.foldl (fun depths a => AList.insert a.assignedLane ((depths.lookup a.assignedLane).getD 0 + 1) depths) ∅

def gasByLaneId (assignments : List LaneAssignment) : HashMap LaneId UInt64 :=
  assignments.foldl (fun gas a => AList.insert a.assignedLane
    (((gas.lookup a.assignedLane).getD 0).saturatingAdd a.gasEstimate) gas) ∅

def LaneConfig.workers (config : LaneConfig) : ℕ := max config.parallelLanes 1

/-- The load of the busiest worker. The loads count entries of a slice, so that they never saturate. -/
def makespan (order : IterOrder (LaneId × ℕ)) (depths : HashMap LaneId ℕ) (config : LaneConfig) : ℕ :=
  let depths := ((traverse order depths).map Prod.snd).insertionSort (· ≥ ·)
  (ListScheduling.schedule config.workers depths).max?.getD 0

def computeParallelismRatio (order : IterOrder (LaneId × ℕ)) (totalTransactions : ℕ) (depths : HashMap LaneId ℕ)
    (config : LaneConfig) : ℚ :=
  if totalTransactions = 0 ∨ depths.keys = [] then 0
  else if makespan order depths config = 0 then 0
  else totalTransactions / makespan order depths config

structure LaneExecutionStats where
  totalTransactions : ℕ
  lanesUsed : ℕ
  maxLaneDepth : ℕ
  conflictCount : ℕ
  parallelismRatio : ℚ
  gasByLane : HashMap String UInt64

/-- `depthOrder` and `gasOrder` are the orders in which the two maps are traversed. -/
def computeLaneStats (depthOrder : IterOrder (LaneId × ℕ)) (gasOrder : IterOrder (LaneId × UInt64))
    (assignments : List LaneAssignment) (config : LaneConfig) : LaneExecutionStats :=
  let depths := laneDepths assignments
  let conflictCount := if config.enableConflictDetection then (detectCrossLaneConflicts assignments).length else 0
  { totalTransactions := assignments.length
    lanesUsed := depths.keys.length
    maxLaneDepth := ((traverse depthOrder depths).map Prod.snd).max?.getD 0
    conflictCount := conflictCount
    parallelismRatio := computeParallelismRatio depthOrder assignments.length depths config /
      (1 + conflictCount / (max assignments.length 1 : ℕ))
    gasByLane := (traverse gasOrder (gasByLaneId assignments)).foldl (fun m e => AList.insert e.1.debug e.2 m) ∅ }

/-- What the hasher of `compute_lane_commitment` is given. -/
def laneBytes (lane : LaneId) (txHashes : List B256) : List UInt8 :=
  laneDiscriminant lane :: (txHashes.insertionSort KeyLE).flatMap fun txHash => txHash.toList

def computeLaneCommitment (sha256 : List UInt8 → B256) (lane : LaneId) (txHashes : List B256) : B256 :=
  sha256 (laneBytes lane txHashes)

/-! ### Depths -/

variable {assignments done : List LaneAssignment} {config : LaneConfig} {order : IterOrder (LaneId × ℕ)}
  {a : LaneAssignment} {lane : LaneId}

theorem laneDepths_concat : laneDepths (done ++ [a]) = AList.insert a.assignedLane
    (((laneDepths done).lookup a.assignedLane).getD 0 + 1) (laneDepths done) := List.foldl_concat ..

theorem lookup_laneDepths (assignments : List LaneAssignment) (lane : LaneId) :
    (laneDepths assignments).lookup lane =
      if inLane assignments lane = [] then none else some (inLane assignments lane).length := by
  induction assignments using List.reverseRecOn with
  | nil => rfl
  | append_singleton done a ih =>
    rw [laneDepths_concat, inLane_concat]
    by_cases hlane : a.assignedLane = lane
    · subst hlane
      rw [AList.lookup_insert, ih]
      by_cases hnil : inLane done a.assignedLane = []
      · simp [hnil]
      · simp [hnil]
    · rw [AList.lookup_insert_ne (Ne.symm hlane), ih]
      simp [hlane]

theorem inLane_ne_nil : inLane assignments lane ≠ [] ↔ ∃ a ∈ assignments, a.assignedLane = lane := by
  simp [inLane, List.filter_eq_nil_iff]

/-- The lanes in the order in which the map yields them, each with its depth. -/
theorem traverse_laneDepths (order : IterOrder (LaneId × ℕ)) (assignments : List LaneAssignment) :
    ∃ lanes : List LaneId, lanes.Nodup ∧ (∀ lane, lane ∈ lanes ↔ ∃ a ∈ assignments, a.assignedLane = lane) ∧
      (traverse order (laneDepths assignments)).map Prod.snd = lanes.map fun lane => (inLane assignments lane).length := by
  have hmem : ∀ e, e ∈ traverse order (laneDepths assignments) ↔
      inLane assignments e.1 ≠ [] ∧ e.2 = (inLane assignments e.1).length := by
    intro e
    rw [show e = (e.1, e.2) from rfl, mem_traverse, lookup_laneDepths]
    split_ifs with hnil
    · simp [hnil]
    · simp [hnil, eq_comm]
  refine ⟨(traverse order (laneDepths assignments)).map Prod.fst, nodup_traverse .., fun lane => ?_, ?_⟩
  · rw [← inLane_ne_nil, List.mem_map]
    constructor
    · rintro ⟨e, he, rfl⟩
      exact ((hmem e).mp he).1
    · intro hne
      exact ⟨(lane, (inLane assignments lane).length), (hmem (lane, _)).mpr ⟨hne, rfl⟩, rfl⟩
  · rw [List.map_map]
    exact List.map_congr_left fun e he => ((hmem e).mp he).2

/-- The transactions whose lanes satisfy `p`, lane by lane. -/
theorem sum_depths {lanes : List LaneId} (hnodup : lanes.Nodup) (hall : ∀ a ∈ assignments, a.assignedLane ∈ lanes)
    (p : LaneId → Bool) : ((lanes.filter p).map fun lane => (inLane assignments lane).length).sum =
      (assignments.filter fun a => p a.assignedLane).length := by
  induction assignments with
  | nil => simp [inLane]
  | cons a rest ih =>
    have hrest := ih fun b hb => hall b (List.mem_cons_of_mem a hb)
    have hsplit : ∀ lane, (inLane (a :: rest) lane).length =
        (inLane rest lane).length + if lane = a.assignedLane then 1 else 0 := by
      intro lane
      unfold inLane
      rw [List.filter_cons]
      split_ifs with h1 h2 <;> simp_all
    have hone : ((lanes.filter p).map fun lane => if lane = a.assignedLane then 1 else 0).sum =
        if p a.assignedLane then 1 else 0 := by
      have hcount : ∀ l : List LaneId, (l.map fun lane => if lane = a.assignedLane then 1 else 0).sum =
          l.count a.assignedLane := by
        intro l
        induction l with
        | nil => rfl
        | cons lane l ih =>
          rw [List.map_cons, List.sum_cons, ih, List.count_cons, add_comm]
          simp
      rw [hcount]
      by_cases hp : p a.assignedLane = true
      · rw [List.count_filter hp, hnodup.count, if_pos (hall a List.mem_cons_self), if_pos hp]
      · rw [if_neg hp, List.count_eq_zero]
        exact fun hmem => hp (List.mem_filter.mp hmem).2
    simp only [hsplit]
    rw [List.sum_map_add, hrest, hone, List.filter_cons]
    split_ifs <;> simp

/-! ### What is reported -/

theorem getD_max? {l : List ℕ} (hl : l ≠ []) : l.max?.getD 0 ∈ l ∧ ∀ x ∈ l, x ≤ l.max?.getD 0 := by
  cases hmax : l.max? with
  | none => exact absurd (List.max?_eq_none_iff.mp hmax) hl
  | some x => exact List.max?_eq_some_iff.mp hmax

theorem lookup_gasByLaneId (assignments : List LaneAssignment) (lane : LaneId) :
    (gasByLaneId assignments).lookup lane =
      if inLane assignments lane = [] then none else some (UInt64.saturate (gasIn assignments lane)) := by
  induction assignments using List.reverseRecOn with
  | nil => rfl
  | append_singleton done a ih =>
    rw [gasByLaneId, List.foldl_concat, ← gasByLaneId, inLane_concat, gasIn_concat]
    by_cases hlane : a.assignedLane = lane
    · subst hlane
      rw [AList.lookup_insert, ih, if_pos rfl, if_pos rfl, if_neg (List.append_ne_nil_of_right_ne_nil _ (by simp)),
        ← UInt64.saturate_saturatingAdd]
      by_cases hnil : inLane done a.assignedLane = []
      · simp [gasIn, hnil]
      · simp [hnil]
    · rw [AList.lookup_insert_ne (Ne.symm hlane), ih]
      simp [hlane]

theorem LaneId.debug_injective : Function.Injective LaneId.debug := by
  intro a b h
  cases a <;> cases b <;> first | rfl | exact absurd h (by decide)

theorem local_insertDebug : KeyedFold.Local (fun (m : HashMap String UInt64) k => m.lookup k)
    (fun e : LaneId × UInt64 => e.1.debug) (fun e _ => some e.2) (fun m e => AList.insert e.1.debug e.2 m) where
  self _ _ := AList.lookup_insert _
  other _ _ _ hk := AList.lookup_insert_ne hk

/-- The entries under other names. -/
theorem lookup_renamed (order : IterOrder (LaneId × UInt64)) (gas : HashMap LaneId UInt64) (lane : LaneId) :
    ((traverse order gas).foldl (fun m e => AList.insert e.1.debug e.2 m) (∅ : HashMap String UInt64)).lookup lane.debug =
      gas.lookup lane := by
  have hkeys : ((traverse order gas).map fun e => e.1.debug).Nodup := by
    have h := (nodup_traverse order gas).map LaneId.debug_injective
    rwa [List.map_map] at h
  cases hlane : gas.lookup lane with
  | some v => exact local_insertDebug.foldl_of_mem hkeys (mem_traverse.mpr hlane)
  | none =>
    refine KeyedFold.foldl_of_notMem (fun (m : HashMap String UInt64) k => m.lookup k) 
      local_insertDebug.other fun e he hdebug => ?_
    have := mem_traverse.mp (show (e.1, e.2) ∈ traverse order gas from he)
    rw [LaneId.debug_injective hdebug, hlane] at this
    cases this

/-- Whatever orders the two maps are traversed in, the depths and the gas of the lanes are reported as they are. -/
theorem lane_stats_exact (depthOrder : IterOrder (LaneId × ℕ)) (gasOrder : IterOrder (LaneId × UInt64))
    (assignments : List LaneAssignment) (config : LaneConfig) :
    let stats := computeLaneStats depthOrder gasOrder assignments config
    stats.lanesUsed = (assignments.map LaneAssignment.assignedLane).dedup.length ∧
      (∀ lane, (inLane assignments lane).length ≤ stats.maxLaneDepth) ∧
      (∃ lane, (inLane assignments lane).length = stats.maxLaneDepth) ∧
      ∀ lane, stats.gasByLane.lookup lane.debug =
        if inLane assignments lane = [] then none else some (UInt64.saturate (gasIn assignments lane)) := by
  intro stats
  obtain ⟨lanes, hnodup, hlanes, hdepths⟩ := traverse_laneDepths depthOrder assignments
  have hmax : stats.maxLaneDepth = (lanes.map fun lane => (inLane assignments lane).length).max?.getD 0 := by
    rw [← hdepths]
    rfl
  have hkeys : ∀ lane, lane ∈ (laneDepths assignments).keys ↔ ∃ a ∈ assignments, a.assignedLane = lane := by
    intro lane
    rw [← AList.mem_keys, ← AList.lookup_isSome, lookup_laneDepths, ← inLane_ne_nil]
    split_ifs with hnil
    · simp [hnil]
    · simp [hnil]
  refine ⟨?_, fun lane => ?_, ?_, fun lane => (lookup_renamed ..).trans (lookup_gasByLaneId ..)⟩
  · refine List.Perm.length_eq ((List.perm_ext_iff_of_nodup (AList.keys_nodup _) (List.nodup_dedup _)).mpr fun lane => ?_)
    rw [hkeys, List.mem_dedup, List.mem_map]
  · by_cases hlane : lane ∈ lanes
    · rw [hmax]
      exact (getD_max? (List.ne_nil_of_mem (List.mem_map_of_mem hlane))).2 _ (List.mem_map_of_mem hlane)
    · rw [hlanes, ← inLane_ne_nil, not_not] at hlane
      rw [hlane]
      exact Nat.zero_le _
  · rw [hmax]
    cases lanes with
    | nil =>
      refine ⟨.transfer, ?_⟩
      have hnil : inLane assignments .transfer = [] := by
        by_contra hne
        exact List.not_mem_nil ((hlanes _).mpr (inLane_ne_nil.mp hne))
      rw [hnil]
      rfl
    | cons lane lanes =>
      obtain ⟨l, -, hl⟩ := List.mem_map.mp (getD_max? (l := (lane :: lanes).map fun lane =>
        (inLane assignments lane).length) (by simp)).1
      exact ⟨l, hl⟩

/-! ### The schedule -/

theorem workers_pos (config : LaneConfig) : 0 < config.workers := by
  unfold LaneConfig.workers
  omega

/-- What the workers have to do, the deepest lane first. -/
def jobs (order : IterOrder (LaneId × ℕ)) (depths : HashMap LaneId ℕ) : List ℕ :=
  ((traverse order depths).map Prod.snd).insertionSort (· ≥ ·)

theorem makespan_spec (order : IterOrder (LaneId × ℕ)) (depths : HashMap LaneId ℕ) (config : LaneConfig) :
    makespan order depths config ∈ ListScheduling.schedule config.workers (jobs order depths) ∧
      ∀ load ∈ ListScheduling.schedule config.workers (jobs order depths), load ≤ makespan order depths config :=
  getD_max? (ListScheduling.schedule_ne_nil _ (workers_pos config))

theorem sum_jobs_le (order : IterOrder (LaneId × ℕ)) (depths : HashMap LaneId ℕ) (config : LaneConfig) :
    (jobs order depths).sum ≤ config.workers * makespan order depths config := by
  rw [← ListScheduling.sum_schedule (workers_pos config)]
  refine (List.sum_le_card_nsmul _ _ (makespan_spec order depths config).2).trans ?_
  simp [ListScheduling.length_schedule]

/-- Any way of giving the lanes to the workers does at most `4/3 - 1/(3m)` times better. -/
theorem makespan_le (order : IterOrder (LaneId × ℕ)) (assignments : List LaneAssignment) (config : LaneConfig)
    (f : LaneId → Fin config.workers) (cap : ℕ)
    (hcap : ∀ w, (assignments.filter fun a => f a.assignedLane = w).length ≤ cap) :
    3 * config.workers * makespan order (laneDepths assignments) config + cap ≤ 4 * config.workers * cap := by
  obtain ⟨lanes, hnodup, hlanes, hdepths⟩ := traverse_laneDepths order assignments
  have hall : ∀ a ∈ assignments, a.assignedLane ∈ lanes := fun a ha => (hlanes _).mpr ⟨a, ha, rfl⟩
  have hbins := ListScheduling.distributes_ofFn lanes (fun lane => (inLane assignments lane).length) f
    fun w => (sum_depths hnodup hall fun lane => f lane = w).trans_le (hcap w)
  rw [← hdepths, ← Multiset.coe_eq_coe.mpr (List.perm_insertionSort (· ≥ ·) _)] at hbins
  exact ListScheduling.schedule_le (workers_pos config) (List.pairwise_insertionSort _ _) hbins (List.length_ofFn ..)
    (makespan_spec order _ config).1

theorem sum_jobs (order : IterOrder (LaneId × ℕ)) (assignments : List LaneAssignment) :
    (jobs order (laneDepths assignments)).sum = assignments.length := by
  obtain ⟨lanes, hnodup, hlanes, hdepths⟩ := traverse_laneDepths order assignments
  have h := sum_depths hnodup (fun a ha => (hlanes _).mpr ⟨a, ha, rfl⟩) fun _ => true
  rw [jobs, (List.perm_insertionSort (· ≥ ·) _).sum_eq, hdepths]
  simpa using h

theorem length_eq_zero_of_keys (h : assignments.length = 0 ∨ (laneDepths assignments).keys = []) :
    assignments.length = 0 := by
  rcases h with h | h
  · exact h
  · cases assignments with
    | nil => rfl
    | cons a rest =>
      have hlane : inLane (a :: rest) a.assignedLane ≠ [] := inLane_ne_nil.mpr ⟨a, List.mem_cons_self, rfl⟩
      have hmem : a.assignedLane ∈ laneDepths (a :: rest) := by
        rw [← AList.lookup_isSome, lookup_laneDepths, if_neg hlane]
        rfl
      rw [AList.mem_keys, h] at hmem
      cases hmem

/-- The reported parallelism counts no more workers than there are, and no distribution of the lanes over the workers
could reach more than `4/3 - 1/(3m)` times as much. -/
theorem parallelism_near_best (order : IterOrder (LaneId × ℕ)) (assignments : List LaneAssignment)
    (config : LaneConfig) :
    let ratio := computeParallelismRatio order assignments.length (laneDepths assignments) config
    ratio ≤ config.workers ∧
      ∀ (f : LaneId → Fin config.workers) (cap : ℕ),
        (∀ w, (assignments.filter fun a => f a.assignedLane = w).length ≤ cap) →
          (assignments.length / cap : ℚ) ≤ (4 / 3 - 1 / (3 * config.workers)) * ratio := by
  intro ratio
  have hm : (0 : ℚ) < config.workers := by exact_mod_cast workers_pos config
  have hjobs := sum_jobs_le order (laneDepths assignments) config
  rw [sum_jobs] at hjobs
  by_cases hzero : makespan order (laneDepths assignments) config = 0
  · have hnil : assignments.length = 0 := by rw [hzero] at hjobs; omega
    have hratio : ratio = 0 := if_pos (.inl hnil)
    rw [hratio, hnil]
    simp
  · have hpos : (0 : ℚ) < makespan order (laneDepths assignments) config := by
      exact_mod_cast Nat.pos_of_ne_zero hzero
    have hratio : ratio = assignments.length / makespan order (laneDepths assignments) config := by
      show computeParallelismRatio .. = _
      unfold computeParallelismRatio
      split_ifs with hnone
      · rw [length_eq_zero_of_keys hnone, Nat.cast_zero, zero_div]
      · rfl
    refine ⟨?_, fun f cap hcap => ?_⟩
    · rw [hratio, div_le_iff₀ hpos]
      exact_mod_cast hjobs
    · have hle := makespan_le order assignments config f cap hcap
      have hcap0 : (0 : ℚ) < cap := by
        exact_mod_cast Nat.pos_of_ne_zero fun h => hzero (by subst h; have := workers_pos config; nlinarith)
      have hshare : (makespan order (laneDepths assignments) config / cap : ℚ) ≤ 4 / 3 - 1 / (3 * config.workers) := by
        have hle' : (3 * config.workers * makespan order (laneDepths assignments) config + cap : ℚ) ≤
            4 * config.workers * cap := by exact_mod_cast hle
        rw [div_le_iff₀ hcap0]
        field_simp
        linarith
      calc (assignments.length / cap : ℚ)
          = makespan order (laneDepths assignments) config / cap * ratio := by
            rw [hratio]
            field_simp
        _ ≤ (4 / 3 - 1 / (3 * config.workers)) * ratio := by
            refine mul_le_mul_of_nonneg_right hshare ?_
            rw [hratio]
            exact div_nonneg (Nat.cast_nonneg _) (Nat.cast_nonneg _)

/-- Two lanes of three transactions and three lanes of two. -/
def fiveLanes : List LaneAssignment :=
  [LaneId.transfer, .tokenOps, .deFi, .stateHeavy, .systemOps, .transfer, .tokenOps, .deFi, .stateHeavy, .systemOps,
    .transfer, .tokenOps].map fun lane => { transferOf 1 with assignedLane := lane }

/-- Two workers could do these in 6 steps, and are given 7: the bound is met exactly. -/
theorem parallelism_near_best_fiveLanes :
    computeParallelismRatio .stored 12 (laneDepths fiveLanes) { defaultLaneConfig with parallelLanes := 2 } = 12 / 7 ∧
      (fiveLanes.length / 6 : ℚ) ≤ (4 / 3 - 1 / (3 * 2)) * (12 / 7) := by
  have hratio : computeParallelismRatio .stored fiveLanes.length (laneDepths fiveLanes)
      { defaultLaneConfig with parallelLanes := 2 } = 12 / 7 := by decide +kernel
  have h := (parallelism_near_best .stored fiveLanes { defaultLaneConfig with parallelLanes := 2 }).2
    (fun lane => if lane = .transfer ∨ lane = .tokenOps then ⟨0, by decide⟩ else ⟨1, by decide⟩) 6 (by decide)
  rw [hratio] at h
  exact ⟨hratio, h⟩

/-! ### Commitments -/

instance : IsTrans B256 KeyLE := ⟨fun _ _ _ h h' => List.le_trans h h'⟩

instance : Std.Total KeyLE := ⟨fun a b => List.le_total a.toList b.toList⟩

instance : Std.Antisymm KeyLE := ⟨fun _ _ h h' => List.Vector.toList_injective (List.le_antisymm h h')⟩

theorem laneBytes_inj {lane lane' : LaneId} {txHashes txHashes' : List B256} :
    laneBytes lane txHashes = laneBytes lane' txHashes' ↔ lane = lane' ∧ txHashes.Perm txHashes' := by
  constructor
  · intro h
    obtain ⟨hlane, hbytes⟩ := List.cons.inj h
    have hsorted := (isPrefixCode_fixedBytes 32).flatMap_injective (fun bs hnil => by
      have := congrArg List.length hnil
      simp at this) hbytes
    refine ⟨?_, (List.perm_insertionSort KeyLE txHashes).symm.trans ?_⟩
    · cases lane <;> cases lane' <;> first | rfl | exact absurd hlane (by decide)
    · rw [hsorted]
      exact List.perm_insertionSort KeyLE txHashes'
  · rintro ⟨rfl, hperm⟩
    have hsorted : txHashes.insertionSort KeyLE = txHashes'.insertionSort KeyLE := by
      refine List.Perm.eq_of_pairwise' (r := KeyLE) (List.pairwise_insertionSort _ _) (List.pairwise_insertionSort _ _) ?_
      exact (List.perm_insertionSort ..).trans (hperm.trans (List.perm_insertionSort ..).symm)
    rw [laneBytes, laneBytes, hsorted]

/-- Two commitments are equal exactly when they are to the same lane with the same hashes, in any order. -/
theorem lane_commitment_iff (sha256 : List UInt8 → B256) (lane lane' : LaneId) (txHashes txHashes' : List B256)
    (hsha : sha256 (laneBytes lane txHashes) = sha256 (laneBytes lane' txHashes') →
      laneBytes lane txHashes = laneBytes lane' txHashes') :
    computeLaneCommitment sha256 lane txHashes = computeLaneCommitment sha256 lane' txHashes' ↔
      lane = lane' ∧ txHashes.Perm txHashes' := by
  rw [← laneBytes_inj]
  exact ⟨hsha, fun h => congrArg sha256 h⟩

/-- `sha256` of the transfer lane with the hashes 1 and 2, whose 65 bytes are all the example below hashes. -/
def sha256OfTransfers (bs : List UInt8) : B256 :=
  if bs.length = 65 then .ofNat 32 0x32fb2d4416067c5bff06423e18714ad3884365d7b816d34a77b33527d8438624
  else FixedBytes.zero

theorem lane_commitment_iff_swapped :
    computeLaneCommitment sha256OfTransfers .transfer [.repeatByte 1, .repeatByte 2] =
      computeLaneCommitment sha256OfTransfers .transfer [.repeatByte 2, .repeatByte 1] :=
  (lane_commitment_iff sha256OfTransfers .transfer .transfer _ _ fun _ => by decide).mpr ⟨rfl, .swap ..⟩

end Eip8142
end Eth2077
