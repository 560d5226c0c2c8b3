import Mathlib.Algebra.GroupWithZero.Nat
import Eth2077.Prim
import Eth2077.Lib.WeightedQuorum

/-!
# Validator sets (`oob-consensus/src/validator.rs`)

`ValidatorSet` carries the fact that its cached total is the saturating sum of its weights, since
`new` is the only way to build one. `ValidatorSet.weights` reads a set with distinct indices as
`WeightedQuorum.Weights`.
-/

namespace Eth2077
open WeightedQuorum

structure Validator where
  index : UInt64
  weight : UInt64
  publicKey : B256
deriving DecidableEq

structure ValidatorSet where
  validators : List Validator
  totalWeight : UInt64
  totalWeight_eq : totalWeight = validators.foldl (fun acc v => acc.saturatingAdd v.weight) 0

namespace ValidatorSet

def new (validators : List Validator) : ValidatorSet where
  validators := validators
  totalWeight := validators.foldl (fun acc v => acc.saturatingAdd v.weight) 0
  totalWeight_eq := rfl

variable (vs : ValidatorSet)

def get (index : UInt64) : Option Validator := vs.validators.find? fun v => v.index == index

def quorumWeight : UInt64 :=
  let f := vs.totalWeight.saturatingSub 1 / 3
  (2 * f).saturatingAdd 1

def leaderForRound (height : UInt64) (round : UInt32) : UInt64 :=
  match vs.validators with
  | [] => 0
  | v :: rest =>
    let leaderPosition := (height.saturatingAdd round.toUInt64).toNat % (v :: rest).length
    ((v :: rest).get ⟨leaderPosition, Nat.mod_lt _ (Nat.succ_pos _)⟩).index

def len : Nat := vs.validators.length

def weightOf (index : UInt64) : UInt64 := ((vs.get index).map (·.weight)).getD 0

/-! ### Weights as numbers -/

def weightSum : Nat := (vs.validators.map (·.weight.toNat)).sum

def indices : Finset UInt64 := (vs.validators.map (·.index)).toFinset

def DistinctIndices : Prop := (vs.validators.map (·.index)).Nodup

instance : Decidable vs.DistinctIndices := inferInstanceAs (Decidable (List.Nodup _))

variable {vs}

theorem mem_indices {i : UInt64} : i ∈ vs.indices ↔ ∃ v ∈ vs.validators, v.index = i := by
  simp [indices]

theorem card_indices (hd : vs.DistinctIndices) : vs.indices.card = vs.len := by
  rw [indices, List.toFinset_card_of_nodup hd, List.length_map]; rfl

theorem foldl_saturatingAdd (l : List Validator) (acc : UInt64) :
    (l.foldl (fun acc v => acc.saturatingAdd v.weight) acc).toNat =
      min (acc.toNat + (l.map (·.weight.toNat)).sum) UInt64.maxNat := by
  induction l generalizing acc with
  | nil => simp [acc.toNat_le_maxNat]
  | cons v l ih =>
    simp only [List.foldl_cons, ih, UInt64.toNat_saturatingAdd, List.map_cons, List.sum_cons]
    omega

theorem toNat_totalWeight : vs.totalWeight.toNat = min vs.weightSum UInt64.maxNat := by
  rw [vs.totalWeight_eq, foldl_saturatingAdd]; simp [weightSum]

/-- `2 * f` does not overflow, so `quorum_weight` is `2f + 1` for `f` the fault budget. -/
theorem toNat_quorumWeight : vs.quorumWeight.toNat = 2 * ((vs.totalWeight.toNat - 1) / 3) + 1 := by
  have hlt := vs.totalWeight.toNat_lt
  have hf : (vs.totalWeight.saturatingSub 1 / 3).toNat = (vs.totalWeight.toNat - 1) / 3 := by
    rw [UInt64.toNat_div, UInt64.toNat_saturatingSub]; rfl
  have h2 : (2 * (vs.totalWeight.saturatingSub 1 / 3)).toNat = 2 * ((vs.totalWeight.toNat - 1) / 3) := by
    rw [UInt64.toNat_mul, hf]
    exact Nat.mod_eq_of_lt (by simp only [show (2 : UInt64).toNat = 2 from rfl]; omega)
  rw [quorumWeight, UInt64.toNat_saturatingAdd, h2, show (1 : UInt64).toNat = 1 from rfl, UInt64.maxNat]
  omega

theorem quorumWeight_pos : 0 < vs.quorumWeight.toNat := by rw [toNat_quorumWeight]; omega

theorem get_isSome {i : UInt64} : (vs.get i).isSome ↔ i ∈ vs.indices := by
  simp [get, mem_indices]

theorem weightOf_of_notMem {i : UInt64} (h : i ∉ vs.indices) : vs.weightOf i = 0 := by
  have : vs.get i = none := by
    rw [← Option.not_isSome_iff_eq_none, get_isSome]; exact h
  simp [weightOf, this]

variable (vs) in
def weights : Weights UInt64 where
  members := vs.indices
  weight i := (vs.weightOf i).toNat
  supp i h := by rw [weightOf_of_notMem h]; rfl

theorem weightOf_eq (hd : vs.DistinctIndices) {v : Validator} (hv : v ∈ vs.validators) :
    vs.weightOf v.index = v.weight := by
  obtain ⟨w, hw⟩ := Option.isSome_iff_exists.mp (get_isSome.mpr (mem_indices.mpr ⟨v, hv, rfl⟩))
  have hidx : w.index = v.index := by simpa using List.find?_some hw
  obtain rfl := List.inj_on_of_nodup_map hd (List.mem_of_find?_eq_some hw) hv hidx
  simp [weightOf, hw]

theorem weights_total (hd : vs.DistinctIndices) : vs.weights.total = vs.weightSum := by
  show ∑ i ∈ (vs.validators.map (·.index)).toFinset, (vs.weightOf i).toNat = vs.weightSum
  rw [List.sum_toFinset _ hd, List.map_map, weightSum]
  congr 1
  exact List.map_congr_left fun v hv => congrArg UInt64.toNat (weightOf_eq hd hv)

/-- Whatever the set, a quorum weighs no more than all its members together, unless nobody has
any weight. -/
theorem quorumWeight_le (h : vs.totalWeight ≠ 0) : vs.quorumWeight.toNat ≤ vs.totalWeight.toNat := by
  have hpos : vs.totalWeight.toNat ≠ 0 := fun h0 => h (UInt64.toNat_inj.mp h0)
  rw [toNat_quorumWeight]; omega

/-- Distinct members of the set, all of them `P`, whose weights add up to the quorum weight. -/
def Quorum (vs : ValidatorSet) (P : UInt64 → Prop) : Prop :=
  ∃ A : Finset UInt64, A ⊆ vs.indices ∧ (∀ v ∈ A, P v) ∧
    vs.quorumWeight.toNat ≤ ∑ v ∈ A, (vs.weightOf v).toNat

theorem quorum_of_weights {P : UInt64 → Prop} {A : Finset UInt64}
    (hq : vs.quorumWeight.toNat ≤ vs.weights.of A) (hP : ∀ v ∈ A, P v) : vs.Quorum P := by
  refine ⟨A ∩ vs.indices, Finset.inter_subset_right, fun v hv => hP v (Finset.mem_inter.mp hv).1, ?_⟩
  have := vs.weights.of_inter_members A
  exact hq.trans this.ge

/-- The fault budget `quorum_weight` is computed from. -/
def faultBudget (vs : ValidatorSet) : Nat := (vs.totalWeight.toNat - 1) / 3

end ValidatorSet

end Eth2077
