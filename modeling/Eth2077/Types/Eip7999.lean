import Eth2077.Lib.ProRata
import Eth2077.Lib.Saturating
import Eth2077.Lib.Seen

/-!
# Fees in several dimensions (`types/src/eip7999.rs`)

A transaction states its usage of some resources, each with a base fee of its own. It pays the base cost of all, and of
what its maximum leaves a priority fee, which is split among the resources in proportion to their costs. All of it is
computed with 128 bits that saturate.
-/

namespace Eth2077
namespace Eip7999

abbrev U128 := BitVec 128

inductive ResourceDimension where
  | computation
  | calldata
  | blobData
  | storage
deriving DecidableEq

structure DimensionParams where
  dimension : ResourceDimension
  baseFee : U128
  targetUsage : UInt64
  maxUsage : UInt64
  elasticityMultiplier : UInt64

structure MultidimTransaction where
  maxFee : U128
  resourceUsage : List (ResourceDimension × UInt64)
  priorityFee : U128

structure FeeAllocation where
  dimension : ResourceDimension
  baseCost : U128
  allocatedFee : U128
  usage : UInt64
deriving DecidableEq

structure MultidimFeeResult where
  totalBaseCost : U128
  totalFee : U128
  priorityFeePaid : U128
  allocations : List FeeAllocation
  isSufficient : Bool
deriving DecidableEq

inductive MultidimFeeError where
  | insufficientFee (required provided : U128)
  | exceedsMaxUsage (dimension : ResourceDimension) (usage max : UInt64)
  | zeroBaseFee (dimension : ResourceDimension)
  | duplicateDimension (dimension : ResourceDimension)
  | noResourceUsage
deriving DecidableEq

def findParams (params : List DimensionParams) (dimension : ResourceDimension) : Option DimensionParams :=
  params.find? fun candidate => candidate.dimension = dimension

/-- `base_fee.saturating_mul(u128::from(usage))` -/
def DimensionParams.cost (p : DimensionParams) (usage : UInt64) : U128 :=
  p.baseFee.saturatingMul (.ofNat 128 usage.toNat)

section Model
variable (params : List DimensionParams) (tx : MultidimTransaction)

/-- The loop of `compute_base_cost`. -/
def baseCostLoop : Finset ResourceDimension → U128 → List (ResourceDimension × UInt64) → Except MultidimFeeError U128
  | _, total, [] => .ok total
  | seen, total, (dimension, usage) :: rest =>
    if dimension ∈ seen then .error (.duplicateDimension dimension)
    else
      match findParams params dimension with
      | none => .error (.zeroBaseFee dimension)
      | some p =>
        if p.baseFee = 0 then .error (.zeroBaseFee dimension)
        else if p.maxUsage < usage then .error (.exceedsMaxUsage dimension usage p.maxUsage)
        else baseCostLoop (insert dimension seen) (total.saturatingAdd (p.cost usage)) rest

def computeBaseCost : Except MultidimFeeError U128 :=
  if tx.resourceUsage = [] then .error .noResourceUsage else baseCostLoop params ∅ 0 tx.resourceUsage

/-- `none` where the parameters are missing, on which `expect` panics. -/
def allocate (u : ResourceDimension × UInt64) : Option FeeAllocation :=
  (findParams params u.1).map fun p => ⟨u.1, p.cost u.2, p.cost u.2, u.2⟩

def share (priorityFeePaid totalBaseCost : U128) (allocation : FeeAllocation) : U128 :=
  let product := priorityFeePaid.saturatingMul allocation.baseCost
  -- `checked_div` and `unwrap_or(0)`
  if totalBaseCost = 0 then 0 else product / totalBaseCost

def FeeAllocation.credit (fee : U128) (allocation : FeeAllocation) : FeeAllocation :=
  { allocation with allocatedFee := allocation.allocatedFee.saturatingAdd fee }

/-- The loop over the allocations, with the sum of the shares. -/
def distribute (priorityFeePaid totalBaseCost : U128) : U128 → List FeeAllocation → U128 × List FeeAllocation
  | distributed, [] => (distributed, [])
  | distributed, allocation :: rest =>
    let fee := share priorityFeePaid totalBaseCost allocation
    let (distributed, rest) := distribute priorityFeePaid totalBaseCost (distributed.saturatingAdd fee) rest
    (distributed, allocation.credit fee :: rest)

def creditFirst (fee : U128) : List FeeAllocation → List FeeAllocation
  | [] => []
  | first :: rest => first.credit fee :: rest

def payPriorityFee (priorityFeePaid totalBaseCost : U128) (allocations : List FeeAllocation) : List FeeAllocation :=
  if 0 < priorityFeePaid ∧ allocations ≠ [] then
    if 0 < totalBaseCost then
      let (distributed, allocations) := distribute priorityFeePaid totalBaseCost 0 allocations
      creditFirst (priorityFeePaid.saturatingSub distributed) allocations
    else creditFirst priorityFeePaid allocations
  else allocations

/-- `none` is a panic. -/
def computeFeeAllocation : Option (Except MultidimFeeError MultidimFeeResult) :=
  match computeBaseCost params tx with
  | .error err => some (.error err)
  | .ok totalBaseCost =>
    let isSufficient : Bool := totalBaseCost ≤ tx.maxFee
    if ¬ isSufficient then some (.error (.insufficientFee totalBaseCost tx.maxFee))
    else
      let remaining := tx.maxFee.saturatingSub totalBaseCost
      -- `priority_fee.min(remaining)`
      let priorityFeePaid := if remaining < tx.priorityFee then remaining else tx.priorityFee
      (tx.resourceUsage.mapM (allocate params)).map fun allocations =>
        .ok ⟨totalBaseCost, totalBaseCost.saturatingAdd priorityFeePaid, priorityFeePaid,
          payPriorityFee priorityFeePaid totalBaseCost allocations, isSufficient⟩

/-- The loop of `validate_multidim_transaction`: the errors it finds and what it requires. -/
def validateLoop : Finset ResourceDimension → Finset ResourceDimension → U128 → List (ResourceDimension × UInt64) →
    List MultidimFeeError × U128
  | _, _, required, [] => ([], required)
  | seen, duplicateReported, required, (dimension, usage) :: rest =>
    let duplicate : Bool := dimension ∈ seen
    let duplicateErrors := if duplicate ∧ dimension ∉ duplicateReported then [.duplicateDimension dimension] else []
    let duplicateReported := if duplicate then insert dimension duplicateReported else duplicateReported
    let (usageErrors, required) :=
      match findParams params dimension with
      | none => ([], required)
      | some p =>
        (if p.maxUsage < usage then [.exceedsMaxUsage dimension usage p.maxUsage] else [],
          required.saturatingAdd (p.cost usage))
    let (errors, required) := validateLoop (insert dimension seen) duplicateReported required rest
    (duplicateErrors ++ usageErrors ++ errors, required)

def validateMultidimTransaction : Except (List MultidimFeeError) Unit :=
  let (errors, required) := validateLoop params ∅ ∅ 0 tx.resourceUsage
  Seen.report
    ((if tx.resourceUsage = [] then [.noResourceUsage] else []) ++ errors ++
      (if tx.maxFee < required then [.insufficientFee required tx.maxFee] else []))

end Model

/-! ### The base cost -/

section BaseCost
variable {params : List DimensionParams} {tx : MultidimTransaction} {l : List (ResourceDimension × UInt64)}

theorem toNat_cost (p : DimensionParams) (usage : UInt64) :
    (p.cost usage).toNat = min (p.baseFee.toNat * usage.toNat) (BitVec.maxNat 128) := by
  have hfits : usage.toNat < 2 ^ 128 := usage.toNat_lt.trans (by decide)
  rw [DimensionParams.cost, BitVec.toNat_saturatingMul, BitVec.toNat_ofNat, Nat.mod_eq_of_lt hfits]

/-- The base fee times the usage, which is nothing where the parameters are missing. -/
def exactCost (params : List DimensionParams) (u : ResourceDimension × UInt64) : ℕ :=
  match findParams params u.1 with
  | none => 0
  | some p => p.baseFee.toNat * u.2.toNat

def exactTotal (params : List DimensionParams) (l : List (ResourceDimension × UInt64)) : ℕ :=
  (l.map (exactCost params)).sum

/-- Every dimension has a base fee. -/
def Priced (params : List DimensionParams) (l : List (ResourceDimension × UInt64)) : Prop :=
  ∀ u ∈ l, ∃ p, findParams params u.1 = some p ∧ p.baseFee ≠ 0

/-- No usage is above its maximum. -/
def WithinMax (params : List DimensionParams) (l : List (ResourceDimension × UInt64)) : Prop :=
  ∀ u ∈ l, ∀ p, findParams params u.1 = some p → u.2 ≤ p.maxUsage

theorem exactCost_of_some {u : ResourceDimension × UInt64} {p : DimensionParams} (h : findParams params u.1 = some p) :
    exactCost params u = p.baseFee.toNat * u.2.toNat := by
  rw [exactCost, h]

theorem exactTotal_cons (u : ResourceDimension × UInt64) (l : List (ResourceDimension × UInt64)) :
    exactTotal params (u :: l) = exactCost params u + exactTotal params l := List.sum_cons

theorem toNat_add_cost {u : ResourceDimension × UInt64} {p : DimensionParams} (h : findParams params u.1 = some p)
    (total : U128) (rest : ℕ) :
    min ((total.saturatingAdd (p.cost u.2)).toNat + rest) (BitVec.maxNat 128) =
      min (total.toNat + (exactCost params u + rest)) (BitVec.maxNat 128) := by
  rw [BitVec.toNat_saturatingAdd, toNat_cost, exactCost_of_some h]
  omega

theorem forall_notMem_insert {seen : Finset ResourceDimension} {dimension : ResourceDimension} :
    (∀ u ∈ l, u.1 ∉ insert dimension seen) ↔ dimension ∉ l.map Prod.fst ∧ ∀ u ∈ l, u.1 ∉ seen := by
  simp only [Finset.mem_insert, not_or, forall_and, List.mem_map, not_exists, not_and]

/-- The loop goes through if every dimension comes once, with a base fee and within its maximum. -/
theorem baseCostLoop_eq_ok {seen : Finset ResourceDimension} {total t : U128} :
    baseCostLoop params seen total l = .ok t ↔
      ((l.map Prod.fst).Nodup ∧ ∀ u ∈ l, u.1 ∉ seen) ∧ Priced params l ∧ WithinMax params l ∧
        t.toNat = min (total.toNat + exactTotal params l) (BitVec.maxNat 128) := by
  induction l generalizing seen total with
  | nil =>
    have hle := total.toNat_le_maxNat
    simp [baseCostLoop, Priced, WithinMax, exactTotal, Nat.min_eq_left hle, ← BitVec.toNat_inj, eq_comm]
  | cons u l ih =>
    obtain ⟨dimension, usage⟩ := u
    rw [baseCostLoop, List.map_cons, List.nodup_cons]
    simp only [Priced, WithinMax, List.forall_mem_cons]
    by_cases hseen : dimension ∈ seen
    · simp [hseen]
    cases hp : findParams params dimension with
    | none => simp [hseen]
    | some p =>
      simp only [hseen, if_false]
      by_cases hfee : p.baseFee = 0
      · simp [hfee]
      by_cases hmax : p.maxUsage < usage
      · rw [if_neg hfee, if_pos hmax]
        simp [UInt64.not_le.mpr hmax]
      rw [if_neg hfee, if_neg hmax, ih, exactTotal_cons, toNat_add_cost (u := (dimension, usage)) hp]
      simp only [forall_notMem_insert, Priced, WithinMax, Option.some.injEq, forall_eq', exists_eq_left', ne_eq, hfee,
        not_false_eq_true, UInt64.not_lt.mp hmax, true_and, and_assoc]
      tauto

theorem computeBaseCost_eq_ok {t : U128} : computeBaseCost params tx = .ok t ↔
    tx.resourceUsage ≠ [] ∧ (tx.resourceUsage.map Prod.fst).Nodup ∧ Priced params tx.resourceUsage ∧
      WithinMax params tx.resourceUsage ∧ t.toNat = min (exactTotal params tx.resourceUsage) (BitVec.maxNat 128) := by
  unfold computeBaseCost
  split_ifs with hnil
  · simp [hnil]
  · rw [baseCostLoop_eq_ok]
    simp [hnil]

end BaseCost

/-! ### Validation -/

section Validation
variable {params : List DimensionParams} {tx : MultidimTransaction} {l : List (ResourceDimension × UInt64)}
  {seen reported : Finset ResourceDimension} {required : U128}

theorem validateLoop_required :
    (validateLoop params seen reported required l).2.toNat =
      min (required.toNat + exactTotal params l) (BitVec.maxNat 128) := by
  induction l generalizing seen reported required with
  | nil =>
    have hle := required.toNat_le_maxNat
    simp [validateLoop, exactTotal, Nat.min_eq_left hle]
  | cons u l ih =>
    obtain ⟨dimension, usage⟩ := u
    rw [validateLoop, exactTotal_cons]
    cases hp : findParams params dimension with
    | none =>
      have hcost : exactCost params (dimension, usage) = 0 := by rw [exactCost, hp]
      rw [hcost, Nat.zero_add]
      exact ih
    | some p =>
      rw [← toNat_add_cost (u := (dimension, usage)) hp]
      exact ih

/-- The loop has nothing to report if every dimension comes once and within its maximum. -/
theorem validateLoop_eq_nil : (validateLoop params seen ∅ required l).1 = [] ↔
    ((l.map Prod.fst).Nodup ∧ ∀ u ∈ l, u.1 ∉ seen) ∧ WithinMax params l := by
  induction l generalizing seen required with
  | nil => simp [validateLoop, WithinMax]
  | cons u l ih =>
    obtain ⟨dimension, usage⟩ := u
    rw [validateLoop, List.map_cons, List.nodup_cons]
    simp only [WithinMax, List.forall_mem_cons]
    by_cases hseen : dimension ∈ seen
    · simp [hseen]
    simp only [hseen, decide_false, Bool.false_eq_true, false_and, if_false, List.nil_append, List.append_eq_nil_iff, ih,
      forall_notMem_insert]
    cases hp : findParams params dimension with
    | none =>
      simp only [true_and, not_false_eq_true, WithinMax, reduceCtorEq, false_imp_iff, implies_true]
      tauto
    | some p =>
      simp only [ite_eq_right_iff, List.cons_ne_nil, imp_false, UInt64.not_lt, Option.some.injEq, forall_eq',
        not_false_eq_true, WithinMax, true_and]
      tauto

theorem validateMultidimTransaction_eq_ok : validateMultidimTransaction params tx = .ok () ↔
    tx.resourceUsage ≠ [] ∧ (tx.resourceUsage.map Prod.fst).Nodup ∧ WithinMax params tx.resourceUsage ∧
      min (exactTotal params tx.resourceUsage) (BitVec.maxNat 128) ≤ tx.maxFee.toNat := by
  have hrequired : (validateLoop params ∅ ∅ 0 tx.resourceUsage).2.toNat =
      min ((0 : U128).toNat + exactTotal params tx.resourceUsage) (BitVec.maxNat 128) := validateLoop_required
  rw [show (0 : U128).toNat = 0 from rfl, Nat.zero_add] at hrequired
  unfold validateMultidimTransaction
  dsimp only
  rw [Seen.report_eq_ok, List.append_eq_nil_iff, List.append_eq_nil_iff, validateLoop_eq_nil]
  simp only [ite_eq_right_iff, List.cons_ne_nil, imp_false, BitVec.lt_def, hrequired, not_lt]
  simp [and_assoc]

end Validation

/-! ### The allocation -/

section Allocation
variable {params : List DimensionParams} {tx : MultidimTransaction} {l : List (ResourceDimension × UInt64)}

/-- An allocation for each usage, with its cost for a fee. -/
theorem mapM_allocate (h : Priced params l) : ∃ allocations, l.mapM (allocate params) = some allocations ∧
    allocations.map (fun a => ((a.dimension, a.usage), a.baseCost.toNat)) =
      l.map (fun u => (u, min (exactCost params u) (BitVec.maxNat 128))) ∧
    ∀ a ∈ allocations, a.allocatedFee = a.baseCost := by
  induction l with
  | nil => exact ⟨[], rfl, rfl, nofun⟩
  | cons u l ih =>
    obtain ⟨⟨p, hp, -⟩, hl⟩ := List.forall_mem_cons.mp h
    obtain ⟨allocations, hmap, hcosts, hfees⟩ := ih hl
    refine ⟨⟨u.1, p.cost u.2, p.cost u.2, u.2⟩ :: allocations, ?_, ?_, List.forall_mem_cons.mpr ⟨rfl, hfees⟩⟩
    · rw [List.mapM_cons, hmap, allocate, hp]
      rfl
    · rw [List.map_cons, List.map_cons, hcosts, toNat_cost, exactCost_of_some hp]

/-- The priority fee that is left room for. -/
def paid (tx : MultidimTransaction) (totalBaseCost : U128) : U128 :=
  if tx.maxFee.saturatingSub totalBaseCost < tx.priorityFee then tx.maxFee.saturatingSub totalBaseCost
  else tx.priorityFee

/-- How an allocation comes about. -/
theorem computeFeeAllocation_eq_ok {r : MultidimFeeResult} : computeFeeAllocation params tx = some (.ok r) ↔
    ∃ t allocations, computeBaseCost params tx = .ok t ∧ t ≤ tx.maxFee ∧
      tx.resourceUsage.mapM (allocate params) = some allocations ∧
      r = ⟨t, t.saturatingAdd (paid tx t), paid tx t, payPriorityFee (paid tx t) t allocations, true⟩ := by
  unfold computeFeeAllocation
  cases hcost : computeBaseCost params tx with
  | error err => simp
  | ok t =>
    by_cases hle : t ≤ tx.maxFee
    · simp only [hle, decide_true, not_true_eq_false, if_false, Option.map_eq_some_iff, Except.ok.injEq]
      constructor
      · rintro ⟨allocations, hmap, rfl⟩
        exact ⟨t, allocations, rfl, hle, hmap, rfl⟩
      · rintro ⟨t, allocations, rfl, -, hmap, rfl⟩
        exact ⟨allocations, hmap, rfl⟩
    · simp [hle]

theorem computeFeeAllocation_isOk : (∃ r, computeFeeAllocation params tx = some (.ok r)) ↔
    tx.resourceUsage ≠ [] ∧ (tx.resourceUsage.map Prod.fst).Nodup ∧ Priced params tx.resourceUsage ∧
      WithinMax params tx.resourceUsage ∧
      min (exactTotal params tx.resourceUsage) (BitVec.maxNat 128) ≤ tx.maxFee.toNat := by
  constructor
  · rintro ⟨r, h⟩
    obtain ⟨t, allocations, hcost, hle, -⟩ := computeFeeAllocation_eq_ok.mp h
    obtain ⟨hne, hnodup, hpriced, hmax, ht⟩ := computeBaseCost_eq_ok.mp hcost
    exact ⟨hne, hnodup, hpriced, hmax, ht ▸ BitVec.le_def.mp hle⟩
  · rintro ⟨hne, hnodup, hpriced, hmax, hle⟩
    obtain ⟨t, ht⟩ : ∃ t : U128, t.toNat = min (exactTotal params tx.resourceUsage) (BitVec.maxNat 128) :=
      ⟨_, BitVec.toNat_ofNat_of_le (Nat.min_le_right _ _)⟩
    obtain ⟨allocations, hmap, -⟩ := mapM_allocate hpriced
    rw [← ht] at hle
    exact ⟨_, computeFeeAllocation_eq_ok.mpr ⟨t, allocations,
      computeBaseCost_eq_ok.mpr ⟨hne, hnodup, hpriced, hmax, ht⟩, BitVec.le_def.mpr hle, hmap, rfl⟩⟩

/-- `expect` never panics: what has a cost has parameters. -/
theorem computeFeeAllocation_isSome : (computeFeeAllocation params tx).isSome := by
  unfold computeFeeAllocation
  cases hcost : computeBaseCost params tx with
  | error err => rfl
  | ok t =>
    obtain ⟨-, -, hpriced, -⟩ := computeBaseCost_eq_ok.mp hcost
    obtain ⟨allocations, hmap, -⟩ := mapM_allocate hpriced
    rw [hmap]
    dsimp only
    split_ifs <;> rfl

end Allocation

/-! ### The priority fee -/

section PriorityFee
variable {fee t : U128} {a first : FeeAllocation} {as rest : List FeeAllocation}

theorem toNat_share : (share fee t a).toNat = min (fee.toNat * a.baseCost.toNat) (BitVec.maxNat 128) / t.toNat := by
  unfold share
  dsimp only
  split_ifs with hzero
  · rw [hzero, show (0 : U128).toNat = 0 from rfl, Nat.div_zero]
  · rw [BitVec.toNat_udiv, BitVec.toNat_saturatingMul]

theorem allocatedFee_credit (h : a.allocatedFee.toNat + fee.toNat ≤ BitVec.maxNat 128) :
    (a.credit fee).allocatedFee.toNat = a.allocatedFee.toNat + fee.toNat := by
  show (a.allocatedFee.saturatingAdd fee).toNat = _
  rw [BitVec.toNat_saturatingAdd, Nat.min_eq_left h]

variable (fee t) in
theorem distribute_eq (distributed : U128) (as : List FeeAllocation) :
    (distribute fee t distributed as).2 = as.map (fun a => a.credit (share fee t a)) ∧
    (distribute fee t distributed as).1.toNat =
      min (distributed.toNat + (as.map fun a => (share fee t a).toNat).sum) (BitVec.maxNat 128) := by
  induction as generalizing distributed with
  | nil =>
    have hle := distributed.toNat_le_maxNat
    exact ⟨rfl, by simp [distribute, Nat.min_eq_left hle]⟩
  | cons a as ih =>
    obtain ⟨hlist, hsum⟩ := ih (distributed.saturatingAdd (share fee t a))
    refine ⟨congrArg _ hlist, hsum.trans ?_⟩
    rw [BitVec.toNat_saturatingAdd, List.map_cons, List.sum_cons]
    omega

variable (fee t as) in
/-- The costs stay what they are. -/
theorem costs_payPriorityFee {β : Type} (f : FeeAllocation → β) (hf : ∀ fee a, f (a.credit fee) = f a) :
    (payPriorityFee fee t as).map f = as.map f := by
  have hfirst : ∀ fee as, (creditFirst fee as).map f = as.map f := by
    intro fee as
    cases as with
    | nil => rfl
    | cons a as => exact congrArg (· :: as.map f) (hf fee a)
  unfold payPriorityFee
  split_ifs
  · dsimp only
    rw [hfirst, (distribute_eq fee t 0 as).1, List.map_map]
    exact List.map_congr_left fun a _ => hf _ a
  · exact hfirst fee as
  · rfl

variable (fee) in
/-- All shares together are no more than what is shared. -/
theorem sum_shares_le (ht : (as.map fun a => a.baseCost.toNat).sum = t.toNat) :
    (as.map fun a => (share fee t a).toNat).sum ≤ fee.toNat := by
  have hshares : ((as.map fun a => a.baseCost.toNat).map fun c =>
      min (fee.toNat * c) (BitVec.maxNat 128) / t.toNat).sum ≤ fee.toNat :=
    ProRata.sum_shares_le fun c _ => by
      rw [ht]
      exact Nat.div_le_div_right (Nat.min_le_left _ _)
  rw [List.map_map] at hshares
  simpa only [Function.comp_def, ← toNat_share] using hshares

/-- There is room for what every allocation gets. -/
theorem allocatedFee_credit_share (hfees : ∀ a ∈ as, a.allocatedFee = a.baseCost)
    (ht : (as.map fun a => a.baseCost.toNat).sum = t.toNat) (hfits : t.toNat + fee.toNat ≤ BitVec.maxNat 128)
    (ha : a ∈ as) : (a.credit (share fee t a)).allocatedFee.toNat = a.baseCost.toNat + (share fee t a).toNat := by
  have hcost : a.baseCost.toNat ≤ t.toNat := by
    rw [← ht]
    exact List.single_le_sum (fun _ _ => Nat.zero_le _) _ (List.mem_map_of_mem ha)
  have hshare : (share fee t a).toNat ≤ fee.toNat :=
    (List.single_le_sum (fun _ _ => Nat.zero_le _) _ (List.mem_map_of_mem ha)).trans (sum_shares_le fee ht)
  rw [allocatedFee_credit (by rw [hfees a ha]; omega), hfees a ha]

/-- Each allocation gets its share, and the first one what is left over. -/
theorem distribute_fees (hfees : ∀ a ∈ first :: rest, a.allocatedFee = a.baseCost)
    (ht : ((first :: rest).map fun a => a.baseCost.toNat).sum = t.toNat)
    (hfits : t.toNat + fee.toNat ≤ BitVec.maxNat 128) :
    (creditFirst (fee.saturatingSub (distribute fee t 0 (first :: rest)).1) (distribute fee t 0 (first :: rest)).2).map
        (fun a => a.allocatedFee.toNat) =
      (first.baseCost.toNat + (fee.toNat - (rest.map fun a => (share fee t a).toNat).sum)) ::
        rest.map fun a => a.baseCost.toNat + (share fee t a).toNat := by
  have hsum := sum_shares_le fee ht
  have hcredit := fun a => allocatedFee_credit_share (a := a) hfees ht hfits
  rw [List.map_cons, List.sum_cons] at ht hsum
  have hothers : rest.map ((fun a => a.allocatedFee.toNat) ∘ fun a => a.credit (share fee t a)) =
      rest.map fun a => a.baseCost.toNat + (share fee t a).toNat :=
    List.map_congr_left fun a ha => hcredit a (List.mem_cons_of_mem first ha)
  obtain ⟨hlist, hdistributed⟩ := distribute_eq fee t 0 (first :: rest)
  rw [show (0 : U128).toNat = 0 from rfl, Nat.zero_add, List.map_cons, List.sum_cons] at hdistributed
  rw [hlist, List.map_cons, creditFirst, List.map_cons, List.map_map, hothers]
  congr 1
  rw [allocatedFee_credit, hcredit first List.mem_cons_self, BitVec.toNat_saturatingSub, hdistributed]
  · omega
  · rw [hcredit first List.mem_cons_self, BitVec.toNat_saturatingSub, hdistributed]
    omega

/-- Without shares the others get their costs. -/
theorem fees_of_no_shares (hrest : ∀ a ∈ rest, a.allocatedFee = a.baseCost) (hzero : ∀ a, (share fee t a).toNat = 0) :
    (rest.map fun a => (share fee t a).toNat).sum = 0 ∧
      (rest.map fun a => a.allocatedFee.toNat) = rest.map fun a => a.baseCost.toNat + (share fee t a).toNat := by
  constructor
  · simp [hzero]
  · exact List.map_congr_left fun a ha => by rw [hzero, hrest a ha, Nat.add_zero]

variable (fee) in
/-- What the first allocation gets, and what the others do. -/
theorem payPriorityFee_fees (hfees : ∀ a ∈ first :: rest, a.allocatedFee = a.baseCost)
    (ht : ((first :: rest).map fun a => a.baseCost.toNat).sum = t.toNat)
    (hfits : t.toNat + fee.toNat ≤ BitVec.maxNat 128) :
    (payPriorityFee fee t (first :: rest)).map (fun a => a.allocatedFee.toNat) =
      (first.baseCost.toNat + (fee.toNat - (rest.map fun a => (share fee t a).toNat).sum)) ::
        rest.map fun a => a.baseCost.toNat + (share fee t a).toNat := by
  have hfirst := hfees first List.mem_cons_self
  have hrest := fun a ha => hfees a (List.mem_cons_of_mem first ha)
  unfold payPriorityFee
  by_cases hfee : 0 < fee
  · rw [if_pos ⟨hfee, List.cons_ne_nil _ _⟩]
    by_cases htotal : 0 < t
    · rw [if_pos htotal]
      exact distribute_fees hfees ht hfits
    · have hzero : ∀ a, (share fee t a).toNat = 0 := by
        intro a
        rw [toNat_share, Nat.eq_zero_of_not_pos htotal, Nat.div_zero]
      obtain ⟨hsum, hothers⟩ := fees_of_no_shares hrest hzero
      rw [List.map_cons, List.sum_cons] at ht
      rw [if_neg htotal, hsum, ← hothers, Nat.sub_zero]
      show (first.credit fee).allocatedFee.toNat :: _ = _
      rw [allocatedFee_credit (by rw [hfirst]; omega), hfirst]
  · have hzero : ∀ a, (share fee t a).toNat = 0 := by
      intro a
      rw [toNat_share, Nat.eq_zero_of_not_pos hfee, Nat.zero_mul, Nat.zero_min, Nat.zero_div]
    obtain ⟨hsum, hothers⟩ := fees_of_no_shares hrest hzero
    rw [if_neg fun h => hfee h.1, hsum, ← hothers, Nat.eq_zero_of_not_pos hfee, Nat.sub_zero, Nat.add_zero,
      List.map_cons, hfirst]

variable (fee) in
/-- What is paid to the others, by their costs. -/
theorem payPriorityFee_tail (hfees : ∀ a ∈ first :: rest, a.allocatedFee = a.baseCost)
    (ht : ((first :: rest).map fun a => a.baseCost.toNat).sum = t.toNat)
    (hfits : t.toNat + fee.toNat ≤ BitVec.maxNat 128) :
    ∀ a ∈ (payPriorityFee fee t (first :: rest)).tail, a.allocatedFee.toNat =
      a.baseCost.toNat + min (fee.toNat * a.baseCost.toNat) (BitVec.maxNat 128) / t.toNat := by
  have hcosts : (payPriorityFee fee t (first :: rest)).tail.map (fun a => a.baseCost.toNat) =
      rest.map fun a => a.baseCost.toNat := by
    rw [List.map_tail, costs_payPriorityFee _ _ _ (fun a => a.baseCost.toNat) fun _ _ => rfl]
    rfl
  have hpaid : (payPriorityFee fee t (first :: rest)).tail.map (fun a => a.allocatedFee.toNat) =
      rest.map fun a => a.baseCost.toNat + (share fee t a).toNat := by
    rw [List.map_tail, payPriorityFee_fees fee hfees ht hfits]
    rfl
  -- the fees are a function of the costs, which are still there
  simp only [toNat_share] at hpaid
  refine List.map_inj_left.mp (hpaid.trans ?_)
  have := congrArg (List.map fun c => c + min (fee.toNat * c) (BitVec.maxNat 128) / t.toNat) hcosts
  rw [List.map_map, List.map_map] at this
  exact this.symm

end PriorityFee

/-! ### Fees are conserved -/

/-- In exact numbers: the costs and the fees add up, and every allocation but the first has its share rounded down. The
product that a share is divided from saturates. -/
structure Conserved (params : List DimensionParams) (tx : MultidimTransaction) (r : MultidimFeeResult) : Prop where
  total : exactTotal params tx.resourceUsage = r.totalBaseCost.toNat
  affordable : exactTotal params tx.resourceUsage ≤ tx.maxFee.toNat
  costs : r.allocations.map (fun a => ((a.dimension, a.usage), a.baseCost.toNat)) =
    tx.resourceUsage.map fun u => (u, exactCost params u)
  fees : (r.allocations.map fun a => a.allocatedFee.toNat).sum = r.totalFee.toNat
  shares : ∀ a ∈ r.allocations.tail, a.allocatedFee.toNat =
    a.baseCost.toNat + min (r.priorityFeePaid.toNat * a.baseCost.toNat) (BitVec.maxNat 128) / r.totalBaseCost.toNat

section Conservation
variable {params : List DimensionParams} {tx : MultidimTransaction} {r : MultidimFeeResult} {t : U128}

/-- The priority fee takes what is left at most. -/
theorem paid_le (h : t ≤ tx.maxFee) : t.toNat + (paid tx t).toNat ≤ tx.maxFee.toNat ∧ paid tx t ≤ tx.priorityFee := by
  have hle := BitVec.le_def.mp h
  unfold paid
  split_ifs with hlt
  · rw [BitVec.toNat_saturatingSub]
    exact ⟨by omega, BitVec.le_of_lt hlt⟩
  · rw [BitVec.lt_def, BitVec.toNat_saturatingSub] at hlt
    exact ⟨by omega, BitVec.le_refl _⟩

theorem exactCost_le_exactTotal {l : List (ResourceDimension × UInt64)} {u : ResourceDimension × UInt64} (hu : u ∈ l) :
    exactCost params u ≤ exactTotal params l :=
  List.single_le_sum (fun _ _ => Nat.zero_le _) _ (List.mem_map_of_mem hu)

theorem conserved (h : computeFeeAllocation params tx = some (.ok r))
    (hfits : exactTotal params tx.resourceUsage ≤ BitVec.maxNat 128) : Conserved params tx r := by
  obtain ⟨t, allocations, hcost, hle, hmap, rfl⟩ := computeFeeAllocation_eq_ok.mp h
  obtain ⟨hne, -, hpriced, -, ht⟩ := computeBaseCost_eq_ok.mp hcost
  rw [Nat.min_eq_left hfits] at ht
  obtain ⟨hpaid, -⟩ := paid_le hle
  have hmaxFee := tx.maxFee.toNat_le_maxNat
  obtain ⟨_, hmap', hcosts, hfees⟩ := mapM_allocate hpriced
  cases Option.some.inj (hmap.symm.trans hmap')
  have hexact : tx.resourceUsage.map (fun u => (u, min (exactCost params u) (BitVec.maxNat 128))) =
      tx.resourceUsage.map fun u => (u, exactCost params u) :=
    List.map_congr_left fun u hu => by rw [Nat.min_eq_left ((exactCost_le_exactTotal hu).trans hfits)]
  rw [hexact] at hcosts
  have hsum : (allocations.map fun a => a.baseCost.toNat).sum = t.toNat := by
    have := congrArg (List.map Prod.snd) hcosts
    rw [List.map_map, List.map_map] at this
    rw [ht]
    exact congrArg List.sum this
  have hkept := costs_payPriorityFee (paid tx t) t allocations
    (fun a => ((a.dimension, a.usage), a.baseCost.toNat)) fun _ _ => rfl
  cases allocations with
  | nil => exact absurd (List.map_eq_nil_iff.mp hcosts.symm) hne
  | cons first rest =>
    have hpay := payPriorityFee_fees (paid tx t) hfees hsum (by omega)
    have hshares := sum_shares_le (paid tx t) hsum
    refine ⟨ht.symm, ht ▸ BitVec.le_def.mp hle, hkept.trans hcosts, ?_, ?_⟩
    · rw [List.map_cons, List.sum_cons] at hsum hshares
      show (List.map _ (payPriorityFee (paid tx t) t (first :: rest))).sum = (t.saturatingAdd (paid tx t)).toNat
      rw [hpay, List.sum_cons, List.sum_map_add, BitVec.toNat_saturatingAdd]
      omega
    · exact fun a ha => payPriorityFee_tail (paid tx t) hfees hsum (by omega) a ha

/-- The total is the exact one as long as that fits, and then fees are conserved; where it does not fit, the total and
the maximum are the largest number, and nothing is left to pay a priority fee. -/
theorem fee_allocation_conserved (params : List DimensionParams) (tx : MultidimTransaction) (r : MultidimFeeResult)
    (h : computeFeeAllocation params tx = some (.ok r)) :
    (r.totalFee.toNat = r.totalBaseCost.toNat + r.priorityFeePaid.toNat ∧ r.totalFee ≤ tx.maxFee ∧
      r.priorityFeePaid ≤ tx.priorityFee) ∧
    (exactTotal params tx.resourceUsage ≤ BitVec.maxNat 128 → Conserved params tx r) ∧
    (BitVec.maxNat 128 < exactTotal params tx.resourceUsage →
      r.totalBaseCost.toNat = BitVec.maxNat 128 ∧ tx.maxFee.toNat = BitVec.maxNat 128 ∧ r.priorityFeePaid = 0) := by
  obtain ⟨t, allocations, hcost, hle, -, hr⟩ := computeFeeAllocation_eq_ok.mp h
  obtain ⟨-, -, -, -, ht⟩ := computeBaseCost_eq_ok.mp hcost
  obtain ⟨hpaid, hoffered⟩ := paid_le hle
  have hmaxFee := tx.maxFee.toNat_le_maxNat
  refine ⟨?_, conserved h, fun hbig => ?_⟩
  · have htotal : (t.saturatingAdd (paid tx t)).toNat = t.toNat + (paid tx t).toNat := by
      rw [BitVec.toNat_saturatingAdd, Nat.min_eq_left (hpaid.trans hmaxFee)]
    rw [hr, BitVec.le_def]
    exact ⟨htotal, htotal ▸ hpaid, hoffered⟩
  · rw [Nat.min_eq_right hbig.le] at ht
    have hnone : (paid tx t).toNat = 0 := by omega
    rw [hr]
    exact ⟨ht, by omega, BitVec.eq_of_toNat_eq hnone⟩

end Conservation

/-- A usage of each of two dimensions. -/
def twoDimensions (computation calldata maxFee priorityFee : U128) (usage : UInt64) :
    List DimensionParams × MultidimTransaction :=
  ([⟨.computation, computation, 0, 100, 1⟩, ⟨.calldata, calldata, 0, 100, 1⟩],
    ⟨maxFee, [(.computation, usage), (.calldata, usage)], priorityFee⟩)

theorem fee_allocation_conserved_two : ∃ r,
    computeFeeAllocation (twoDimensions 3 2 20 7 2).1 (twoDimensions 3 2 20 7 2).2 = some (.ok r) ∧
    r.allocations = [⟨.computation, 6, 11, 2⟩, ⟨.calldata, 4, 6, 2⟩] ∧
    Conserved (twoDimensions 3 2 20 7 2).1 (twoDimensions 3 2 20 7 2).2 r :=
  ⟨⟨10, 17, 7, [⟨.computation, 6, 11, 2⟩, ⟨.calldata, 4, 6, 2⟩], true⟩, rfl, rfl,
    (fee_allocation_conserved _ _ _ rfl).2.1 (by decide)⟩

/-- A cost beyond 128 bits is paid with the largest maximum, and a share is less than its part where the product it is
divided from is beyond 128 bits. -/
theorem fee_allocation_saturates :
    (∃ params tx r, computeFeeAllocation params tx = some (.ok r) ∧
      exactTotal params tx.resourceUsage = 2 ^ 129 ∧ r.totalBaseCost.toNat = 2 ^ 128 - 1) ∧
    ∃ params tx r a b, computeFeeAllocation params tx = some (.ok r) ∧ r.allocations = [a, b] ∧
      r.priorityFeePaid.toNat * b.baseCost.toNat / r.totalBaseCost.toNat = 2 ^ 99 ∧
      b.allocatedFee.toNat = b.baseCost.toNat + (2 ^ 63 - 1) := by
  let max : U128 := .allOnes 128
  let huge := twoDimensions (.twoPow 128 126) (.twoPow 128 126) max 0 4
  let large := twoDimensions (.twoPow 128 64) (.twoPow 128 64) (.twoPow 128 127) (.twoPow 128 100) 1
  let cost := BitVec.twoPow 128 64
  let fee := BitVec.twoPow 128 100
  let share := BitVec.twoPow 128 63 - 1
  refine ⟨⟨huge.1, huge.2, ⟨max, max, 0, [⟨.computation, max, max, 4⟩, ⟨.calldata, max, max, 4⟩], true⟩, ?_, ?_, ?_⟩,
    large.1, large.2, ⟨cost + cost, cost + cost + fee, fee,
      [⟨.computation, cost, cost + (fee - share), 1⟩, ⟨.calldata, cost, cost + share, 1⟩], true⟩, _, _, ?_, rfl, ?_, ?_⟩
  all_goals decide +kernel

/-! ### What is validated -/

/-- A transaction that validation refuses for its usages or its maximum. -/
def Refused (params : List DimensionParams) (tx : MultidimTransaction) : Prop :=
  tx.resourceUsage = [] ∨ ¬ (tx.resourceUsage.map Prod.fst).Nodup ∨
    (∃ u ∈ tx.resourceUsage, ∃ p, findParams params u.1 = some p ∧ p.maxUsage < u.2) ∨
    tx.maxFee.toNat < min (exactTotal params tx.resourceUsage) (BitVec.maxNat 128)

/-- Validation says what the allocation does if and only if all dimensions have a base fee, or it refuses for another
reason. -/
theorem validation_predicts_allocation_iff (params : List DimensionParams) (tx : MultidimTransaction) :
    ((validateMultidimTransaction params tx = .ok () ↔ ∃ r, computeFeeAllocation params tx = some (.ok r)) ↔
      Priced params tx.resourceUsage ∨ Refused params tx) := by
  rw [validateMultidimTransaction_eq_ok, computeFeeAllocation_isOk]
  have hmax : ¬ WithinMax params tx.resourceUsage ↔
      ∃ u ∈ tx.resourceUsage, ∃ p, findParams params u.1 = some p ∧ p.maxUsage < u.2 := by
    simp [WithinMax]
  unfold Refused
  rw [← hmax, ← not_le]
  tauto

/-- A dimension without parameters is free to validation. -/
theorem validation_ignores_missing_fee :
    validateMultidimTransaction [] ⟨0, [(.storage, 1)], 0⟩ = .ok () ∧
    computeFeeAllocation [] ⟨0, [(.storage, 1)], 0⟩ = some (.error (.zeroBaseFee .storage)) :=
  ⟨rfl, rfl⟩

end Eip7999
end Eth2077
