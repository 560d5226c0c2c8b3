import Mathlib.Algebra.GroupWithZero.Nat
import Eth2077.Execution.Executor

/-!
# Cumulative gas

The executor fills `cumulative_gas_used` with the gas of its one transaction; the builder and the validator sum that
field into the header and leave the receipts as they are. So a receipt carries what the block has used up to it only
where nothing before it used any gas. The gas limit of a header is copied into it and compared with nothing.
-/

namespace Eth2077

namespace BlockExecutor
variable (evm : Evm)

/-- The gas revm reports for the transaction. -/
def gasUsed (state : InMemoryStateDB) (tx : Transaction) : UInt64 :=
  match evm.build (txEnv tx) with
  | .error _ => 0
  | .ok env =>
    match evm.transact (database evm state) env with
    | .error _ => 0
    | .ok (result, _) => result.gasUsed

/-- What each transaction of a block uses, up to the first that fails. -/
def blockGas : InMemoryStateDB → List Transaction → List UInt64
  | _, [] => []
  | state, tx :: txs =>
    match executeTx evm state tx with
    | .error _ => []
    | .ok (_, state') => gasUsed evm state tx :: blockGas state' txs

variable {evm}

theorem cumulativeGasUsed_executeTx {state state' : InMemoryStateDB} {tx : Transaction} {receipt : Receipt}
    (h : executeTx evm state tx = .ok (receipt, state')) : receipt.cumulativeGasUsed = gasUsed evm state tx := by
  simp only [executeTx, bind, Except.bind, pure, Except.pure, throw, throwThe, MonadExceptOf.throw] at h
  unfold gasUsed
  split_ifs at h
  cases hbuild : evm.build (txEnv tx) with
  | error e => simp [hbuild, Except.mapError] at h
  | ok env =>
    cases htransact : evm.transact (database evm state) env with
    | error e => simp [hbuild, htransact, Except.mapError] at h
    | ok out =>
      obtain ⟨result, changes⟩ := out
      simp only [hbuild, htransact, Except.mapError] at h
      dsimp only
      rw [htransact]
      cases result with
      | halt reason gas => simp at h
      | success gas logs =>
        cases h
        rfl
      | revert gas =>
        cases h
        rfl

end BlockExecutor

open BlockExecutor

/-- The receipts of a block carry what was used up to them, and the header what was used in all. -/
structure CarriesCumulativeGas (gas : List UInt64) (receipts : List Receipt) (headerGas : UInt64) : Prop where
  running : ∀ i receipt, receipts[i]? = some receipt →
    receipt.cumulativeGasUsed.toNat = ((gas.map UInt64.toNat).take (i + 1)).sum
  ordered : (receipts.map Receipt.cumulativeGasUsed).Pairwise (· ≤ ·)
  total : headerGas = (receipts.getLast?.map Receipt.cumulativeGasUsed).getD 0

theorem sum_take_succ {l : List ℕ} {i a : ℕ} (h : l[i]? = some a) : (l.take (i + 1)).sum = (l.take i).sum + a := by
  rw [List.take_add_one, h]
  simp

/-- The elements are their own running sums if nothing comes before the last. -/
theorem eq_sum_take_iff {l : List ℕ} :
    (∀ i a, l[i]? = some a → a = (l.take (i + 1)).sum) ↔ ∀ a ∈ l.dropLast, a = 0 := by
  constructor
  · intro h a ha
    obtain ⟨i, hi⟩ := List.getElem?_of_mem ha
    have hlt : i < l.dropLast.length := (List.getElem?_eq_some_iff.mp hi).1
    rw [List.length_dropLast] at hlt
    rw [List.getElem?_dropLast, if_pos hlt] at hi
    -- the next element is its own running sum, so the sum before it is nothing
    obtain ⟨b, hb⟩ : ∃ b, l[i + 1]? = some b := ⟨_, List.getElem?_eq_getElem (by omega)⟩
    have hnext := h (i + 1) b hb
    rw [sum_take_succ hb] at hnext
    have hhere := h i a hi
    omega
  · intro h i a hi
    have hlt : i < l.length := (List.getElem?_eq_some_iff.mp hi).1
    have hbefore : (l.take i).sum = 0 := by
      refine List.sum_eq_zero fun b hb => h b ?_
      rw [List.dropLast_eq_take]
      exact List.take_subset_take_left l (by omega) hb
    rw [sum_take_succ hi, hbefore, Nat.zero_add]

/-- The loop collects the gas of the transactions, in the receipts one by one and in the header as a sum. -/
theorem loop_gas {ε : Type} {fail : ℕ → B256 → ExecutionError → ε} {evm : Evm} {index : ℕ} {txs : List Transaction}
    {ex ex' : Execution} (h : Execution.loop fail (executeTx evm) index txs ex = .ok ex') :
    ex'.receipts.map Receipt.cumulativeGasUsed =
        ex.receipts.map Receipt.cumulativeGasUsed ++ blockGas evm ex.state txs ∧
      ex'.gasUsed.toNat =
        min (ex.gasUsed.toNat + ((blockGas evm ex.state txs).map UInt64.toNat).sum) UInt64.maxNat := by
  induction txs generalizing index ex with
  | nil =>
    have := ex.gasUsed.toNat_le_maxNat
    cases h
    simp only [blockGas, List.append_nil, List.map_nil, List.sum_nil, Nat.add_zero, true_and]
    omega
  | cons tx txs ih =>
    rw [Execution.loop] at h
    rw [blockGas]
    cases hexec : executeTx evm ex.state tx with
    | error source =>
      rw [hexec] at h
      cases h
    | ok out =>
      obtain ⟨receipt, state⟩ := out
      rw [hexec] at h
      obtain ⟨hreceipts, hgas⟩ := ih h
      have hone := cumulativeGasUsed_executeTx hexec
      simp only [Execution.push, List.map_append, List.map_cons, List.map_nil, List.append_assoc, hone,
        List.singleton_append] at hreceipts
      refine ⟨hreceipts, ?_⟩
      rw [hgas, Execution.push, hone, UInt64.toNat_saturatingAdd, List.map_cons, List.sum_cons]
      dsimp only
      omega

theorem carries_iff {gas : List UInt64} {receipts : List Receipt} {headerGas : UInt64}
    (hreceipts : receipts.map Receipt.cumulativeGasUsed = gas) (hheader : headerGas.toNat = (gas.map UInt64.toNat).sum) :
    CarriesCumulativeGas gas receipts headerGas ↔ ∀ g ∈ gas.dropLast, g = 0 := by
  have hzeros : (∀ a ∈ (gas.map UInt64.toNat).dropLast, a = 0) ↔ ∀ g ∈ gas.dropLast, g = 0 := by
    rw [← List.map_dropLast, List.forall_mem_map]
    exact forall₂_congr fun g _ => UInt64.toNat_inj (b := 0)
  have hrunning : (∀ i receipt, receipts[i]? = some receipt →
      receipt.cumulativeGasUsed.toNat = ((gas.map UInt64.toNat).take (i + 1)).sum) ↔ ∀ g ∈ gas.dropLast, g = 0 := by
    rw [← hzeros, ← eq_sum_take_iff, ← hreceipts]
    simp only [List.map_map, List.getElem?_map, Option.map_eq_some_iff, forall_exists_index, and_imp,
      forall_apply_eq_imp_iff₂, Function.comp_apply]
  refine ⟨fun h => hrunning.mp h.running, fun h => ⟨hrunning.mpr h, ?_, ?_⟩⟩
  · rw [hreceipts]
    rcases List.eq_nil_or_concat gas with rfl | ⟨first, last, rfl⟩
    · exact List.Pairwise.nil
    · rw [List.concat_eq_append, List.dropLast_concat] at h
      rw [List.concat_eq_append, List.pairwise_append]
      refine ⟨List.pairwise_of_forall_mem_list fun a ha b hb => ?_, List.pairwise_singleton _ _, fun a ha b _ => ?_⟩
      · rw [h a ha, h b hb]
        exact UInt64.le_refl 0
      · rw [h a ha]
        exact UInt64.zero_le
  · rw [← List.getLast?_map, hreceipts]
    apply UInt64.toNat_inj.mp
    rw [hheader]
    rcases List.eq_nil_or_concat gas with rfl | ⟨first, last, rfl⟩
    · rfl
    · rw [List.concat_eq_append, List.dropLast_concat] at h
      have hfirst : (first.map UInt64.toNat).sum = 0 := by
        refine List.sum_eq_zero fun a ha => ?_
        obtain ⟨g, hg, rfl⟩ := List.mem_map.mp ha
        rw [h g hg]
        rfl
      simp [hfirst]

section Header
variable {keccak256 : List UInt8 → B256} {evm : Evm} {txs : List Transaction} {block : Block}
  {state : InMemoryStateDB}

/-- What the transactions of a block use in all. -/
def totalGas (evm : Evm) (state : InMemoryStateDB) (txs : List Transaction) : ℕ :=
  ((blockGas evm state txs).map UInt64.toNat).sum

theorem loop_totalGas {ε : Type} {fail : ℕ → B256 → ExecutionError → ε} {ex : Execution}
    (h : Execution.loop fail (executeTx evm) 0 txs (.start state) = .ok ex) :
    ex.gasUsed.toNat = min (totalGas evm state txs) UInt64.maxNat := by
  rw [(loop_gas h).2, totalGas]
  simp only [Execution.start, UInt64.toNat_zero, Nat.zero_add]

theorem validateBlock_gasUsed {ex : Execution} (h : BlockValidator.check keccak256 block ex = .ok ()) :
    block.header.gasUsed = ex.gasUsed := by
  obtain ⟨-, -, -, hheader, -⟩ := (BlockValidator.check_eq_ok ⟨FixedBytes.zero, none, none⟩ block.header).mp h
  exact hheader

end Header

/-- A block that was built, or that a validator accepts, carries cumulative gas if and only if no transaction but
its last used any. -/
theorem cumulative_gas_iff (keccak256 : List UInt8 → B256) (evm : Evm) :
    (∀ config parent txs state built,
      BlockBuilder.buildBlock keccak256 (executeTx evm) config parent txs state = .ok built →
      ((blockGas evm state txs).map UInt64.toNat).sum < 2 ^ 64 →
      (CarriesCumulativeGas (blockGas evm state txs) built.receipts built.block.header.gasUsed ↔
        ∀ g ∈ (blockGas evm state txs).dropLast, g = 0)) ∧
    (∀ block pre, BlockValidator.validateBlock keccak256 (executeTx evm) block pre = .ok () →
      ((blockGas evm pre block.transactions).map UInt64.toNat).sum < 2 ^ 64 →
      ∃ ex, Execution.loop ValidationError.transactionExecutionFailed (executeTx evm) 0 block.transactions (.start pre) =
          .ok ex ∧
        (CarriesCumulativeGas (blockGas evm pre block.transactions) ex.receipts block.header.gasUsed ↔
          ∀ g ∈ (blockGas evm pre block.transactions).dropLast, g = 0)) := by
  have hexact : ∀ {total : ℕ}, total < 2 ^ 64 → min total UInt64.maxNat = total := by
    intro total hfits
    rw [UInt64.maxNat]
    omega
  constructor
  · intro config parent txs state built hbuild hfits
    obtain ⟨ex, hloop, rfl⟩ := BlockBuilder.buildBlock_eq_ok.mp hbuild
    exact carries_iff (loop_gas hloop).1 ((loop_totalGas hloop).trans (hexact hfits))
  · intro block pre hvalid hfits
    obtain ⟨ex, hloop, hcheck⟩ := BlockValidator.validateBlock_eq_ok.mp hvalid
    refine ⟨ex, hloop, carries_iff (loop_gas hloop).1 ?_⟩
    rw [validateBlock_gasUsed hcheck]
    exact (loop_totalGas hloop).trans (hexact hfits)

/-! ### The gas limit -/

/-- A sum that stops at the greatest number of its type is within a limit: it is so itself, or the limit is that
number. -/
theorem saturated_le_iff {used limit : UInt64} {total : ℕ} (h : used.toNat = min total UInt64.maxNat) :
    used ≤ limit ↔ total ≤ limit.toNat ∨ limit.toNat = UInt64.maxNat := by
  have := limit.toNat_le_maxNat
  rw [UInt64.le_iff_toNat_le, h]
  omega

/-- The header has the limit of the configuration or of the parent, and the gas of the transactions; a validator
holds the second against them and would take any limit. -/
theorem gas_limit_unchecked (keccak256 : List UInt8 → B256) (evm : Evm) :
    (∀ config parent txs state built,
      BlockBuilder.buildBlock keccak256 (executeTx evm) config parent txs state = .ok built →
      built.block.header.gasLimit = config.gasLimit.getD parent.gasLimit ∧
      built.block.header.gasUsed.toNat = min (totalGas evm state txs) UInt64.maxNat ∧
      (built.block.header.gasUsed ≤ built.block.header.gasLimit ↔
        totalGas evm state txs ≤ (config.gasLimit.getD parent.gasLimit).toNat ∨
          (config.gasLimit.getD parent.gasLimit).toNat = UInt64.maxNat)) ∧
    (∀ block pre, BlockValidator.validateBlock keccak256 (executeTx evm) block pre = .ok () →
      block.header.gasUsed.toNat = min (totalGas evm pre block.transactions) UInt64.maxNat ∧
      (block.header.gasUsed ≤ block.header.gasLimit ↔
        totalGas evm pre block.transactions ≤ block.header.gasLimit.toNat ∨
          block.header.gasLimit.toNat = UInt64.maxNat)) ∧
    (∀ block pre gasLimit,
      BlockValidator.validateBlock keccak256 (executeTx evm)
          { block with header := { block.header with gasLimit := gasLimit } } pre =
        BlockValidator.validateBlock keccak256 (executeTx evm) block pre) := by
  refine ⟨?_, ?_, fun block pre gasLimit => rfl⟩
  · intro config parent txs state built hbuild
    obtain ⟨ex, hloop, rfl⟩ := BlockBuilder.buildBlock_eq_ok.mp hbuild
    have hgas := loop_totalGas hloop
    exact ⟨rfl, hgas, saturated_le_iff hgas⟩
  · intro block pre hvalid
    obtain ⟨ex, hloop, hcheck⟩ := BlockValidator.validateBlock_eq_ok.mp hvalid
    have hgas := loop_totalGas hloop
    rw [← validateBlock_gasUsed hcheck] at hgas
    exact ⟨hgas, saturated_le_iff hgas⟩

/-! ### Blocks of calls -/

open BlockValidator

def callBlock (txs : List Transaction) : Except BlockBuildError BuiltBlock :=
  BlockBuilder.buildBlock callDigest (executeTx plainCall) ⟨.zero, none, none⟩ .genesis txs callState

/-- One call carries its gas, built or validated. -/
theorem cumulative_gas_iff_one_call :
    (∃ built, callBlock [callTx] = .ok built ∧
      CarriesCumulativeGas [21000] built.receipts built.block.header.gasUsed) ∧
    ∃ ex, Execution.loop ValidationError.transactionExecutionFailed (executeTx plainCall) 0 [callTx] (.start callState) =
        .ok ex ∧ CarriesCumulativeGas [21000] ex.receipts (callHeader callDigest).gasUsed := by
  have hgas : blockGas plainCall callState [callTx] = [21000] := rfl
  have hfits : ((blockGas plainCall callState [callTx]).map UInt64.toNat).sum < 2 ^ 64 := by
    rw [hgas]
    decide
  have hlast : ∀ g ∈ (blockGas plainCall callState [callTx]).dropLast, g = 0 := by
    rw [hgas]
    exact nofun
  constructor
  · exact ⟨_, rfl, ((cumulative_gas_iff callDigest plainCall).1 ⟨.zero, none, none⟩ .genesis [callTx] callState _ rfl
      hfits).mpr hlast⟩
  · obtain ⟨ex, hloop, hcarries⟩ := (cumulative_gas_iff callDigest plainCall).2
      ⟨callHeader callDigest, [callTx], []⟩ callState (validateBlock_callTx callDigest 0) hfits
    exact ⟨ex, hloop, hcarries.mpr hlast⟩

/-- The second of two calls carries its own gas, and the header the gas of both. -/
theorem two_calls_not_cumulative : ∃ built, callBlock [callTx, { callTx with nonce := 1 }] = .ok built ∧
    built.receipts.map Receipt.cumulativeGasUsed = [21000, 21000] ∧ built.block.header.gasUsed = 42000 ∧
    ¬ CarriesCumulativeGas [21000, 21000] built.receipts built.block.header.gasUsed := by
  refine ⟨_, rfl, rfl, rfl, fun h => ?_⟩
  exact absurd h.total (by decide)

/-- One too low for a call. -/
def lowLimit : BlockBuilderConfig := ⟨.zero, none, some 20999⟩

def lowLimitBlock : BuiltBlock := BlockBuilder.finish callDigest lowLimit .genesis [callTx] callExecution

theorem buildBlock_lowLimit :
    BlockBuilder.buildBlock callDigest (executeTx plainCall) lowLimit .genesis [callTx] callState = .ok lowLimitBlock :=
  BlockBuilder.buildBlock_eq_ok.mpr ⟨callExecution, rfl, rfl⟩

theorem gas_limit_unchecked_of_call :
    (lowLimitBlock.block.header.gasLimit = 20999 ∧ lowLimitBlock.block.header.gasUsed.toNat = 21000) ∧
    (callHeader callDigest).gasUsed.toNat = 21000 := by
  have htotal : min (totalGas plainCall callState [callTx]) UInt64.maxNat = 21000 := rfl
  obtain ⟨hbuilt, hvalid, -⟩ := gas_limit_unchecked callDigest plainCall
  obtain ⟨hlimit, hused, -⟩ := hbuilt lowLimit .genesis [callTx] callState _ buildBlock_lowLimit
  obtain ⟨hheader, -⟩ := hvalid ⟨callHeader callDigest, [callTx], []⟩ callState (validateBlock_callTx callDigest 0)
  exact ⟨⟨hlimit, hused.trans htotal⟩, hheader.trans htotal⟩

/-- Built over its limit, and accepted so. -/
theorem built_over_gas_limit :
    BlockBuilder.buildBlock callDigest (executeTx plainCall) lowLimit .genesis [callTx] callState =
      .ok lowLimitBlock ∧
    validateBlock callDigest (executeTx plainCall) lowLimitBlock.block callState = .ok () ∧
    ¬ lowLimitBlock.block.header.gasUsed ≤ lowLimitBlock.block.header.gasLimit := by
  refine ⟨buildBlock_lowLimit, ?_, ?_⟩
  · refine validateBlock_eq_ok.mpr ⟨callExecution, loop_callTx 0, ?_⟩
    exact (check_eq_ok lowLimit .genesis).mpr ⟨rfl, rfl, rfl, rfl, rfl⟩
  · show ¬ (21000 : UInt64) ≤ 20999
    decide

end Eth2077
