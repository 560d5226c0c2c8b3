import Eth2077.Execution.Executor

/-!
# What the state root commits to

The bytes under the root are a prefix code of the sorted accounts, so equal roots mean equal
accounts, unless `keccak256` collides on them. Storage is not among those bytes:
`storage_not_committed`.
-/

namespace Eth2077
open PrefixCode

/-! ### The encoding of one account -/

theorem isPrefixCode_u256 : IsPrefixCode fun n : U256 => beBytes 32 n.toNat := isPrefixCode_bitVec 32

theorem isPrefixCode_bytes : IsPrefixCode fun bs : Bytes => beBytes 8 bs.1.length ++ bs.1 := by
  have hlen : ∀ n : { n // n < 2 ^ 63 }, n.1 < 256 ^ 8 := fun n => n.2.trans (by omega)
  refine lengthPrefixed ((isPrefixCode_beBytes 8).comp (p := fun n => ⟨n.1, hlen n⟩) ?_)
  intro a b h
  exact Subtype.ext (Subtype.mk.inj h)

theorem isPrefixCode_encodeCode : IsPrefixCode encodeCode := by
  have hcode : encodeCode = PrefixCode.option fun code : Bytes => beBytes 8 code.1.length ++ code.1 := by
    funext code
    cases code <;> rfl
  rw [hcode]
  exact isPrefixCode_bytes.option

theorem isPrefixCode_encodeAccount :
    IsPrefixCode fun x : Address × AccountInfo => encodeAccount x.1 x.2 := by
  have hcode : IsPrefixCode fun x : B256 × Option Bytes => x.1.toList ++ encodeCode x.2 :=
    (isPrefixCode_fixedBytes 32).append isPrefixCode_encodeCode fun _ _ => Prod.ext
  have hbalance : IsPrefixCode fun x : U256 × B256 × Option Bytes =>
      beBytes 32 x.1.toNat ++ (x.2.1.toList ++ encodeCode x.2.2) :=
    isPrefixCode_u256.append hcode fun _ _ => Prod.ext
  have hnonce : IsPrefixCode fun x : UInt64 × U256 × B256 × Option Bytes =>
      toBeBytes x.1 ++ (beBytes 32 x.2.1.toNat ++ (x.2.2.1.toList ++ encodeCode x.2.2.2)) :=
    isPrefixCode_toBeBytes.append hbalance fun _ _ => Prod.ext
  refine (isPrefixCode_fixedBytes 20).append (p := Prod.fst)
    (q := fun x : Address × AccountInfo => (x.2.nonce, x.2.balance, x.2.codeHash, x.2.code)) hnonce ?_
  rintro ⟨a, ⟨balance, nonce, codeHash, code⟩⟩ ⟨a', ⟨balance', nonce', codeHash', code'⟩⟩ rfl hq
  cases hq; rfl

/-! ### The whole payload -/

variable {db db₁ db₂ : InMemoryStateDB} {a : Address}

theorem mem_sortedAddresses : a ∈ sortedAddresses db ↔ a ∈ db.accounts := by
  unfold sortedAddresses
  rw [List.mem_insertionSort, AList.mem_keys]

theorem getAccount_of_notMem (h : a ∉ db.accounts) : db.getAccount a = default := by
  unfold InMemoryStateDB.getAccount
  rw [AList.lookup_eq_none.mpr h]; rfl

def sortedAccounts (db : InMemoryStateDB) : List (Address × AccountInfo) :=
  (sortedAddresses db).map fun address => (address, db.getAccount address)

theorem statePayload_eq (db : InMemoryStateDB) : statePayload db =
    beBytes 8 (sortedAddresses db).length ++ (sortedAccounts db).flatMap fun x => encodeAccount x.1 x.2 := by
  rw [statePayload, sortedAccounts, List.flatMap_map]

theorem encodeAccount_ne_nil (x : Address × AccountInfo) : encodeAccount x.1 x.2 ≠ [] := by
  intro h
  have := congrArg List.length h
  simp [encodeAccount] at this

theorem sortedAccounts_of_payload (h : statePayload db₁ = statePayload db₂) :
    sortedAccounts db₁ = sortedAccounts db₂ := by
  rw [statePayload_eq, statePayload_eq] at h
  obtain ⟨-, h2⟩ := List.append_inj h (by rw [length_beBytes, length_beBytes])
  exact isPrefixCode_encodeAccount.flatMap_injective encodeAccount_ne_nil h2

theorem accounts_eq_of_sortedAccounts (h : sortedAccounts db₁ = sortedAccounts db₂) (a : Address) :
    db₁.getAccount a = db₂.getAccount a ∧ db₁.accountExists a = db₂.accountExists a := by
  have haddr : sortedAddresses db₁ = sortedAddresses db₂ := by
    simpa [sortedAccounts, Function.comp_def] using congrArg (List.map Prod.fst) h
  have hmem : a ∈ db₁.accounts ↔ a ∈ db₂.accounts := by
    rw [← mem_sortedAddresses, haddr, mem_sortedAddresses]
  refine ⟨?_, by simp only [InMemoryStateDB.accountExists, hmem]⟩
  by_cases ha : a ∈ db₁.accounts
  · have : (a, db₁.getAccount a) ∈ sortedAccounts db₂ :=
      h ▸ List.mem_map.mpr ⟨a, mem_sortedAddresses.mpr ha, rfl⟩
    obtain ⟨a', -, heq⟩ := List.mem_map.mp this
    obtain ⟨rfl, hacc⟩ := Prod.mk.inj heq
    exact hacc.symm
  · rw [getAccount_of_notMem ha, getAccount_of_notMem (mt hmem.mpr ha)]

def CollisionFree (keccak256 : List UInt8 → B256) (db₁ db₂ : InMemoryStateDB) : Prop :=
  Set.InjOn keccak256 {statePayload db₁, statePayload db₂}

theorem CollisionFree.accounts_eq {keccak256 : List UInt8 → B256} (hc : CollisionFree keccak256 db₁ db₂)
    (hroot : computeStateRoot keccak256 db₁ = computeStateRoot keccak256 db₂) (a : Address) :
    db₁.getAccount a = db₂.getAccount a ∧ db₁.accountExists a = db₂.accountExists a :=
  accounts_eq_of_sortedAccounts (sortedAccounts_of_payload (hc (by simp) (by simp) hroot)) a

/-- Equal state roots mean equal accounts; so the header of an accepted block fixes the accounts of
the state it leads to. -/
theorem state_root_fixes_accounts (keccak256 : List UInt8 → B256) (execute : ExecuteTx) (db : InMemoryStateDB) :
    (∀ db', CollisionFree keccak256 db db' → computeStateRoot keccak256 db = computeStateRoot keccak256 db' →
      ∀ a, db.getAccount a = db'.getAccount a ∧ db.accountExists a = db'.accountExists a) ∧
    ∀ block pre, BlockValidator.validateBlock keccak256 execute block pre = .ok () →
      computeStateRoot keccak256 db = block.header.stateRoot →
      ∃ ex, Execution.loop ValidationError.transactionExecutionFailed execute 0 block.transactions (.start pre) = .ok ex ∧
        (CollisionFree keccak256 db ex.state →
          ∀ a, db.getAccount a = ex.state.getAccount a ∧ db.accountExists a = ex.state.accountExists a) := by
  refine ⟨fun db' hc hroot a => hc.accounts_eq hroot a, fun block pre hval hroot => ?_⟩
  obtain ⟨ex, hloop, hpost, -⟩ := BlockValidator.exists_of_validateBlock hval
  exact ⟨ex, hloop, fun hc a => hc.accounts_eq (hroot.trans hpost) a⟩

open BlockValidator

/-- The accounts that the call leaves, inserted in another order, with one that came and went and a slot
that was written. -/
def calledState : InMemoryStateDB :=
  let db := InMemoryStateDB.new.insertAccount (.repeatByte 4) slotReader
  let db := (db.insertAccount (.repeatByte 2) ⟨9, 0, keccakEmpty, none⟩).setStorage (.repeatByte 4) 0 1
  let db := db.insertAccount .zero ⟨1, 0, keccakEmpty, some Bytes.default⟩
  let db := (db.insertAccount (.repeatByte 3) ⟨7, 0, keccakEmpty, none⟩).removeAccount (.repeatByte 2)
  db.insertAccount (.repeatByte 1) ⟨5, 1, keccakEmpty, some Bytes.default⟩

theorem statePayload_calledState : statePayload calledState = statePayload callExecution.state := by
  decide +kernel

/-- The header of the block of one call has the root of these accounts, so the block leads to them. -/
theorem state_root_fixes_accounts_of_call :
    computeStateRoot callDigest calledState =
        .ofNat 32 0x6f4aa4d442a170740d1587f675ac7fcf070f13b8464dfde5d740cc6607a034c6 ∧
      (∀ a, calledState.getAccount a = callExecution.state.getAccount a ∧
        calledState.accountExists a = callExecution.state.accountExists a) ∧
      ∃ ex, Execution.loop ValidationError.transactionExecutionFailed (BlockExecutor.executeTx plainCall) 0 [callTx]
          (.start callState) = .ok ex ∧
        ∀ a, calledState.getAccount a = ex.state.getAccount a ∧ calledState.accountExists a = ex.state.accountExists a := by
  have hfree : CollisionFree callDigest calledState callExecution.state := by
    rw [CollisionFree, statePayload_calledState, Set.pair_eq_singleton]
    exact Set.injOn_singleton _ _
  have hroot : computeStateRoot callDigest calledState = computeStateRoot callDigest callExecution.state :=
    congrArg callDigest statePayload_calledState
  obtain ⟨hstates, hblocks⟩ := state_root_fixes_accounts callDigest (BlockExecutor.executeTx plainCall) calledState
  obtain ⟨ex, hloop, hex⟩ := hblocks ⟨callHeader callDigest, [callTx], []⟩ callState (validateBlock_callTx callDigest 0)
    (hroot.trans (callHeader_stateRoot callDigest).symm)
  refine ⟨by decide +kernel, hstates _ hfree hroot, ex, hloop, hex ?_⟩
  obtain rfl : callExecution = ex := Except.ok.inj ((loop_callTx 0).symm.trans hloop)
  exact hfree

/-- Two states that differ in a storage slot have one root, whatever the hash function. -/
theorem storage_not_committed :
    let db := InMemoryStateDB.new.insertAccount (.repeatByte 1) ⟨5, 0, .zero, none⟩
    (∀ keccak256, computeStateRoot keccak256 db = computeStateRoot keccak256 (db.setStorage (.repeatByte 1) 0 1)) ∧
      db.getStorage (.repeatByte 1) 0 ≠ (db.setStorage (.repeatByte 1) 0 1).getStorage (.repeatByte 1) 0 :=
  ⟨fun _ => rfl, by decide⟩

end Eth2077
