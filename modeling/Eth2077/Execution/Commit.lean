import Eth2077.Execution.StateRoot
import Eth2077.Lib.KeyedFold

/-!
# Committing what revm returns (`apply_state_changes` of `execution/src/executor.rs`)

revm returns every account it has loaded and marks those that the transaction touched; its own databases commit the
marked ones only. `apply_state_changes` does not look at the mark: it writes the accounts that were merely read as
well. This changes nothing where what was read is what is stored.
-/

namespace Eth2077.BlockExecutor
open KeyedFold

/-- An account of `EvmState`, with the flags of its status. -/
structure EvmAccount where
  info : AccountInfo
  storage : HashMap U256 EvmStorageSlot
  isTouched : Bool
  isCreated : Bool
  isSelfdestructed : Bool

abbrev EvmState := HashMap Address EvmAccount

/-- The account as `apply_account_change` reads it, its slots in some order. -/
def EvmAccount.account (slots : IterOrder (U256 × EvmStorageSlot)) (account : EvmAccount) : Account where
  info := account.info
  storage := traverse slots account.storage
  isSelfdestructed := account.isSelfdestructed
  isCreated := account.isCreated

/-- `apply_state_changes`, for one order of the accounts and one of the slots of each. -/
def commit (order : IterOrder (Address × EvmAccount)) (slots : Address → IterOrder (U256 × EvmStorageSlot))
    (state : InMemoryStateDB) (changes : EvmState) : InMemoryStateDB :=
  applyStateChanges state ((traverse order changes).map fun x => (x.1, x.2.account (slots x.1)))

/-! ### What is stored for an address -/

/-- The account, if there is one, and the slots that have a value. -/
structure Stored where
  info : Option AccountInfo
  slot : U256 → Option U256

def stored (state : InMemoryStateDB) (address : Address) : Stored where
  info := state.accounts.lookup address
  slot s := (state.storage.lookup address).bind fun slots => slots.lookup s

/-- The value the transaction has given to a slot. -/
def EvmAccount.changed (account : EvmAccount) (slot : U256) : Option U256 :=
  (account.storage.lookup slot).bind fun x => if x.originalValue = x.presentValue then none else some x.presentValue

/-- An account written over what is stored. -/
def EvmAccount.over (account : EvmAccount) (before : Stored) : Stored :=
  if account.isSelfdestructed then ⟨none, fun _ => none⟩
  else
    { info := some account.info
      slot := fun s => (account.changed s).or (if account.isCreated then none else before.slot s) }

/-- What revm's own commit leaves for an address: accounts it has not touched stay as they are. -/
def EvmState.reference (changes : EvmState) (address : Address) (before : Stored) : Stored :=
  match changes.lookup address with
  | none => before
  | some account => if account.isTouched then account.over before else before

/-! ### What the loops leave -/

section Operations
variable {state : InMemoryStateDB} {address a : Address} {info : AccountInfo} {slot value : U256}

theorem stored_insertAccount : stored (state.insertAccount address info) a =
    if a = address then { stored state a with info := some info } else stored state a := by
  unfold stored InMemoryStateDB.insertAccount
  split_ifs with h
  · rw [h, AList.lookup_insert]
  · rw [AList.lookup_insert_ne h]

theorem stored_removeAccount : stored (state.removeAccount address) a =
    if a = address then ⟨none, fun _ => none⟩ else stored state a := by
  unfold stored InMemoryStateDB.removeAccount
  split_ifs with h
  · rw [h, AList.lookup_erase, AList.lookup_erase]
    rfl
  · rw [AList.lookup_erase_ne h, AList.lookup_erase_ne h]

theorem stored_clearStorage : stored (state.clearStorage address) a =
    if a = address then { stored state a with slot := fun _ => none } else stored state a := by
  unfold stored InMemoryStateDB.clearStorage
  split_ifs with h
  · rw [h, AList.lookup_erase]
    rfl
  · rw [AList.lookup_erase_ne h]

theorem stored_setStorage : stored (state.setStorage address slot value) a =
    if a = address then { stored state a with slot := fun s => if s = slot then some value else (stored state a).slot s }
    else stored state a := by
  unfold stored InMemoryStateDB.setStorage
  split_ifs with h
  · rw [h, AList.lookup_insert]
    congr 1
    funext s
    rw [Option.bind_some]
    split_ifs with hs
    · rw [hs, AList.lookup_insert]
    · rw [AList.lookup_insert_ne hs]
      cases state.storage.lookup address with
      | none => rfl
      | some slots => rfl
  · rw [AList.lookup_insert_ne h]

end Operations

section Loops
variable {state : InMemoryStateDB} {address a : Address} {account : EvmAccount}

/-- The loop over the changed slots. -/
def setSlots (address : Address) (state : InMemoryStateDB) (xs : List (U256 × EvmStorageSlot)) : InMemoryStateDB :=
  xs.foldl (fun state x => state.setStorage address x.1 x.2.presentValue) state

theorem local_setStorage (address : Address) :
    Local (fun state s => (stored state address).slot s) Prod.fst
      (fun (x : U256 × EvmStorageSlot) _ => some x.2.presentValue)
      (fun state x => state.setStorage address x.1 x.2.presentValue) where
  self state x := by simp [stored_setStorage]
  other state x s hs := by simp [stored_setStorage, hs]

theorem setSlots_frame (address a : Address) (state : InMemoryStateDB) (xs : List (U256 × EvmStorageSlot)) :
    (stored (setSlots address state xs) a).info = (stored state a).info ∧
    (a ≠ address → stored (setSlots address state xs) a = stored state a) ∧
    (setSlots address state xs).blockHashes = state.blockHashes := by
  induction xs generalizing state with
  | nil => exact ⟨rfl, fun _ => rfl, rfl⟩
  | cons x xs ih =>
    obtain ⟨hinfo, hother, hhashes⟩ := ih (state.setStorage address x.1 x.2.presentValue)
    refine ⟨hinfo.trans ?_, fun ha => (hother ha).trans ?_, hhashes⟩
    · rw [stored_setStorage]
      split_ifs <;> rfl
    · rw [stored_setStorage, if_neg ha]

theorem mem_changedSlots {slots : IterOrder (U256 × EvmStorageSlot)} {s v : U256} : account.changed s = some v ↔
    ∃ x ∈ (traverse slots account.storage).filter fun x => x.2.originalValue ≠ x.2.presentValue,
      x.1 = s ∧ x.2.presentValue = v := by
  unfold EvmAccount.changed
  rw [Option.bind_eq_some_iff]
  constructor
  · rintro ⟨x, hx, hv⟩
    split_ifs at hv with hsame
    exact ⟨(s, x), List.mem_filter.mpr ⟨mem_traverse.mpr hx, by simpa using hsame⟩, rfl, Option.some_inj.mp hv⟩
  · rintro ⟨⟨s', x⟩, hx, rfl, rfl⟩
    obtain ⟨hmem, hsame⟩ := List.mem_filter.mp hx
    exact ⟨x, mem_traverse.mp hmem, if_neg (by simpa using hsame)⟩

/-- After the loop the changed slots have their new values and the others what they had. -/
theorem stored_setSlots (slots : IterOrder (U256 × EvmStorageSlot)) :
    stored (setSlots address state
      ((traverse slots account.storage).filter fun x => x.2.originalValue ≠ x.2.presentValue)) a =
      if a = address then
        ⟨(stored state a).info, fun s => (account.changed s).or ((stored state a).slot s)⟩
      else stored state a := by
  obtain ⟨hinfo, hother, -⟩ := setSlots_frame address a state
    ((traverse slots account.storage).filter fun x => x.2.originalValue ≠ x.2.presentValue)
  split_ifs with ha
  · subst ha
    refine congrArg₂ Stored.mk hinfo (funext fun s => ?_)
    cases hchanged : account.changed s with
    | none =>
      refine foldl_of_notMem (fun state s => (stored state a).slot s) (local_setStorage a).other fun x hx heq => ?_
      cases hchanged.symm.trans (mem_changedSlots.mpr ⟨x, hx, heq, rfl⟩)
    | some v =>
      obtain ⟨x, hx, rfl, rfl⟩ := mem_changedSlots.mp hchanged
      exact (local_setStorage a).foldl_of_mem ((nodup_traverse slots _).sublist (List.filter_sublist.map _)) hx
  · exact hother ha

theorem applyAccountChange_account (slots : IterOrder (U256 × EvmStorageSlot)) :
    applyAccountChange state (address, account.account slots) =
      if account.isSelfdestructed then state.removeAccount address
      else
        setSlots address
          (if account.isCreated then (state.insertAccount address account.info).clearStorage address
            else state.insertAccount address account.info)
          ((traverse slots account.storage).filter fun x => x.2.originalValue ≠ x.2.presentValue) := rfl

theorem stored_applyAccountChange (slots : IterOrder (U256 × EvmStorageSlot)) :
    stored (applyAccountChange state (address, account.account slots)) a =
      if a = address then account.over (stored state a) else stored state a := by
  rw [applyAccountChange_account]
  unfold EvmAccount.over
  by_cases hdead : account.isSelfdestructed = true
  · rw [if_pos hdead, if_pos hdead, stored_removeAccount]
  rw [if_neg hdead, if_neg hdead]
  have hstart : stored (if account.isCreated then (state.insertAccount address account.info).clearStorage address
      else state.insertAccount address account.info) a =
        if a = address then
          ⟨some account.info, if account.isCreated then fun _ => none else (stored state a).slot⟩
        else stored state a := by
    split_ifs with hcreated ha ha
    · rw [stored_clearStorage, stored_insertAccount, if_pos ha, if_pos ha]
    · rw [stored_clearStorage, stored_insertAccount, if_neg ha, if_neg ha]
    · rw [stored_insertAccount, if_pos ha]
    · rw [stored_insertAccount, if_neg ha]
  rw [stored_setSlots, hstart]
  split_ifs <;> rfl

theorem local_applyAccountChange (slots : Address → IterOrder (U256 × EvmStorageSlot)) :
    Local stored Prod.fst (fun x : Address × EvmAccount => x.2.over)
      (fun state x => applyAccountChange state (x.1, x.2.account (slots x.1))) where
  self state x := by rw [stored_applyAccountChange, if_pos rfl]
  other state x a ha := by rw [stored_applyAccountChange, if_neg ha]

/-- Whatever the orders, every account in the map is written over what is stored for its address. -/
theorem stored_commit (order : IterOrder (Address × EvmAccount)) (slots : Address → IterOrder (U256 × EvmStorageSlot))
    (state : InMemoryStateDB) (changes : EvmState) (a : Address) : stored (commit order slots state changes) a =
      match changes.lookup a with
      | none => stored state a
      | some account => account.over (stored state a) := by
  unfold commit applyStateChanges
  rw [List.foldl_map]
  cases hlookup : changes.lookup a with
  | none =>
    refine foldl_of_notMem stored (local_applyAccountChange slots).other fun x hx heq => ?_
    cases hlookup.symm.trans (mem_traverse.mp (heq ▸ hx : (a, x.2) ∈ traverse order changes))
  | some account =>
    exact (local_applyAccountChange slots).foldl_of_mem (nodup_traverse order changes) (mem_traverse.mpr hlookup)

theorem blockHashes_applyAccountChange (slots : IterOrder (U256 × EvmStorageSlot)) :
    (applyAccountChange state (address, account.account slots)).blockHashes = state.blockHashes := by
  rw [applyAccountChange_account]
  split_ifs
  · rfl
  · exact (setSlots_frame address address _ _).2.2
  · exact (setSlots_frame address address _ _).2.2

theorem blockHashes_commit (order : IterOrder (Address × EvmAccount))
    (slots : Address → IterOrder (U256 × EvmStorageSlot)) (state : InMemoryStateDB) (changes : EvmState) :
    (commit order slots state changes).blockHashes = state.blockHashes := by
  unfold commit applyStateChanges
  rw [List.foldl_map]
  induction traverse order changes generalizing state with
  | nil => rfl
  | cons x xs ih =>
    rw [List.foldl_cons, ih]
    exact blockHashes_applyAccountChange (slots x.1)

end Loops

/-! ### The reference -/

/-- What revm returns for the account is what is stored for it already. -/
def EvmAccount.Repeats (account : EvmAccount) (before : Stored) : Prop :=
  if account.isSelfdestructed then before.info = none ∧ ∀ s, before.slot s = none
  else
    before.info = some account.info ∧
    (∀ s v, account.changed s = some v → before.slot s = some v) ∧
    (account.isCreated → ∀ s, account.changed s = none → before.slot s = none)

theorem EvmAccount.over_eq_self_iff (account : EvmAccount) (before : Stored) :
    account.over before = before ↔ account.Repeats before := by
  obtain ⟨info, slot⟩ := before
  unfold EvmAccount.over EvmAccount.Repeats
  split_ifs with hdead hcreated
  · simp only [Stored.mk.injEq, funext_iff, eq_comm]
  · simp only [Stored.mk.injEq, funext_iff, Option.or_none]
    constructor
    · rintro ⟨rfl, hslot⟩
      exact ⟨rfl, fun s v hv => (hslot s).symm.trans hv, fun _ s hs => (hslot s).symm.trans hs⟩
    · rintro ⟨rfl, hchanged, hcleared⟩
      refine ⟨rfl, fun s => ?_⟩
      cases hs : account.changed s with
      | none => exact (hcleared hcreated s hs).symm
      | some v => exact (hchanged s v hs).symm
  · simp only [Stored.mk.injEq, funext_iff]
    constructor
    · rintro ⟨rfl, hslot⟩
      refine ⟨rfl, fun s v hv => ?_, fun h => absurd h hcreated⟩
      rw [← hslot s, hv]
      rfl
    · rintro ⟨rfl, hchanged, -⟩
      refine ⟨rfl, fun s => ?_⟩
      cases hs : account.changed s with
      | none => rfl
      | some v => exact (hchanged s v hs).symm

/-- A commit does what revm's own does if and only if every account in the map that was not touched repeats what is
stored for it. -/
theorem commit_reference_iff (order : IterOrder (Address × EvmAccount))
    (slots : Address → IterOrder (U256 × EvmStorageSlot)) (state : InMemoryStateDB) (changes : EvmState) :
    ((∀ a, stored (commit order slots state changes) a = changes.reference a (stored state a)) ∧
      (commit order slots state changes).blockHashes = state.blockHashes) ↔
    ∀ a account, changes.lookup a = some account → account.isTouched = false → account.Repeats (stored state a) := by
  constructor
  · rintro ⟨h, -⟩ a account hlookup htouched
    have ha := h a
    rw [stored_commit, EvmState.reference, hlookup] at ha
    simp only [htouched, Bool.false_eq_true, if_false] at ha
    exact (account.over_eq_self_iff _).mp ha
  · intro h
    refine ⟨fun a => ?_, blockHashes_commit order slots state changes⟩
    rw [stored_commit, EvmState.reference]
    cases hlookup : changes.lookup a with
    | none => rfl
    | some account =>
      dsimp only
      split_ifs with htouched
      · rfl
      · exact (account.over_eq_self_iff _).mpr (h a account hlookup (by simpa using htouched))

/-- A contract that asks for the balance of an address without an account. -/
def balanceContract : AccountInfo where
  balance := 0
  nonce := 1
  codeHash := .ofNat 32 0x5fdfa23e62f1eeef2d02f77f93150ad39e3001e63744881c273f7cf04bae01f9
  code := some ⟨0x73 :: List.replicate 20 9 ++ [0x31], by decide⟩

def balanceState : InMemoryStateDB := BlockValidator.callState.insertAccount (.repeatByte 2) balanceContract

/-- After a call of it: the caller, the beneficiary and the contract are touched, the address is loaded. -/
def balanceChanges : EvmState :=
  [(.repeatByte 1, ⟨⟨5, 1, BlockValidator.keccakEmpty, some Bytes.default⟩, ∅, true, false, false⟩),
    (.zero, ⟨⟨1, 0, BlockValidator.keccakEmpty, some Bytes.default⟩, ∅, true, false, false⟩),
    (.repeatByte 2, ⟨balanceContract, ∅, true, false, false⟩),
    (.repeatByte 9, ⟨⟨0, 0, BlockValidator.keccakEmpty, some Bytes.default⟩, ∅, false, false, false⟩)].foldl
      (fun m x => AList.insert x.1 x.2 m) ∅

/-- The account exists after the commit, and is among the bytes under the state root. -/
theorem loaded_account_created :
    balanceState.accountExists (.repeatByte 9) = false ∧
    (commit .stored (fun _ => .stored) balanceState balanceChanges).accountExists (.repeatByte 9) = true ∧
    .repeatByte 9 ∈ sortedAddresses (commit .stored (fun _ => .stored) balanceState balanceChanges) ∧
    ¬ ∀ a, stored (commit .stored (fun _ => .stored) balanceState balanceChanges) a =
      balanceChanges.reference a (stored balanceState a) := by
  have hcreated :
      (commit .stored (fun _ => .stored) balanceState balanceChanges).accountExists (.repeatByte 9) = true := rfl
  refine ⟨rfl, hcreated, mem_sortedAddresses.mpr (of_decide_eq_true hcreated), fun h => ?_⟩
  have hinfo := congrArg Stored.info (h (.repeatByte 9))
  rw [stored_commit] at hinfo
  cases hinfo

end Eth2077.BlockExecutor
