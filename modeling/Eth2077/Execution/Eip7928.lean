import Eth2077.Execution.ReceiptsRoot
import Eth2077.Lib.Seen
import Eth2077.Lib.SortBy

/-!
# Block access lists (`execution/src/eip7928.rs`)

What a block has accessed: accounts, each with storage keys and the values it is left with, and storage accesses. A
list is hashed with everything in it sorted, so the order in which it was put together is lost, and nothing else is.
-/

namespace Eth2077
namespace Eip7928
open SortBy PrefixCode

structure AccessedAccount where
  address : Address
  storageKeys : List B256
  postBalance : Option (BitVec 128)
  postNonce : Option UInt64
  postCodeHash : Option B256
deriving DecidableEq

structure StorageAccess where
  key : B256
  preValue : B256
  postValue : B256
deriving DecidableEq

structure BlockAccessList where
  blockNumber : UInt64
  accessedAccounts : List AccessedAccount
  storageAccesses : List (Address × StorageAccess)
deriving DecidableEq

inductive BlockAccessListError where
  | duplicateAccount (address : Address)
  | duplicateStorageKey (address : Address) (key : B256)
  | emptyAccessList
  | storageAccessWithoutAccount (address : Address)
deriving DecidableEq

/-- The order of `[u8; N]`. -/
instance {n : ℕ} : Ord (FixedBytes n) := ⟨compareOn List.Vector.toList⟩

instance {n : ℕ} : Std.TransOrd (FixedBytes n) := inferInstanceAs (Std.TransCmp (compareOn List.Vector.toList))

instance {n : ℕ} : Std.LawfulEqOrd (FixedBytes n) where
  eq_of_compare h := List.Vector.toList_injective (Std.LawfulEqOrd.eq_of_compare h)

/-! ### Validation -/

/-- The body of the loop over the accounts. -/
def accountErrors (seen : Bool) (account : AccessedAccount) : List BlockAccessListError :=
  (if seen then [.duplicateAccount account.address] else []) ++
    Seen.collect id (fun seen key => if seen then [.duplicateStorageKey account.address key] else []) ∅
      account.storageKeys

/-- The body of the loop over the storage accesses. -/
def accessErrors (knownAccounts : Finset Address) (seen : Bool) :
    Address × StorageAccess → List BlockAccessListError
  | (address, storageAccess) =>
    (if address ∉ knownAccounts then [.storageAccessWithoutAccount address] else []) ++
      (if seen then [.duplicateStorageKey address storageAccess.key] else [])

def validateBlockAccessList (list : BlockAccessList) : Except (List BlockAccessListError) Unit :=
  let knownAccounts := (list.accessedAccounts.map AccessedAccount.address).toFinset
  Seen.report
    ((if list.accessedAccounts = [] then [.emptyAccessList] else []) ++
      Seen.collect AccessedAccount.address accountErrors ∅ list.accessedAccounts ++
      Seen.collect (fun x => (x.1, x.2.key)) (accessErrors knownAccounts) ∅ list.storageAccesses)

/-! ### The hash -/

/-- What the loop over the sorted accounts feeds the hasher. -/
def encodeAccessedAccount (account : AccessedAccount) : List UInt8 :=
  let storageKeys := sortBy compare account.storageKeys
  account.address.toList ++ (beBytes 8 storageKeys.length ++ (storageKeys.flatMap (fun key => key.toList) ++
    (PrefixCode.option (fun balance => beBytes 16 balance.toNat) account.postBalance ++
      (PrefixCode.option toBeBytes account.postNonce ++
        PrefixCode.option (fun codeHash => codeHash.toList) account.postCodeHash))))

def encodeStorageAccess : Address × StorageAccess → List UInt8
  | (address, storageAccess) =>
    address.toList ++ (storageAccess.key.toList ++ (storageAccess.preValue.toList ++ storageAccess.postValue.toList))

def compareAccess : Address × StorageAccess → Address × StorageAccess → Ordering
  | (leftAddress, leftAccess), (rightAddress, rightAccess) =>
    (compare leftAddress rightAddress).then
      ((compare leftAccess.key rightAccess.key).then
        ((compare leftAccess.preValue rightAccess.preValue).then
          (compare leftAccess.postValue rightAccess.postValue)))

/-- Everything that is fed to the hasher. -/
def accessListBytes (list : BlockAccessList) : List UInt8 :=
  let accounts := sortBy (compareOn AccessedAccount.address) list.accessedAccounts
  let storageAccesses := sortBy compareAccess list.storageAccesses
  -- b"eip7928"
  [0x65, 0x69, 0x70, 0x37, 0x39, 0x32, 0x38] ++ (toBeBytes list.blockNumber ++
    (beBytes 8 accounts.length ++ (accounts.flatMap encodeAccessedAccount ++
      (beBytes 8 storageAccesses.length ++ storageAccesses.flatMap encodeStorageAccess))))

def computeAccessListHash (sha256 : List UInt8 → B256) (list : BlockAccessList) : B256 := sha256 (accessListBytes list)

/-! ### What a list has to say -/

variable {list list' : BlockAccessList} {a b : AccessedAccount}

theorem accountErrors_eq_nil : accountErrors false a = [] ↔ a.storageKeys.Nodup := by
  simp only [accountErrors, Bool.false_eq_true, if_false, List.nil_append]
  rw [Seen.collect_empty_eq_nil (fun key => by simp), List.map_id]
  simp

theorem accessErrors_eq_nil {known : Finset Address} {x : Address × StorageAccess} :
    accessErrors known false x = [] ↔ x.1 ∈ known := by
  simp [accessErrors]

/-- Accounts, none twice and each with every key once, and storage accesses to them, each once. -/
structure Valid (list : BlockAccessList) : Prop where
  accounts : list.accessedAccounts ≠ []
  addresses : (list.accessedAccounts.map AccessedAccount.address).Nodup
  keys : ∀ account ∈ list.accessedAccounts, account.storageKeys.Nodup
  accesses : (list.storageAccesses.map fun x => (x.1, x.2.key)).Nodup
  known : ∀ x ∈ list.storageAccesses, x.1 ∈ list.accessedAccounts.map AccessedAccount.address

theorem validateBlockAccessList_iff : validateBlockAccessList list = .ok () ↔ Valid list := by
  unfold validateBlockAccessList
  dsimp only
  rw [Seen.report_eq_ok, List.append_eq_nil_iff, List.append_eq_nil_iff,
    Seen.collect_empty_eq_nil (fun account => by simp [accountErrors]),
    Seen.collect_empty_eq_nil (fun x => by simp [accessErrors])]
  simp only [accountErrors_eq_nil, accessErrors_eq_nil, List.mem_toFinset, ite_eq_right_iff, List.cons_ne_nil, imp_false]
  constructor
  · rintro ⟨⟨haccounts, haddresses, hkeys⟩, haccesses, hknown⟩
    exact ⟨haccounts, haddresses, hkeys, haccesses, hknown⟩
  · rintro ⟨haccounts, haddresses, hkeys, haccesses, hknown⟩
    exact ⟨⟨haccounts, haddresses, hkeys⟩, haccesses, hknown⟩

/-- An account without the order of its keys. -/
def AccessedAccount.content (account : AccessedAccount) :
    Address × Multiset B256 × Option (BitVec 128) × Option UInt64 × Option B256 :=
  (account.address, account.storageKeys, account.postBalance, account.postNonce, account.postCodeHash)

/-- Equal but for the order of accounts, of the keys of an account, and of storage accesses. -/
structure SameContent (list list' : BlockAccessList) : Prop where
  blockNumber : list.blockNumber = list'.blockNumber
  accounts : (list.accessedAccounts.map AccessedAccount.content).Perm
    (list'.accessedAccounts.map AccessedAccount.content)
  accesses : list.storageAccesses.Perm list'.storageAccesses

/-- No `Vec` is longer than `isize::MAX`. -/
structure BlockAccessList.Fits (list : BlockAccessList) : Prop where
  accounts : list.accessedAccounts.length < 2 ^ 63
  keys : ∀ account ∈ list.accessedAccounts, account.storageKeys.length < 2 ^ 63
  accesses : list.storageAccesses.length < 2 ^ 63

/-- The access lists there can be. -/
abbrev SizedAccessList := { list : BlockAccessList // list.Fits }

/-! ### The bytes under the hash -/

/-- The account with its keys sorted. -/
def AccessedAccount.sorted (account : AccessedAccount) : AccessedAccount :=
  { account with storageKeys := sortBy compare account.storageKeys }

theorem content_sorted (a : AccessedAccount) : a.sorted.content = a.content := by
  have hkeys : ((sortBy compare a.storageKeys : List B256) : Multiset B256) = a.storageKeys :=
    Multiset.coe_eq_coe.mpr (sortBy_perm compare a.storageKeys)
  simp only [AccessedAccount.content, AccessedAccount.sorted, hkeys]

theorem sorted_eq_of_content (h : a.content = b.content) : a.sorted = b.sorted := by
  obtain ⟨address, keys, balance, nonce, codeHash⟩ := a
  obtain ⟨address', keys', balance', nonce', codeHash'⟩ := b
  simp only [AccessedAccount.content, Prod.mk.injEq, Multiset.coe_eq_coe] at h
  obtain ⟨rfl, hperm, rfl, rfl, rfl⟩ := h
  have hkeys : sortBy compare keys = sortBy compare keys' :=
    sortBy_congr (fun x _ y _ h => Std.LawfulEqOrd.eq_of_compare h) hperm
  simp only [AccessedAccount.sorted, hkeys]

/-- The bytes of an account whose keys are taken as they come. -/
def encodeKeys (account : AccessedAccount) : List UInt8 :=
  account.address.toList ++ (beBytes 8 account.storageKeys.length ++
    (account.storageKeys.flatMap (fun key => key.toList) ++
      (PrefixCode.option (fun balance => beBytes 16 balance.toNat) account.postBalance ++
        (PrefixCode.option toBeBytes account.postNonce ++
          PrefixCode.option (fun codeHash => codeHash.toList) account.postCodeHash))))

theorem isPrefixCode_u128 : IsPrefixCode fun n : BitVec 128 => beBytes 16 n.toNat := isPrefixCode_bitVec 16

theorem isPrefixCode_encodeKeys :
    IsPrefixCode fun a : { a : AccessedAccount // a.storageKeys.length < 2 ^ 63 } => encodeKeys a.1 := by
  rintro ⟨⟨address, keys, balance, nonce, codeHash⟩, h⟩ ⟨⟨address', keys', balance', nonce', codeHash'⟩, h'⟩ xs ys hab
  simp only [encodeKeys, List.append_assoc] at hab
  obtain ⟨rfl, hkeys⟩ := isPrefixCode_fixedBytes 20 hab
  obtain ⟨rfl, hbalance⟩ := isPrefixCode_topic.counted isPrefixCode_count ⟨h, fun _ _ => trivial⟩
    ⟨h', fun _ _ => trivial⟩ hkeys
  obtain ⟨rfl, hnonce⟩ := isPrefixCode_u128.option hbalance
  obtain ⟨rfl, hcode⟩ := isPrefixCode_toBeBytes.option hnonce
  obtain ⟨rfl, hrest⟩ := (isPrefixCode_fixedBytes 32).option hcode
  exact ⟨rfl, hrest⟩

theorem isPrefixCode_encodeStorageAccess :
    IsPrefixCode fun x : { _x : Address × StorageAccess // True } => encodeStorageAccess x.1 := by
  rintro ⟨⟨address, key, pre, post⟩, _⟩ ⟨⟨address', key', pre', post'⟩, _⟩ xs ys hab
  simp only [encodeStorageAccess, List.append_assoc] at hab
  obtain ⟨rfl, hkey⟩ := isPrefixCode_fixedBytes 20 hab
  obtain ⟨rfl, hpre⟩ := isPrefixCode_fixedBytes 32 hkey
  obtain ⟨rfl, hpost⟩ := isPrefixCode_fixedBytes 32 hpre
  obtain ⟨rfl, hrest⟩ := isPrefixCode_fixedBytes 32 hpost
  exact ⟨rfl, hrest⟩

/-- The accounts as they are fed to the hasher. -/
def hashedAccounts (list : BlockAccessList) : List AccessedAccount :=
  (sortBy (compareOn AccessedAccount.address) list.accessedAccounts).map AccessedAccount.sorted

theorem accessListBytes_eq (list : BlockAccessList) : accessListBytes list =
    [0x65, 0x69, 0x70, 0x37, 0x39, 0x32, 0x38] ++ (toBeBytes list.blockNumber ++
      (beBytes 8 (hashedAccounts list).length ++ ((hashedAccounts list).flatMap encodeKeys ++
        (beBytes 8 (sortBy compareAccess list.storageAccesses).length ++
          ((sortBy compareAccess list.storageAccesses).flatMap encodeStorageAccess ++ []))))) := by
  rw [hashedAccounts, List.length_map, List.flatMap_map, List.append_nil]
  rfl

theorem BlockAccessList.Fits.hashedAccounts (h : list.Fits) : (hashedAccounts list).length < 2 ^ 63 ∧
    ∀ a ∈ Eip7928.hashedAccounts list, a.storageKeys.length < 2 ^ 63 := by
  refine ⟨by simpa [Eip7928.hashedAccounts] using h.accounts, fun a ha => ?_⟩
  obtain ⟨account, haccount, rfl⟩ := List.mem_map.mp ha
  simpa [AccessedAccount.sorted] using h.keys account (mem_sortBy.mp haccount)

/-- The bytes can be read back. -/
theorem of_accessListBytes (h : list.Fits) (h' : list'.Fits) (heq : accessListBytes list = accessListBytes list') :
    list.blockNumber = list'.blockNumber ∧ hashedAccounts list = hashedAccounts list' ∧
    sortBy compareAccess list.storageAccesses = sortBy compareAccess list'.storageAccesses := by
  rw [accessListBytes_eq, accessListBytes_eq] at heq
  obtain ⟨hnumber, haccounts⟩ := isPrefixCode_toBeBytes (List.append_cancel_left heq)
  obtain ⟨hsorted, haccesses⟩ := isPrefixCode_encodeKeys.counted isPrefixCode_count h.hashedAccounts h'.hashedAccounts
    haccounts
  have hfits := h.accesses
  have hfits' := h'.accesses
  rw [← length_sortBy compareAccess] at hfits hfits'
  obtain ⟨hstorage, -⟩ := isPrefixCode_encodeStorageAccess.counted isPrefixCode_count ⟨hfits, fun _ _ => trivial⟩
    ⟨hfits', fun _ _ => trivial⟩ haccesses
  exact ⟨hnumber, hsorted, hstorage⟩

/-! ### The hash is canonical -/

instance : Std.TransCmp compareAccess := by
  have h : compareAccess = compareLex (compareOn Prod.fst) (compareLex (compareOn fun x => x.2.key)
      (compareLex (compareOn fun x => x.2.preValue) (compareOn fun x => x.2.postValue))) := rfl
  rw [h]
  infer_instance

theorem eq_of_compareAccess {x y : Address × StorageAccess} (h : compareAccess x y = .eq) : x = y := by
  obtain ⟨address, key, pre, post⟩ := x
  obtain ⟨address', key', pre', post'⟩ := y
  simp only [compareAccess, Ordering.then_eq_eq] at h
  obtain ⟨haddress, hkey, hpre, hpost⟩ := h
  rw [Std.LawfulEqOrd.eq_of_compare haddress, Std.LawfulEqOrd.eq_of_compare hkey, Std.LawfulEqOrd.eq_of_compare hpre,
    Std.LawfulEqOrd.eq_of_compare hpost]

theorem hashedAccounts_perm : (hashedAccounts list).Perm (list.accessedAccounts.map AccessedAccount.sorted) :=
  (sortBy_perm _ _).map _

theorem content_hashedAccounts : ((hashedAccounts list).map AccessedAccount.content).Perm
    (list.accessedAccounts.map AccessedAccount.content) := by
  refine (hashedAccounts_perm.map _).trans ?_
  rw [List.map_map, show AccessedAccount.content ∘ AccessedAccount.sorted = AccessedAccount.content from
    funext content_sorted]

/-- The same accounts in another order are hashed in the same order. -/
theorem hashedAccounts_congr (hvalid : Valid list)
    (h : (list.accessedAccounts.map AccessedAccount.content).Perm (list'.accessedAccounts.map AccessedAccount.content)) :
    hashedAccounts list = hashedAccounts list' := by
  have hsorted : ∀ l : BlockAccessList, (hashedAccounts l).Pairwise fun a b =>
      (compareOn AccessedAccount.address a b).isLE = true := fun l =>
    List.pairwise_map.mpr (pairwise_sortBy (compareOn AccessedAccount.address) l.accessedAccounts)
  -- what is hashed of an account is made of its content
  obtain ⟨f, hf⟩ : ∃ f, ∀ a : AccessedAccount, a.sorted = f a.content :=
    ⟨fun c => AccessedAccount.sorted ⟨c.1, c.2.1.toList, c.2.2.1, c.2.2.2.1, c.2.2.2.2⟩, fun a =>
      sorted_eq_of_content (by simp [AccessedAccount.content])⟩
  have hmap : ∀ l : List AccessedAccount, l.map AccessedAccount.sorted = (l.map AccessedAccount.content).map f := by
    intro l
    rw [List.map_map]
    exact List.map_congr_left fun a _ => hf a
  have haddresses : ((hashedAccounts list).map AccessedAccount.address).Nodup := by
    refine (hashedAccounts_perm.map _).nodup_iff.mpr ?_
    rw [List.map_map]
    exact hvalid.addresses
  refine eq_of_perm (fun a ha b hb hab => ?_) (hsorted list) (hsorted list')
    (hashedAccounts_perm.trans (.trans ?_ hashedAccounts_perm.symm))
  · exact List.inj_on_of_nodup_map haddresses ha hb (Std.LawfulEqOrd.eq_of_compare hab)
  · rw [hmap, hmap]
    exact h.map f

/-- A valid list and another are hashed from the same bytes if and only if they say the same. -/
theorem access_list_hash_canonical (list list' : SizedAccessList) (hvalid : validateBlockAccessList list.1 = .ok ()) :
    accessListBytes list.1 = accessListBytes list'.1 ↔ SameContent list.1 list'.1 := by
  constructor
  · intro h
    obtain ⟨hnumber, haccounts, haccesses⟩ := of_accessListBytes list.2 list'.2 h
    refine ⟨hnumber, ?_, ?_⟩
    · refine content_hashedAccounts.symm.trans ?_
      rw [haccounts]
      exact content_hashedAccounts
    · refine (sortBy_perm compareAccess list.1.storageAccesses).symm.trans ?_
      rw [haccesses]
      exact sortBy_perm compareAccess list'.1.storageAccesses
  · intro h
    rw [accessListBytes_eq, accessListBytes_eq, h.blockNumber,
      hashedAccounts_congr (validateBlockAccessList_iff.mp hvalid) h.accounts,
      sortBy_congr (fun x _ y _ => eq_of_compareAccess) h.accesses]

/-- An account of two keys and one of one, and an access to each. -/
def twoAccounts : BlockAccessList where
  blockNumber := 7
  accessedAccounts :=
    [⟨.repeatByte 0x22, [.repeatByte 3, .repeatByte 1], some 99, some 2, some (.repeatByte 0xAA)⟩,
      ⟨.repeatByte 0x11, [.repeatByte 2], none, some 1, none⟩]
  storageAccesses :=
    [(.repeatByte 0x22, ⟨.repeatByte 3, .repeatByte 1, .repeatByte 5⟩),
      (.repeatByte 0x11, ⟨.repeatByte 2, .repeatByte 9, .repeatByte 9⟩)]

/-- The same the other way round. -/
def twoAccountsReversed : BlockAccessList where
  blockNumber := 7
  accessedAccounts :=
    [⟨.repeatByte 0x11, [.repeatByte 2], none, some 1, none⟩,
      ⟨.repeatByte 0x22, [.repeatByte 1, .repeatByte 3], some 99, some 2, some (.repeatByte 0xAA)⟩]
  storageAccesses :=
    [(.repeatByte 0x11, ⟨.repeatByte 2, .repeatByte 9, .repeatByte 9⟩),
      (.repeatByte 0x22, ⟨.repeatByte 3, .repeatByte 1, .repeatByte 5⟩)]

theorem access_list_hash_canonical_reversed : accessListBytes twoAccounts = accessListBytes twoAccountsReversed := by
  have hfits : twoAccounts.Fits := ⟨by decide, by decide, by decide⟩
  have hfits' : twoAccountsReversed.Fits := ⟨by decide, by decide, by decide⟩
  refine (access_list_hash_canonical ⟨twoAccounts, hfits⟩ ⟨twoAccountsReversed, hfits'⟩ rfl).mpr ⟨rfl, ?_, ?_⟩
  · have hcontent : twoAccounts.accessedAccounts.map AccessedAccount.content =
        twoAccountsReversed.accessedAccounts.reverse.map AccessedAccount.content := by
      refine congrArg₂ List.cons (Prod.ext rfl (Prod.ext ?_ rfl)) rfl
      exact Multiset.coe_eq_coe.mpr (List.Perm.swap _ _ _)
    show (twoAccounts.accessedAccounts.map AccessedAccount.content).Perm _
    rw [hcontent]
    exact (List.reverse_perm _).map _
  · exact List.Perm.swap _ _ _

end Eip7928
end Eth2077
