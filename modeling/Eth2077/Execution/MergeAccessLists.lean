import Eth2077.Execution.Eip7928
import Eth2077.Lib.KeyedFold

/-!
# Merging block access lists (`merge_access_lists` of `execution/src/eip7928.rs`)

The lists are gone through in order, and what comes later overwrites what came earlier: of an account the values it is
left with, of a storage key the access. A storage access to an account that no list has so far puts it in without
values. Merged lists have such accounts among the others, so a merge of merges takes their missing values for the
latest.
-/

namespace Eth2077
namespace Eip7928
open SortBy KeyedFold

/-- The order in which `BTreeMap::into_iter` yields the entries. -/
def ascending {K V : Type} (cmp : K → K → Ordering) : IterOrder (K × V) :=
  ⟨sortBy fun a b => cmp a.1 b.1, sortBy_perm _⟩

def AccessedAccount.empty (address : Address) : AccessedAccount := ⟨address, [], none, none, none⟩

def AccessedAccount.withKeys (account : AccessedAccount) (storageKeys : List B256) : AccessedAccount :=
  { account with storageKeys := storageKeys }

/-- The order of `([u8; 20], [u8; 32])`. -/
def comparePair : Address × B256 → Address × B256 → Ordering := compareLex (compareOn Prod.fst) (compareOn Prod.snd)

structure Merge where
  accounts : AList fun _ : Address => AccessedAccount
  accesses : AList fun _ : Address × B256 => StorageAccess
  blockNumber : UInt64

namespace Merge

/-- The body of the loop over the accounts of a list. -/
def account (m : Merge) (account : AccessedAccount) : Merge :=
  let merged := (m.accounts.lookup account.address).getD (.empty account.address)
  let merged :=
    { merged with
      storageKeys := merged.storageKeys ++ account.storageKeys
      postBalance := account.postBalance
      postNonce := account.postNonce
      postCodeHash := account.postCodeHash }
  { m with accounts := AList.insert account.address merged m.accounts }

/-- The body of the loop over its storage accesses. -/
def access (m : Merge) (x : Address × StorageAccess) : Merge :=
  let (address, storageAccess) := x
  let merged := (m.accounts.lookup address).getD (.empty address)
  let merged := { merged with storageKeys := merged.storageKeys ++ [storageAccess.key] }
  { m with
    accesses := AList.insert (address, storageAccess.key) storageAccess m.accesses
    accounts := AList.insert address merged m.accounts }

def list (m : Merge) (list : BlockAccessList) : Merge :=
  let m := { m with blockNumber := list.blockNumber }
  list.storageAccesses.foldl access (list.accessedAccounts.foldl account m)

/-- The end, where the keys of every account are sorted and their repetitions left out. -/
def finish (m : Merge) : BlockAccessList where
  blockNumber := m.blockNumber
  accessedAccounts := (traverse (ascending compare) m.accounts).map fun x => x.2.withKeys (sortDedup compare x.2.storageKeys)
  storageAccesses := (traverse (ascending comparePair) m.accesses).map fun x => (x.1.1, x.2)

end Merge

def mergeAccessLists (lists : List BlockAccessList) : BlockAccessList :=
  (lists.foldl Merge.list ⟨∅, ∅, 0⟩).finish

/-! ### The loops, account by account and key by key -/

/-- What is met on the way: an account or a storage access. -/
abbrev Mention := AccessedAccount ⊕ (Address × StorageAccess)

namespace Mention

def address : Mention → Address
  | .inl account => account.address
  | .inr x => x.1

def keys : Mention → List B256
  | .inl account => account.storageKeys
  | .inr x => [x.2.key]

/-- What the mention makes of what there is for its address. -/
def write (mention : Mention) (before : Option AccessedAccount) : AccessedAccount :=
  let before := before.getD (.empty mention.address)
  match mention with
  | .inl account => { account with address := before.address, storageKeys := before.storageKeys ++ account.storageKeys }
  | .inr x => { before with storageKeys := before.storageKeys ++ [x.2.key] }

end Mention

def BlockAccessList.mentions (list : BlockAccessList) : List Mention :=
  list.accessedAccounts.map .inl ++ list.storageAccesses.map .inr

def Merge.mention (m : Merge) : Mention → Merge
  | .inl account => m.account account
  | .inr x => m.access x

section Loops
variable {lists : List BlockAccessList} {m : Merge} {address : Address} {key : B256}

theorem Merge.list_eq (m : Merge) (list : BlockAccessList) :
    m.list list = list.mentions.foldl Merge.mention { m with blockNumber := list.blockNumber } := by
  rw [BlockAccessList.mentions, List.foldl_append, List.foldl_map, List.foldl_map]
  rfl

theorem accounts_mentions (mentions : List Mention) : (mentions.foldl Merge.mention m).accounts =
    mentions.foldl (fun accounts mention =>
      AList.insert mention.address (mention.write (accounts.lookup mention.address)) accounts) m.accounts := by
  refine (List.foldl_hom Merge.accounts fun m mention => ?_).symm
  cases mention <;> rfl

theorem accesses_mentions (mentions : List Mention) : (mentions.foldl Merge.mention m).accesses =
    (mentions.filterMap Sum.getRight?).foldl (fun accesses x => AList.insert (x.1, x.2.key) x.2 accesses) m.accesses := by
  rw [List.foldl_filterMap]
  refine (List.foldl_hom Merge.accesses fun m mention => ?_).symm
  cases mention <;> rfl

/-- A map with an entry for the key of each item, made of the item and the former entry. -/
theorem local_insert {K V α : Type} [DecidableEq K] (key : α → K) (value : α → Option V → V) :
    Local (fun (m : AList fun _ : K => V) k => m.lookup k) key (fun a before => some (value a before))
      (fun m a => AList.insert (key a) (value a (m.lookup (key a))) m) where
  self _ _ := AList.lookup_insert ..
  other _ _ _ hk := AList.lookup_insert_ne hk

theorem accounts_lists : (lists.foldl Merge.list m).accounts =
    (lists.flatMap BlockAccessList.mentions).foldl (fun accounts mention =>
      AList.insert mention.address (mention.write (accounts.lookup mention.address)) accounts) m.accounts := by
  induction lists generalizing m with
  | nil => rfl
  | cons list lists ih =>
    rw [List.foldl_cons, ih, Merge.list_eq, accounts_mentions, List.flatMap_cons, List.foldl_append]

theorem accesses_lists : (lists.foldl Merge.list m).accesses =
    (lists.flatMap BlockAccessList.storageAccesses).foldl (fun accesses x =>
      AList.insert (x.1, x.2.key) x.2 accesses) m.accesses := by
  have hmentions : ∀ list : BlockAccessList, list.mentions.filterMap Sum.getRight? = list.storageAccesses := by
    intro list
    simp [BlockAccessList.mentions, List.filterMap_map, Function.comp_def]
  induction lists generalizing m with
  | nil => rfl
  | cons list lists ih =>
    rw [List.foldl_cons, ih, Merge.list_eq, accesses_mentions, hmentions, List.flatMap_cons, List.foldl_append]

theorem blockNumber_lists : (lists.foldl Merge.list m).blockNumber =
    (lists.getLast?.map BlockAccessList.blockNumber).getD m.blockNumber := by
  have hmentions : ∀ (mentions : List Mention) (m : Merge),
      (mentions.foldl Merge.mention m).blockNumber = m.blockNumber := by
    intro mentions
    induction mentions with
    | nil => exact fun _ => rfl
    | cons mention mentions ih =>
      intro m
      rw [List.foldl_cons, ih]
      cases mention <;> rfl
  have hlist : ∀ (m : Merge) list, (m.list list).blockNumber = list.blockNumber := by
    intro m list
    rw [Merge.list_eq, hmentions]
  induction lists generalizing m with
  | nil => rfl
  | cons list lists ih =>
    rw [List.foldl_cons, ih, hlist, List.getLast?_cons]
    cases lists.getLast? <;> rfl

end Loops

/-! ### What is merged -/

section Spec
variable (lists : List BlockAccessList) (address : Address)

/-- The accounts that the lists have for an address, in their order. -/
def accountsAt : List AccessedAccount :=
  (lists.flatMap BlockAccessList.accessedAccounts).filter fun account => account.address = address

/-- The storage accesses that the lists have for it. -/
def accessesAt : List (Address × StorageAccess) :=
  (lists.flatMap BlockAccessList.storageAccesses).filter fun x => x.1 = address

/-- The keys that the lists have for an address. -/
def keysAt : List B256 :=
  (accountsAt lists address).flatMap AccessedAccount.storageKeys ++ (accessesAt lists address).map fun x => x.2.key

/-- The values of the last account, and the keys of all. -/
def mergedAccount : Option AccessedAccount :=
  if accountsAt lists address = [] ∧ accessesAt lists address = [] then none
  else
    some (((accountsAt lists address).getLast?.getD (.empty address)).withKeys
      (sortDedup compare ((accountsAt lists address).flatMap AccessedAccount.storageKeys ++
        (accessesAt lists address).map fun x => x.2.key)))

/-- The last access to a key of an address. -/
def lastAccess (key : B256) : Option StorageAccess :=
  ((lists.flatMap BlockAccessList.storageAccesses).filter fun x => (x.1, x.2.key) = (address, key)).getLast?.map Prod.snd

end Spec

section Accounts
variable {lists : List BlockAccessList} {address : Address} {mentions : List Mention} {account : AccessedAccount}
  {key : B256}

theorem mergedAccount_eq_none :
    mergedAccount lists address = none ↔ accountsAt lists address = [] ∧ accessesAt lists address = [] := by
  unfold mergedAccount
  split_ifs with h
  · simp [h]
  · simp [h]

theorem mergedAccount_eq (lists : List BlockAccessList) (address : Address)
    (h : ¬ (accountsAt lists address = [] ∧ accessesAt lists address = [])) :
    mergedAccount lists address = some (((accountsAt lists address).getLast?.getD (.empty address)).withKeys
      (sortDedup compare (keysAt lists address))) := if_neg h

theorem address_last_account (h : (accountsAt lists address).getLast? = some account) : account.address = address :=
  of_decide_eq_true (List.mem_filter.mp (List.mem_of_getLast? h)).2

theorem address_last (h : ∀ mention ∈ mentions, mention.address = address) :
    ((mentions.filterMap Sum.getLeft?).getLast?.getD (.empty address)).address = address := by
  cases hlast : (mentions.filterMap Sum.getLeft?).getLast? with
  | none => rfl
  | some account =>
    obtain ⟨mention, hmem, hleft⟩ := List.mem_filterMap.mp (List.mem_of_getLast? hlast)
    rw [Sum.getLeft?_eq_some_iff] at hleft
    exact (hleft ▸ h mention hmem :)

/-- What the mentions of one address make of nothing. -/
theorem foldl_write (h : ∀ mention ∈ mentions, mention.address = address) :
    (mentions.foldl (fun before mention => some (mention.write before)) none).getD (.empty address) =
      ((mentions.filterMap Sum.getLeft?).getLast?.getD (.empty address)).withKeys (mentions.flatMap Mention.keys) := by
  induction mentions using List.reverseRecOn with
  | nil => rfl
  | append_singleton mentions mention ih =>
    have hmentions := fun e he => h e (List.mem_append_left _ he)
    have hlast := address_last hmentions
    have haddress := h mention (List.mem_append_right _ (List.mem_singleton_self _))
    rw [List.foldl_append, List.filterMap_append, List.flatMap_append]
    show mention.write (mentions.foldl _ none) = _
    generalize mentions.foldl (fun before mention => some (mention.write before)) none = before at ih ⊢
    have hbefore := ih hmentions
    rw [← haddress] at hbefore
    cases mention with
    | inl account =>
      show AccessedAccount.mk (before.getD (.empty account.address)).address
        ((before.getD (.empty account.address)).storageKeys ++ account.storageKeys) _ _ _ = _
      rw [show before.getD (.empty account.address) = _ from hbefore]
      subst haddress
      generalize mentions.filterMap Sum.getLeft? = accounts at hlast ⊢
      simp only [Mention.address] at hlast
      simp [AccessedAccount.withKeys, Mention.address, Mention.keys, hlast]
    | inr x =>
      show (before.getD (.empty x.1)).withKeys ((before.getD (.empty x.1)).storageKeys ++ [x.2.key]) = _
      rw [show before.getD (.empty x.1) = _ from hbefore]
      subst haddress
      simp [AccessedAccount.withKeys, Mention.address, Mention.keys]

/-- No mentions, no account. -/
theorem foldl_write_eq_none :
    mentions.foldl (fun before mention => some (mention.write before)) none = none ↔ mentions = [] := by
  induction mentions using List.reverseRecOn with
  | nil => simp
  | append_singleton mentions mention _ => simp [List.foldl_append]

/-- The mentions of an address. -/
def mentionsAt (lists : List BlockAccessList) (address : Address) : List Mention :=
  (lists.flatMap BlockAccessList.mentions).filter fun mention => mention.address = address

theorem accounts_mentionsAt (lists : List BlockAccessList) (address : Address) :
    (mentionsAt lists address).filterMap Sum.getLeft? = accountsAt lists address := by
  have hleft : (lists.flatMap BlockAccessList.mentions).filterMap Sum.getLeft? =
      lists.flatMap BlockAccessList.accessedAccounts := by
    simp [List.filterMap_flatMap, BlockAccessList.mentions, List.filterMap_map, Function.comp_def]
  rw [mentionsAt, accountsAt, ← hleft, List.filterMap_filter, List.filter_filterMap]
  refine List.filterMap_congr fun mention _ => ?_
  cases mention with
  | inl account => by_cases h : account.address = address <;> simp [Mention.address, Option.filter, h]
  | inr x => simp

theorem mem_mentionsAt {mention : Mention} : mention ∈ mentionsAt lists address ↔
    (∃ account ∈ accountsAt lists address, mention = .inl account) ∨
      ∃ x ∈ accessesAt lists address, mention = .inr x := by
  rw [mentionsAt, List.mem_filter, decide_eq_true_eq]
  cases mention with
  | inl account => simp [BlockAccessList.mentions, accountsAt, List.mem_filter, Mention.address]
  | inr x => simp [BlockAccessList.mentions, accessesAt, List.mem_filter, Mention.address]

theorem mentionsAt_eq_nil :
    mentionsAt lists address = [] ↔ accountsAt lists address = [] ∧ accessesAt lists address = [] := by
  simp only [List.eq_nil_iff_forall_not_mem, mem_mentionsAt]
  constructor
  · intro h
    exact ⟨fun account haccount => h _ (.inl ⟨account, haccount, rfl⟩), fun x hx => h _ (.inr ⟨x, hx, rfl⟩)⟩
  · rintro ⟨haccounts, haccesses⟩ mention (⟨account, h, rfl⟩ | ⟨x, h, rfl⟩)
    · exact haccounts account h
    · exact haccesses x h

theorem mem_keys_mentionsAt : key ∈ (mentionsAt lists address).flatMap Mention.keys ↔ key ∈ keysAt lists address := by
  unfold keysAt
  simp only [List.mem_flatMap, List.mem_append, List.mem_map, mem_mentionsAt]
  constructor
  · rintro ⟨mention, ⟨account, h, rfl⟩ | ⟨x, h, rfl⟩, hkey⟩
    · exact .inl ⟨account, h, hkey⟩
    · exact .inr ⟨x, h, (List.mem_singleton.mp hkey).symm⟩
  · rintro (⟨account, h, hkey⟩ | ⟨x, h, rfl⟩)
    · exact ⟨.inl account, .inl ⟨account, h, rfl⟩, hkey⟩
    · exact ⟨.inr x, .inr ⟨x, h, rfl⟩, List.mem_singleton_self _⟩

/-- The accounts as the loops leave them. -/
theorem lookup_accounts (lists : List BlockAccessList) (address : Address) :
    ((lists.foldl Merge.list ⟨∅, ∅, 0⟩).accounts.lookup address).map (fun account =>
      account.withKeys (sortDedup compare account.storageKeys)) = mergedAccount lists address := by
  rw [accounts_lists, (local_insert Mention.address Mention.write).foldl_filter]
  show Option.map _ ((mentionsAt lists address).foldl (fun before mention => some (mention.write before)) none) = _
  have hwrite := foldl_write fun mention (h : mention ∈ mentionsAt lists address) =>
    of_decide_eq_true (List.mem_filter.mp h).2
  cases hfold : (mentionsAt lists address).foldl (fun before mention => some (mention.write before)) none with
  | none =>
    rw [foldl_write_eq_none, mentionsAt_eq_nil] at hfold
    exact (mergedAccount_eq_none.mpr hfold).symm
  | some account =>
    have hne : ¬ (accountsAt lists address = [] ∧ accessesAt lists address = []) := by
      rw [← mentionsAt_eq_nil, ← foldl_write_eq_none, hfold]
      exact Option.some_ne_none account
    rw [hfold, accounts_mentionsAt, Option.getD_some] at hwrite
    rw [mergedAccount_eq _ _ hne, hwrite]
    exact congrArg (fun keys => some (AccessedAccount.withKeys _ keys)) (sortDedup_congr fun key => mem_keys_mentionsAt)

theorem lookup_accesses (lists : List BlockAccessList) (address : Address) (key : B256) :
    (lists.foldl Merge.list ⟨∅, ∅, 0⟩).accesses.lookup (address, key) = lastAccess lists address key := by
  rw [accesses_lists]
  have hlocal := local_insert (fun x : Address × StorageAccess => (x.1, x.2.key)) (fun x _ => x.2)
  rw [hlocal.foldl_filter, foldl_last]
  simp [lastAccess]

end Accounts

/-! ### The merged list -/

theorem pairwise_ascending {K V : Type} {cmp : K → K → Ordering} [Std.TransCmp cmp] [Std.LawfulEqCmp cmp]
    (m : HashMap K V) : (traverse (ascending cmp) m).Pairwise fun a b => cmp a.1 b.1 = .lt := by
  have hle : (traverse (ascending cmp) m).Pairwise fun a b => (cmp a.1 b.1).isLE = true :=
    pairwise_sortBy (fun a b : K × V => cmp a.1 b.1) _
  have hne := List.pairwise_map.mp (nodup_traverse (ascending cmp) m)
  exact (hle.and hne).imp fun h => lt_of_isLE h.1 fun heq => h.2 (Std.LawfulEqCmp.eq_of_compare heq)

instance : Std.TransCmp comparePair := inferInstanceAs (Std.TransCmp (compareLex (compareOn Prod.fst) (compareOn Prod.snd)))

instance : Std.LawfulEqCmp comparePair where
  eq_of_compare h := by
    obtain ⟨h1, h2⟩ := Ordering.then_eq_eq.mp h
    exact Prod.ext (Std.LawfulEqOrd.eq_of_compare h1) (Std.LawfulEqOrd.eq_of_compare h2)

section Merged
variable {lists lists' : List BlockAccessList} {address : Address} {key : B256} {account : AccessedAccount}
  {access : StorageAccess}

theorem mergedAccount_address (h : mergedAccount lists address = some account) : account.address = address := by
  unfold mergedAccount at h
  split_ifs at h
  obtain rfl := Option.some_inj.mp h
  show ((accountsAt lists address).getLast?.getD (.empty address)).address = address
  cases hlast : (accountsAt lists address).getLast? with
  | none => rfl
  | some account => exact address_last_account hlast

theorem lastAccess_key (h : lastAccess lists address key = some access) : access.key = key := by
  obtain ⟨x, hlast, rfl⟩ := Option.map_eq_some_iff.mp h
  exact (Prod.mk.inj (of_decide_eq_true (List.mem_filter.mp (List.mem_of_getLast? hlast)).2)).2

theorem mem_accounts_merge :
    account ∈ (mergeAccessLists lists).accessedAccounts ↔ mergedAccount lists account.address = some account := by
  unfold mergeAccessLists Merge.finish
  rw [List.mem_map]
  constructor
  · rintro ⟨⟨address, before⟩, hmem, rfl⟩
    have hlookup := lookup_accounts lists address
    rw [mem_traverse.mp hmem] at hlookup
    have haddress : (before.withKeys (sortDedup compare before.storageKeys)).address = address :=
      mergedAccount_address hlookup.symm
    show mergedAccount lists (before.withKeys (sortDedup compare before.storageKeys)).address = _
    rw [haddress]
    exact hlookup.symm
  · intro h
    rw [← lookup_accounts] at h
    obtain ⟨before, hlookup, hbefore⟩ := Option.map_eq_some_iff.mp h
    exact ⟨(account.address, before), mem_traverse.mpr hlookup, hbefore⟩

theorem mem_accesses_merge :
    (address, access) ∈ (mergeAccessLists lists).storageAccesses ↔ lastAccess lists address access.key = some access := by
  unfold mergeAccessLists Merge.finish
  rw [List.mem_map]
  constructor
  · rintro ⟨⟨⟨address, key⟩, access⟩, hmem, heq⟩
    obtain ⟨rfl, rfl⟩ := Prod.mk.inj heq
    have hlookup := (lookup_accesses lists address key).symm.trans (mem_traverse.mp hmem)
    rwa [lastAccess_key hlookup]
  · intro h
    exact ⟨((address, access.key), access), mem_traverse.mpr ((lookup_accesses ..).trans h), rfl⟩

theorem accounts_merge_sorted (lists : List BlockAccessList) :
    (mergeAccessLists lists).accessedAccounts.Pairwise fun a b => compareOn AccessedAccount.address a b = .lt := by
  refine List.pairwise_map.mpr ((pairwise_ascending _).imp_of_mem fun {x y} hx hy hxy => ?_)
  have haddress : ∀ {x : Address × AccessedAccount},
      x ∈ traverse (ascending compare) (lists.foldl Merge.list ⟨∅, ∅, 0⟩).accounts → x.2.address = x.1 := by
    rintro ⟨address, account⟩ hmem
    have hlookup := lookup_accounts lists address
    rw [mem_traverse.mp hmem] at hlookup
    show (account.withKeys (sortDedup compare account.storageKeys)).address = address
    exact mergedAccount_address hlookup.symm
  show compare x.2.address y.2.address = .lt
  rw [haddress hx, haddress hy]
  exact hxy

/-- The order of storage accesses by address and key. -/
def compareSlot (x y : Address × StorageAccess) : Ordering := comparePair (x.1, x.2.key) (y.1, y.2.key)

instance : Std.TransCmp compareSlot :=
  transCmp_on comparePair fun x : Address × StorageAccess => (x.1, x.2.key)

theorem accesses_merge_sorted (lists : List BlockAccessList) :
    (mergeAccessLists lists).storageAccesses.Pairwise fun x y => compareSlot x y = .lt := by
  refine List.pairwise_map.mpr ((pairwise_ascending _).imp_of_mem fun {x y} hx hy hxy => ?_)
  have hkey : ∀ {x : (Address × B256) × StorageAccess},
      x ∈ traverse (ascending comparePair) (lists.foldl Merge.list ⟨∅, ∅, 0⟩).accesses → (x.1.1, x.2.key) = x.1 := by
    rintro ⟨⟨address, key⟩, access⟩ hmem
    rw [lastAccess_key ((lookup_accesses lists address key).symm.trans (mem_traverse.mp hmem))]
  show comparePair (x.1.1, x.2.key) (y.1.1, y.2.key) = .lt
  rw [hkey hx, hkey hy]
  exact hxy

/-- Two merges are equal if they are so account by account and key by key. -/
theorem merge_eq_iff : mergeAccessLists lists = mergeAccessLists lists' ↔
    (mergeAccessLists lists).blockNumber = (mergeAccessLists lists').blockNumber ∧
    (∀ address, mergedAccount lists address = mergedAccount lists' address) ∧
    ∀ address key, lastAccess lists address key = lastAccess lists' address key := by
  constructor
  · intro h
    refine ⟨by rw [h], fun address => Option.ext fun account => ?_, fun address key => Option.ext fun access => ?_⟩
    · have hiff : ∀ {l : List BlockAccessList}, mergedAccount l address = some account ↔
          account.address = address ∧ account ∈ (mergeAccessLists l).accessedAccounts := by
        intro l
        rw [mem_accounts_merge]
        exact ⟨fun h => ⟨mergedAccount_address h, (mergedAccount_address h).symm ▸ h⟩, fun h => h.1 ▸ h.2⟩
      rw [hiff, hiff, h]
    · have hiff : ∀ {l : List BlockAccessList}, lastAccess l address key = some access ↔
          access.key = key ∧ (address, access) ∈ (mergeAccessLists l).storageAccesses := by
        intro l
        rw [mem_accesses_merge]
        exact ⟨fun h => ⟨lastAccess_key h, (lastAccess_key h).symm ▸ h⟩, fun h => h.1 ▸ h.2⟩
      rw [hiff, hiff, h]
  · rintro ⟨hnumber, haccounts, haccesses⟩
    have h1 : (mergeAccessLists lists).accessedAccounts = (mergeAccessLists lists').accessedAccounts := by
      refine eq_of_mem_iff (compareOn AccessedAccount.address) (accounts_merge_sorted lists)
        (accounts_merge_sorted lists') fun account => ?_
      rw [mem_accounts_merge, mem_accounts_merge, haccounts]
    have h2 : (mergeAccessLists lists).storageAccesses = (mergeAccessLists lists').storageAccesses := by
      refine eq_of_mem_iff compareSlot (accesses_merge_sorted lists) (accesses_merge_sorted lists') fun x => ?_
      rw [mem_accesses_merge, mem_accesses_merge, haccesses]
    cases hm : mergeAccessLists lists
    cases hm' : mergeAccessLists lists'
    rw [hm, hm'] at hnumber h1 h2
    exact congr (congr (congrArg BlockAccessList.mk hnumber) h1) h2

end Merged

/-! ### Merged lists are valid -/

section Validity
variable {lists : List BlockAccessList} {address : Address} {account : AccessedAccount} {x : Address × StorageAccess}

theorem mem_accountsAt (h : account ∈ lists.flatMap BlockAccessList.accessedAccounts) :
    account ∈ accountsAt lists account.address := List.mem_filter.mpr ⟨h, decide_eq_true rfl⟩

theorem mem_accessesAt (h : x ∈ lists.flatMap BlockAccessList.storageAccesses) : x ∈ accessesAt lists x.1 :=
  List.mem_filter.mpr ⟨h, decide_eq_true rfl⟩

/-- An address that the lists name has an account in the merge. -/
theorem exists_account_merge (h : ¬ (accountsAt lists address = [] ∧ accessesAt lists address = [])) :
    ∃ account ∈ (mergeAccessLists lists).accessedAccounts, account.address = address := by
  have haccount := mergedAccount_eq _ _ h
  have haddress := mergedAccount_address haccount
  exact ⟨_, mem_accounts_merge.mpr (haddress.symm ▸ haccount), haddress⟩

theorem mem_of_mem_accesses_merge (h : x ∈ (mergeAccessLists lists).storageAccesses) :
    x ∈ lists.flatMap BlockAccessList.storageAccesses := by
  obtain ⟨address, access⟩ := x
  obtain ⟨y, hlast, rfl⟩ := Option.map_eq_some_iff.mp (mem_accesses_merge.mp h)
  obtain ⟨hmem, heq⟩ := List.mem_filter.mp (List.mem_of_getLast? hlast)
  obtain rfl := (Prod.mk.inj (of_decide_eq_true heq)).1
  exact hmem

theorem valid_merge (h : ∃ list ∈ lists, list.accessedAccounts ≠ [] ∨ list.storageAccesses ≠ []) :
    Valid (mergeAccessLists lists) where
  accounts := by
    have hsome : ∃ address, ¬ (accountsAt lists address = [] ∧ accessesAt lists address = []) := by
      obtain ⟨list, hlist, hne | hne⟩ := h
      · obtain ⟨account, haccount⟩ := List.exists_mem_of_ne_nil _ hne
        exact ⟨account.address, fun hnil =>
          List.ne_nil_of_mem (mem_accountsAt (List.mem_flatMap.mpr ⟨list, hlist, haccount⟩)) hnil.1⟩
      · obtain ⟨x, hx⟩ := List.exists_mem_of_ne_nil _ hne
        exact ⟨x.1, fun hnil => List.ne_nil_of_mem (mem_accessesAt (List.mem_flatMap.mpr ⟨list, hlist, hx⟩)) hnil.2⟩
    obtain ⟨address, haddress⟩ := hsome
    obtain ⟨account, haccount, -⟩ := exists_account_merge haddress
    exact List.ne_nil_of_mem haccount
  addresses := nodup_of_lt compare (List.pairwise_map.mpr (accounts_merge_sorted lists))
  keys account h := by
    have haccount := mem_accounts_merge.mp h
    unfold mergedAccount at haccount
    split_ifs at haccount
    rw [← Option.some_inj.mp haccount]
    exact nodup_of_lt compare pairwise_sortDedup
  accesses := nodup_of_lt comparePair (List.pairwise_map.mpr (accesses_merge_sorted lists))
  known x h := by
    have hx := mem_accessesAt (mem_of_mem_accesses_merge h)
    obtain ⟨account, haccount, haddress⟩ := exists_account_merge fun hnil => List.ne_nil_of_mem hx hnil.2
    exact List.mem_map.mpr ⟨account, haccount, haddress⟩

end Validity

/-! ### Merging merges -/

section Regrouping
variable {xs ys : List BlockAccessList} {address : Address} {key : B256} {account : AccessedAccount}

theorem accountsAt_append : accountsAt (xs ++ ys) address = accountsAt xs address ++ accountsAt ys address := by
  unfold accountsAt
  rw [List.flatMap_append, List.filter_append]

theorem accessesAt_append : accessesAt (xs ++ ys) address = accessesAt xs address ++ accessesAt ys address := by
  unfold accessesAt
  rw [List.flatMap_append, List.filter_append]

theorem lastAccess_append :
    lastAccess (xs ++ ys) address key = (lastAccess ys address key).or (lastAccess xs address key) := by
  unfold lastAccess
  rw [List.flatMap_append, List.filter_append, List.getLast?_append, Option.map_or]

/-- A merge has one account for an address, or none. -/
theorem accountsAt_merge (xs : List BlockAccessList) (address : Address) :
    accountsAt [mergeAccessLists xs] address = (mergedAccount xs address).toList := by
  unfold accountsAt
  rw [List.flatMap_singleton]
  refine eq_of_mem_iff (compareOn AccessedAccount.address) ((accounts_merge_sorted xs).filter _) ?_ fun b => ?_
  · cases mergedAccount xs address with
    | none => exact .nil
    | some account => exact List.pairwise_singleton _ _
  · rw [List.mem_filter, mem_accounts_merge, decide_eq_true_eq, Option.mem_toList]
    exact ⟨fun h => h.2 ▸ h.1, fun h => ⟨(mergedAccount_address h).symm ▸ h, mergedAccount_address h⟩⟩

theorem lastAccess_merge (xs : List BlockAccessList) (address : Address) (key : B256) :
    lastAccess [mergeAccessLists xs] address key = lastAccess xs address key := by
  have hfilter : ((mergeAccessLists xs).storageAccesses.filter fun x => (x.1, x.2.key) = (address, key)) =
      ((lastAccess xs address key).map fun access => (address, access)).toList := by
    refine eq_of_mem_iff compareSlot ((accesses_merge_sorted xs).filter _) ?_ ?_
    · cases lastAccess xs address key with
      | none => exact .nil
      | some access => exact List.pairwise_singleton _ _
    · rintro ⟨a, access⟩
      rw [List.mem_filter, mem_accesses_merge, decide_eq_true_eq, Option.mem_toList,
        Option.map_eq_some_iff]
      constructor
      · rintro ⟨h, heq⟩
        obtain ⟨rfl, rfl⟩ := Prod.mk.inj heq
        exact ⟨access, h, rfl⟩
      · rintro ⟨access', h, heq⟩
        obtain ⟨rfl, rfl⟩ := Prod.mk.inj heq
        rw [lastAccess_key h]
        exact ⟨h, rfl⟩
  rw [lastAccess, List.flatMap_singleton, hfilter]
  cases lastAccess xs address key <;> rfl

theorem mem_of_mem_accessesAt_merge {x : Address × StorageAccess} (h : x ∈ accessesAt [mergeAccessLists xs] address) :
    x ∈ accessesAt xs address := by
  obtain ⟨hmem, haddress⟩ := List.mem_filter.mp h
  rw [List.flatMap_singleton] at hmem
  exact List.mem_filter.mpr ⟨mem_of_mem_accesses_merge hmem, haddress⟩

theorem nothing_merge : (accountsAt [mergeAccessLists xs] address = [] ∧ accessesAt [mergeAccessLists xs] address = []) ↔
    accountsAt xs address = [] ∧ accessesAt xs address = [] := by
  rw [accountsAt_merge, Option.toList_eq_nil_iff, mergedAccount_eq_none]
  refine ⟨fun h => h.1, fun h => ⟨h, List.eq_nil_iff_forall_not_mem.mpr fun x hx => ?_⟩⟩
  have hmem := mem_of_mem_accessesAt_merge hx
  rw [h.2] at hmem
  cases hmem

theorem mem_keysAt_merge : key ∈ keysAt [mergeAccessLists xs] address ↔ key ∈ keysAt xs address := by
  unfold keysAt
  rw [accountsAt_merge, List.mem_append]
  by_cases h : accountsAt xs address = [] ∧ accessesAt xs address = []
  · rw [mergedAccount_eq_none.mpr h, (nothing_merge.mpr h).2, h.1, h.2]
    simp
  · rw [mergedAccount_eq _ _ h]
    show key ∈ sortDedup compare (keysAt xs address) ++ [] ∨ _ ↔ key ∈ keysAt xs address
    rw [List.append_nil, mem_sortDedup]
    refine or_iff_left_of_imp fun hkey => List.mem_append_right _ ?_
    obtain ⟨x, hx, rfl⟩ := List.mem_map.mp hkey
    exact List.mem_map_of_mem (mem_of_mem_accessesAt_merge hx)

theorem mem_keysAt_append : key ∈ keysAt (xs ++ ys) address ↔ key ∈ keysAt xs address ∨ key ∈ keysAt ys address := by
  unfold keysAt
  rw [accountsAt_append, accessesAt_append]
  simp only [List.flatMap_append, List.map_append, List.mem_append]
  exact or_or_or_comm

/-- No balance, no nonce and no code hash. -/
def AccessedAccount.NoValues (account : AccessedAccount) : Prop :=
  account.postBalance = none ∧ account.postNonce = none ∧ account.postCodeHash = none

theorem withKeys_eq_empty (keys : List B256) (h : account.address = address) :
    (AccessedAccount.empty address).withKeys keys = account.withKeys keys ↔ account.NoValues := by
  obtain ⟨a, storageKeys, balance, nonce, codeHash⟩ := account
  subst h
  simp [AccessedAccount.withKeys, AccessedAccount.empty, AccessedAccount.NoValues, eq_comm]

/-- But for the keys, what is merged for an address is its last account. -/
theorem withKeys_merged (xs : List BlockAccessList) (address : Address) (keys : List B256) :
    ((mergedAccount xs address).getD (.empty address)).withKeys keys =
      ((accountsAt xs address).getLast?.getD (.empty address)).withKeys keys := by
  by_cases h : accountsAt xs address = [] ∧ accessesAt xs address = []
  · rw [mergedAccount_eq_none.mpr h, h.1]
    rfl
  · rw [mergedAccount_eq _ _ h]
    rfl

theorem nothing_regroup : (accountsAt ([mergeAccessLists xs] ++ [mergeAccessLists ys]) address = [] ∧
      accessesAt ([mergeAccessLists xs] ++ [mergeAccessLists ys]) address = []) ↔
    accountsAt (xs ++ ys) address = [] ∧ accessesAt (xs ++ ys) address = [] := by
  simp only [accountsAt_append, accessesAt_append, List.append_eq_nil_iff]
  rw [and_and_and_comm, nothing_merge, nothing_merge, and_and_and_comm]

theorem mem_keysAt_regroup :
    key ∈ keysAt ([mergeAccessLists xs] ++ [mergeAccessLists ys]) address ↔ key ∈ keysAt (xs ++ ys) address := by
  rw [mem_keysAt_append, mem_keysAt_append, mem_keysAt_merge, mem_keysAt_merge]

/-- The last account that two merges have for an address: the one merged from the later lists, if they name it. -/
theorem last_account_regroup : (accountsAt ([mergeAccessLists xs] ++ [mergeAccessLists ys]) address).getLast? =
    (mergedAccount ys address).or (mergedAccount xs address) := by
  have htoList : ∀ o : Option AccessedAccount, o.toList.getLast? = o := by
    intro o
    cases o <;> rfl
  rw [accountsAt_append, List.getLast?_append, accountsAt_merge, accountsAt_merge, htoList, htoList]

/-- Two merges merged have for an address what one merge has, if no account loses its values to one that the later
lists name by its storage alone. -/
theorem mergedAccount_regroup : mergedAccount ([mergeAccessLists xs] ++ [mergeAccessLists ys]) address =
      mergedAccount (xs ++ ys) address ↔
    (accountsAt ys address = [] → accessesAt ys address ≠ [] →
      ∀ account, (accountsAt xs address).getLast? = some account → account.NoValues) := by
  by_cases h : accountsAt (xs ++ ys) address = [] ∧ accessesAt (xs ++ ys) address = []
  · rw [mergedAccount_eq_none.mpr h, mergedAccount_eq_none.mpr (nothing_regroup.mpr h)]
    rw [accessesAt_append, List.append_eq_nil_iff] at h
    simp [h.2.2]
  have hkeys : sortDedup compare (keysAt ([mergeAccessLists xs] ++ [mergeAccessLists ys]) address) =
      sortDedup compare (keysAt (xs ++ ys) address) := sortDedup_congr fun key => mem_keysAt_regroup
  rw [mergedAccount_eq _ _ h, mergedAccount_eq _ _ (mt nothing_regroup.mp h), hkeys, Option.some_inj]
  generalize sortDedup compare (keysAt (xs ++ ys) address) = keys
  rw [last_account_regroup, accountsAt_append, List.getLast?_append]
  by_cases haccounts : accountsAt ys address = []
  · by_cases haccesses : accessesAt ys address = []
    · rw [mergedAccount_eq_none.mpr ⟨haccounts, haccesses⟩, haccounts]
      simp [haccesses, withKeys_merged]
    · -- the later lists only imply the account
      have hmerged := mergedAccount_eq ys address fun hnil => haccesses hnil.2
      rw [haccounts] at hmerged ⊢
      rw [hmerged]
      show (AccessedAccount.empty address).withKeys keys =
        ((accountsAt xs address).getLast?.getD (.empty address)).withKeys keys ↔ _
      cases hlast : (accountsAt xs address).getLast? with
      | none => simp
      | some account =>
        rw [Option.getD_some, withKeys_eq_empty keys (address_last_account hlast)]
        simp [haccesses]
  · have hmerged := mergedAccount_eq ys address fun hnil => haccounts hnil.1
    rw [hmerged]
    cases hlast : (accountsAt ys address).getLast? with
    | none => exact absurd (List.getLast?_eq_none_iff.mp hlast) haccounts
    | some account => exact ⟨fun _ hnil => absurd hnil haccounts, fun _ => rfl⟩

theorem blockNumber_merge (lists : List BlockAccessList) : (mergeAccessLists lists).blockNumber =
    (lists.getLast?.map BlockAccessList.blockNumber).getD 0 := blockNumber_lists

/-- Merging in two groups gives what merging at once gives, if and only if no account that the second group names by
its storage alone has values from the first. -/
theorem merge_regroup (hys : ys ≠ []) :
    mergeAccessLists [mergeAccessLists xs, mergeAccessLists ys] = mergeAccessLists (xs ++ ys) ↔
      ∀ address account, accountsAt ys address = [] → accessesAt ys address ≠ [] →
        (accountsAt xs address).getLast? = some account → account.NoValues := by
  have hnumber : (mergeAccessLists [mergeAccessLists xs, mergeAccessLists ys]).blockNumber =
      (mergeAccessLists (xs ++ ys)).blockNumber := by
    rw [blockNumber_merge, blockNumber_merge]
    show (mergeAccessLists ys).blockNumber = _
    rw [blockNumber_merge, List.getLast?_append_of_ne_nil _ hys]
  have haccesses : ∀ address key, lastAccess [mergeAccessLists xs, mergeAccessLists ys] address key =
      lastAccess (xs ++ ys) address key := by
    intro address key
    show lastAccess ([mergeAccessLists xs] ++ [mergeAccessLists ys]) address key = _
    rw [lastAccess_append, lastAccess_append, lastAccess_merge, lastAccess_merge]
  rw [merge_eq_iff]
  constructor
  · rintro ⟨-, haccounts, -⟩ address account hnone hsome hlast
    exact mergedAccount_regroup.mp (haccounts address) hnone hsome account hlast
  · intro h
    exact ⟨hnumber, fun address => mergedAccount_regroup.mpr fun hnone hsome account hlast =>
      h address account hnone hsome hlast, haccesses⟩

end Regrouping

/-! ### What a merge says -/

/-- The values an account is left with. -/
def AccessedAccount.SameValues (a b : AccessedAccount) : Prop :=
  a.postBalance = b.postBalance ∧ a.postNonce = b.postNonce ∧ a.postCodeHash = b.postCodeHash

theorem getLast?_filter_split {α : Type} {p : α → Bool} {l before after : List α} {a : α} (hl : l = before ++ a :: after)
    (ha : p a = true) (hafter : ∀ b ∈ after, p b = false) : (l.filter p).getLast? = some a := by
  have hnil : after.filter p = [] := List.filter_eq_nil_iff.mpr (by simpa using hafter)
  rw [hl, List.filter_append, List.filter_cons_of_pos ha, hnil, List.getLast?_concat]

/-- An account has in the merge the values that its last mention leaves it with. -/
theorem merge_last_account {lists : List BlockAccessList} {before after : List AccessedAccount} {account : AccessedAccount}
    (h : lists.flatMap BlockAccessList.accessedAccounts = before ++ account :: after)
    (hafter : ∀ b ∈ after, b.address ≠ account.address) :
    ∃ merged ∈ (mergeAccessLists lists).accessedAccounts, merged.address = account.address ∧ merged.SameValues account := by
  have hlast : (accountsAt lists account.address).getLast? = some account :=
    getLast?_filter_split h (decide_eq_true rfl) fun b hb => decide_eq_false (hafter b hb)
  have hmerged := mergedAccount_eq lists account.address fun hnil => by
    rw [hnil.1] at hlast
    cases hlast
  rw [hlast] at hmerged
  exact ⟨account.withKeys (sortDedup compare (keysAt lists account.address)), mem_accounts_merge.mpr hmerged, rfl, rfl,
    rfl, rfl⟩

/-- A storage key has in the merge its last access. -/
theorem merge_last_access {lists : List BlockAccessList} {before after : List (Address × StorageAccess)}
    {x : Address × StorageAccess} (h : lists.flatMap BlockAccessList.storageAccesses = before ++ x :: after)
    (hafter : ∀ y ∈ after, (y.1, y.2.key) ≠ (x.1, x.2.key)) : x ∈ (mergeAccessLists lists).storageAccesses := by
  have hlast := getLast?_filter_split (p := fun y => (y.1, y.2.key) = (x.1, x.2.key)) h (decide_eq_true rfl)
    fun y hy => decide_eq_false (hafter y hy)
  exact mem_accesses_merge.mpr (Option.map_eq_some_iff.mpr ⟨x, hlast, rfl⟩)

/-- When lists can be merged in groups, and what a merge has. -/
theorem merge_access_lists_spec :
    (∀ xs ys : List BlockAccessList, xs ≠ [] → ys ≠ [] →
      (mergeAccessLists [mergeAccessLists xs, mergeAccessLists ys] = mergeAccessLists (xs ++ ys) ↔
        ∀ address account, accountsAt ys address = [] → accessesAt ys address ≠ [] →
          (accountsAt xs address).getLast? = some account → account.NoValues) ∧
      ((∀ list ∈ ys, validateBlockAccessList list = .ok ()) →
        mergeAccessLists [mergeAccessLists xs, mergeAccessLists ys] = mergeAccessLists (xs ++ ys))) ∧
    ∀ lists : List BlockAccessList,
      ((∃ list ∈ lists, list.accessedAccounts ≠ [] ∨ list.storageAccesses ≠ []) →
        validateBlockAccessList (mergeAccessLists lists) = .ok ()) ∧
      (∀ before account after, lists.flatMap BlockAccessList.accessedAccounts = before ++ account :: after →
        (∀ b ∈ after, b.address ≠ account.address) →
        ∃ merged ∈ (mergeAccessLists lists).accessedAccounts,
          merged.address = account.address ∧ merged.SameValues account) ∧
      (∀ before x after, lists.flatMap BlockAccessList.storageAccesses = before ++ x :: after →
        (∀ y ∈ after, (y.1, y.2.key) ≠ (x.1, x.2.key)) → x ∈ (mergeAccessLists lists).storageAccesses) := by
  refine ⟨fun xs ys _ hys => ⟨merge_regroup hys, fun hvalid => (merge_regroup hys).mpr ?_⟩, fun lists =>
    ⟨fun h => validateBlockAccessList_iff.mpr (valid_merge h), fun _ _ _ => merge_last_account,
      fun _ _ _ => merge_last_access⟩⟩
  -- a valid list names every account by itself
  intro address account hnone hsome
  obtain ⟨x, hx⟩ := List.exists_mem_of_ne_nil _ hsome
  obtain ⟨hmem, haddress⟩ := List.mem_filter.mp hx
  obtain ⟨list, hlist, hxlist⟩ := List.mem_flatMap.mp hmem
  obtain ⟨b, hb, hbx⟩ := List.mem_map.mp ((validateBlockAccessList_iff.mp (hvalid list hlist)).known x hxlist)
  have hmemAt := mem_accountsAt (List.mem_flatMap.mpr ⟨list, hlist, hb⟩)
  rw [hbx, of_decide_eq_true haddress, hnone] at hmemAt
  cases hmemAt

/-- An account with a balance, and later a storage access to it. -/
def balanceList : BlockAccessList := ⟨1, [⟨.repeatByte 1, [], some 5, none, none⟩], []⟩

def accessList : BlockAccessList := ⟨2, [], [(.repeatByte 1, ⟨.repeatByte 2, .repeatByte 3, .repeatByte 4⟩)]⟩

/-- A valid list in a group of its own, and the merge of a list that is not valid. -/
theorem merge_access_lists_spec_groups :
    mergeAccessLists [mergeAccessLists [balanceList], mergeAccessLists [twoAccounts]] =
      mergeAccessLists ([balanceList] ++ [twoAccounts]) ∧
    validateBlockAccessList (mergeAccessLists [accessList]) = .ok () ∧
    (.repeatByte 1, ⟨.repeatByte 2, .repeatByte 3, .repeatByte 4⟩) ∈ (mergeAccessLists [accessList]).storageAccesses := by
  obtain ⟨hgroups, hmerge⟩ := merge_access_lists_spec
  obtain ⟨hvalid, -, haccess⟩ := hmerge [accessList]
  refine ⟨(hgroups _ _ (List.cons_ne_nil _ _) (List.cons_ne_nil _ _)).2 fun list hlist => ?_, hvalid ?_, ?_⟩
  · obtain rfl := List.mem_singleton.mp hlist
    rfl
  · exact ⟨accessList, List.mem_singleton_self _, .inr (List.cons_ne_nil _ _)⟩
  · exact haccess [] _ [] rfl nofun

/-- At once the account keeps its balance, in groups it loses it. -/
theorem merge_not_associative : mergeAccessLists [mergeAccessLists [balanceList], mergeAccessLists [accessList]] ≠
    mergeAccessLists ([balanceList] ++ [accessList]) := by
  intro h
  have hnone := (merge_regroup (List.cons_ne_nil _ _)).mp h (.repeatByte 1) ⟨.repeatByte 1, [], some 5, none, none⟩ rfl
    (List.cons_ne_nil _ _) rfl
  cases hnone.1

end Eip7928
end Eth2077
