import Mathlib.Data.List.Flatten
import Eth2077.Node.Daemon
import Eth2077.Node.FailedRun
import Eth2077.Lib.KeyedFold
import Eth2077.Lib.Runs

/-!
# Inclusion of transactions

The pending list, the lists of the blocks, the records and the receipts are four stores. What keeps them
in step is that a hash is recorded only while it is in none of the lists. A mint makes up a hash from a
counter and cannot repeat one. A raw transaction is named by its bytes alone while its sender is whoever
was asked about last, so the same bytes can be accepted again.
-/

namespace Eth2077

namespace Inclusion

inductive NodeRequest where
  | getTransactionCount (params : Json)
  | sendRawTransaction (params : Json)
  | marketMint (params : Json)
  | tick

/-- A request or a tick, and the clock when it comes. -/
structure NodeCall where
  request : NodeRequest
  now : UInt64

section Defs
variable (R : Revm) (D : Decoders) (hasher : String → UInt64 → UInt64 → UInt64)

def next (s : NodeState R.Db) (c : NodeCall) : NodeState R.Db :=
  match c.request with
  | .getTransactionCount params => (ethGetTransactionCount R s params).2
  | .sendRawTransaction params => (handleJsonrpc R D s .ethSendRawTransaction params).2
  | .marketMint params => (eth2077MarketMint ⟨hasher, c.now⟩ s params).2
  | .tick => blockTick s c.now

def step (s : NodeState R.Db) (c : NodeCall) : Option (NodeState R.Db) := some (next R D hasher s c)

/-! ### What is hashed -/

def rawTx (params : Json) : String := ((params.param 0).bind Json.asStr).getD "0x"

def mintOwner (params : Json) : Option String := ((params.param 0).bind Json.asStr).bind canonicalAddress

/-- The node runs the transaction for the sender it was last asked about. -/
def accepted (s : NodeState R.Db) (params : Json) : Bool :=
  match prepare R D s params .ethSendRawTransaction with
  | .inl _ => false
  | .inr (c, prepared) => (executeEvmTransaction R prepared c).1.toOption.isSome

inductive Preimage where
  | raw (bytes : List UInt8)
  | mint (text : String) (counter : UInt64)

def Preimage.hash : Preimage → String
  | raw bytes => bytesToHex (D.keccak256 bytes).toList
  | mint text counter => pseudoTxHash ⟨hasher, 0⟩ text counter

/-- What a call hashes. -/
def hashed (s : NodeState R.Db) (c : NodeCall) : Option Preimage :=
  match c.request with
  | .sendRawTransaction params => some (.raw ((D.parseHexBytes (rawTx params)).getD []))
  | .marketMint params => (mintOwner params).map fun owner =>
      .mint (mintText owner s.nextMarketTokenId c.now) (s.txCounter + c.now)
  | _ => none

/-- What a call records as the preimage of a new transaction. -/
def recorded (s : NodeState R.Db) (c : NodeCall) : Option Preimage :=
  match c.request with
  | .sendRawTransaction params => if accepted R D s params then hashed R D s c else none
  | _ => hashed R D s c

/-- Everything that is hashed in a run. -/
def hashedIn (s : NodeState R.Db) (calls : List NodeCall) : Set Preimage :=
  {p | ∃ before c after m, calls = before ++ c :: after ∧ Run.exec (step R D hasher) s before = some m ∧
    hashed R D m c = some p}

end Defs

/-! ### What a node should hold -/

section State
variable {Db : Type} (s : NodeState Db)

/-- The hashes waiting and those in blocks. -/
def listed : List String := s.pendingTxs ++ s.blockTxs.entries.flatMap Sigma.snd

/-- The record under the hash says where it is, and the receipt, if there is one, says the same. -/
def Placed (txs : HashMap String TxRecord) (txReceipts : HashMap String TxReceiptRecord) (block : UInt64) (i : ℕ)
    (hash : String) : Prop :=
  (∃ tx, txs.lookup hash = some tx ∧ tx.blockNumber = some block ∧ tx.transactionIndex = some (UInt64.ofNat i)) ∧
    ∀ receipt, txReceipts.lookup hash = some receipt →
      receipt.blockNumber = some block ∧ receipt.transactionIndex = some (UInt64.ofNat i)

structure IncludedOnce : Prop where
  once : (listed s).Nodup
  placed : ∀ block hashes, s.blockTxs.lookup block = some hashes → ∀ i hash, hashes[i]? = some hash →
    Placed s.txs s.txReceipts block i hash

/-- What waits has been recorded. -/
structure Inv : Prop where
  included : IncludedOnce s
  pending : ∀ hash ∈ s.pendingTxs, hash ∈ s.txs

end State

/-! ### The ticker -/

section Tick
variable {txs : HashMap String TxRecord} {txReceipts : HashMap String TxReceiptRecord} {block : UInt64} {i : ℕ}
  {hash : String} {acc : Sealing}

theorem Placed.congr {txs' : HashMap String TxRecord} {txReceipts' : HashMap String TxReceiptRecord}
    (h : Placed txs txReceipts block i hash) (htxs : txs'.lookup hash = txs.lookup hash)
    (hreceipts : txReceipts'.lookup hash = txReceipts.lookup hash) : Placed txs' txReceipts' block i hash := by
  unfold Placed
  rw [htxs, hreceipts]
  exact h

theorem place_of_ne (block : UInt64) (acc : Sealing) (entry : String × ℕ) (h : hash ≠ entry.1) :
    (Sealing.place block acc entry).txs.lookup hash = acc.txs.lookup hash ∧
      (Sealing.place block acc entry).txReceipts.lookup hash = acc.txReceipts.lookup hash := by
  have hmodify : ∀ p : Place, (acc.txs.modify entry.1 p.tx).lookup hash = acc.txs.lookup hash := by
    intro p
    unfold HashMap.modify
    split
    · rw [AList.lookup_insert_ne h]
    · rfl
  unfold Sealing.place
  dsimp only
  split
  · exact ⟨hmodify _, rfl⟩
  · exact ⟨hmodify _, by rw [AList.lookup_insert_ne h]⟩

theorem placed_place (block : UInt64) (entry : String × ℕ) (h : (acc.txs.lookup entry.1).isSome) :
    Placed (Sealing.place block acc entry).txs (Sealing.place block acc entry).txReceipts block entry.2 entry.1 := by
  obtain ⟨tx, htx⟩ := Option.isSome_iff_exists.mp h
  have hmodify : ∀ p : Place, (acc.txs.modify entry.1 p.tx).lookup entry.1 = some (p.tx tx) := by
    intro p
    unfold HashMap.modify
    rw [htx]
    exact AList.lookup_insert _
  unfold Sealing.place
  dsimp only
  split
  · rename_i hnone
    refine ⟨⟨_, hmodify _, rfl, rfl⟩, ?_⟩
    intro receipt hreceipt
    rw [hnone] at hreceipt
    cases hreceipt
  · refine ⟨⟨_, hmodify _, rfl, rfl⟩, ?_⟩
    intro receipt hreceipt
    rw [AList.lookup_insert] at hreceipt
    obtain rfl := Option.some_inj.mp hreceipt
    exact ⟨rfl, rfl⟩

theorem getElem?_concat_cases {α : Type} {l : List α} {a b : α} {i : ℕ} (h : (l ++ [a])[i]? = some b) :
    (i < l.length ∧ l[i]? = some b) ∨ (i = l.length ∧ b = a) := by
  rcases Nat.lt_or_ge i l.length with hlt | hge
  · rw [List.getElem?_append_left hlt] at h
    exact .inl ⟨hlt, h⟩
  · rw [List.getElem?_append_right hge, List.getElem?_singleton] at h
    split_ifs at h with hzero
    exact .inr ⟨by omega, (Option.some_inj.mp h).symm⟩

/-- The loop, one transaction further. -/
theorem foldl_concat (block : UInt64) (acc : Sealing) (pending : List String) (hash : String) :
    (pending ++ [hash]).zipIdx.foldl (Sealing.place block) acc =
      Sealing.place block (pending.zipIdx.foldl (Sealing.place block) acc) (hash, pending.length) := by
  simp [List.zipIdx_append]

/-- The loop touches no other transaction. -/
theorem foldl_of_notMem (block : UInt64) (acc : Sealing) {pending : List String} (h : hash ∉ pending) :
    (pending.zipIdx.foldl (Sealing.place block) acc).txs.lookup hash = acc.txs.lookup hash ∧
      (pending.zipIdx.foldl (Sealing.place block) acc).txReceipts.lookup hash = acc.txReceipts.lookup hash := by
  have hkeys : ∀ entry ∈ pending.zipIdx, entry.1 ≠ hash := by
    rintro ⟨other, i⟩ hentry rfl
    exact h (List.fst_mem_of_mem_zipIdx hentry)
  constructor
  · exact KeyedFold.foldl_of_notMem (fun (acc : Sealing) hash => acc.txs.lookup hash)
      (fun acc entry _ hne => (place_of_ne block acc entry hne).1) hkeys
  · exact KeyedFold.foldl_of_notMem (fun (acc : Sealing) hash => acc.txReceipts.lookup hash)
      (fun acc entry _ hne => (place_of_ne block acc entry hne).2) hkeys

/-- The loop of the ticker puts each pending transaction at its place and touches no other. -/
theorem seal_spec (block : UInt64) (acc : Sealing) {pending : List String} (hnodup : pending.Nodup) :
    (∀ hash ∉ pending, (pending.zipIdx.foldl (Sealing.place block) acc).txs.lookup hash = acc.txs.lookup hash ∧
      (pending.zipIdx.foldl (Sealing.place block) acc).txReceipts.lookup hash = acc.txReceipts.lookup hash) ∧
    (∀ i hash, pending[i]? = some hash → (acc.txs.lookup hash).isSome →
      Placed (pending.zipIdx.foldl (Sealing.place block) acc).txs
        (pending.zipIdx.foldl (Sealing.place block) acc).txReceipts block i hash) := by
  refine ⟨fun hash hhash => foldl_of_notMem block acc hhash, ?_⟩
  induction pending using List.reverseRecOn with
  | nil => simp
  | append_singleton pending last ih =>
    obtain ⟨hpending, -, hlast⟩ := List.nodup_append'.mp hnodup
    have hnotMem : last ∉ pending := fun hmem => hlast hmem (List.mem_singleton_self last)
    rw [foldl_concat]
    intro i hash hi hsome
    rcases getElem?_concat_cases hi with ⟨-, hi⟩ | ⟨rfl, rfl⟩
    · have hne : hash ≠ last := fun heq => hnotMem (heq ▸ List.mem_of_getElem? hi)
      obtain ⟨htxs, hreceipts⟩ := place_of_ne block (pending.zipIdx.foldl (Sealing.place block) acc)
        (last, pending.length) hne
      exact (ih hpending i hash hi hsome).congr htxs hreceipts
    · refine placed_place block (hash, pending.length) ?_
      rwa [(foldl_of_notMem block acc hnotMem).1]

end Tick

/-! ### Steps -/

section Steps
variable {Db : Type} {s s' : NodeState Db} {hash : String}

theorem mem_listed : hash ∈ listed s ↔
    hash ∈ s.pendingTxs ∨ ∃ block hashes, s.blockTxs.lookup block = some hashes ∧ hash ∈ hashes := by
  simp only [listed, List.mem_append, List.mem_flatMap, Sigma.exists, AList.mem_lookup_iff.symm, Option.mem_def]

/-- Nothing in a block list waits as well. -/
theorem IncludedOnce.not_pending (hs : IncludedOnce s) {block : UInt64} {hashes : List String}
    (hblock : s.blockTxs.lookup block = some hashes) (hmem : hash ∈ hashes) : hash ∉ s.pendingTxs := by
  intro hpending
  refine (List.nodup_append'.mp hs.once).2.2 hpending ?_
  exact List.mem_flatMap.mpr ⟨⟨block, hashes⟩, AList.mem_lookup_iff.mp hblock, hmem⟩

/-- The lists, the records and the receipts are as they were. -/
structure SameStores (s s' : NodeState Db) : Prop where
  pendingTxs : s'.pendingTxs = s.pendingTxs
  blockTxs : s'.blockTxs = s.blockTxs
  txs : s'.txs = s.txs
  txReceipts : s'.txReceipts = s.txReceipts

theorem SameStores.listed (h : SameStores s s') : listed s' = listed s := by
  unfold Inclusion.listed
  rw [h.pendingTxs, h.blockTxs]

theorem SameStores.inv (h : SameStores s s') (hs : Inv s) : Inv s' := by
  obtain ⟨⟨honce, hplaced⟩, hpending⟩ := hs
  refine ⟨⟨h.listed ▸ honce, ?_⟩, ?_⟩
  · rw [h.blockTxs, h.txs, h.txReceipts]
    exact hplaced
  · rw [h.pendingTxs, h.txs]
    exact hpending

/-- A transaction is recorded under `hash` and waits. -/
structure Records (s s' : NodeState Db) (hash : String) : Prop where
  pendingTxs : s'.pendingTxs = s.pendingTxs ++ [hash]
  blockTxs : s'.blockTxs = s.blockTxs
  txs : hash ∈ s'.txs ∧ ∀ other ≠ hash, s'.txs.lookup other = s.txs.lookup other
  txReceipts : ∀ other ≠ hash, s'.txReceipts.lookup other = s.txReceipts.lookup other

theorem Records.listed_perm (h : Records s s' hash) : (listed s').Perm (hash :: listed s) := by
  unfold listed
  rw [h.pendingTxs, h.blockTxs, List.append_assoc]
  exact List.perm_middle

theorem Records.nodup_iff (h : Records s s' hash) : (listed s').Nodup ↔ hash ∉ listed s ∧ (listed s).Nodup := by
  rw [h.listed_perm.nodup_iff, List.nodup_cons]

theorem Records.inv (h : Records s s' hash) (hs : Inv s) (hfresh : hash ∉ listed s) : Inv s' := by
  refine ⟨⟨h.nodup_iff.mpr ⟨hfresh, hs.included.once⟩, ?_⟩, ?_⟩
  · intro block hashes hblock i other hi
    rw [h.blockTxs] at hblock
    have hne : other ≠ hash := by
      rintro rfl
      exact hfresh (mem_listed.mpr (.inr ⟨block, hashes, hblock, List.mem_of_getElem? hi⟩))
    exact (hs.included.placed block hashes hblock i other hi).congr (h.txs.2 other hne) (h.txReceipts other hne)
  · intro other hother
    by_cases hne : other = hash
    · rw [hne]
      exact h.txs.1
    · rw [h.pendingTxs, List.mem_append, List.mem_singleton, or_iff_left hne] at hother
      rw [← AList.lookup_isSome, h.txs.2 other hne, AList.lookup_isSome]
      exact hs.pending other hother

theorem listed_blockTick (s : NodeState Db) (now : UInt64) : (listed (blockTick s now)).Sublist (listed s) := by
  unfold listed blockTick
  dsimp only
  split_ifs with hempty
  · rw [hempty]
  · rw [List.nil_append, AList.entries_insert, List.flatMap_cons]
    exact (List.Sublist.refl _).append ((List.kerase_sublist _ _).flatMap _)

theorem Inv.blockTick (hs : Inv s) (now : UInt64) : Inv (blockTick s now) := by
  refine ⟨⟨(listed_blockTick s now).nodup hs.included.once, ?_⟩, fun hash hhash => absurd hhash List.not_mem_nil⟩
  intro block hashes hblock i hash hi
  obtain ⟨hother, hplaced⟩ := seal_spec (s.currentHeight.saturatingAdd 1) ⟨s.txs, s.txReceipts, 0, 0⟩
    (List.nodup_append'.mp hs.included.once).1
  have hold : ∀ hashes, s.blockTxs.lookup block = some hashes → hashes[i]? = some hash →
      Placed (Eth2077.blockTick s now).txs (Eth2077.blockTick s now).txReceipts block i hash := by
    intro hashes hblock hi
    have hwaits := hs.included.not_pending hblock (List.mem_of_getElem? hi)
    exact (hs.included.placed block hashes hblock i hash hi).congr (hother hash hwaits).1 (hother hash hwaits).2
  simp only [Eth2077.blockTick] at hblock
  split_ifs at hblock with hempty
  · exact hold hashes hblock hi
  · by_cases hnew : block = s.currentHeight.saturatingAdd 1
    · subst hnew
      rw [AList.lookup_insert] at hblock
      obtain rfl := Option.some_inj.mp hblock
      exact hplaced i hash hi (AList.lookup_isSome.mpr (hs.pending hash (List.mem_of_getElem? hi)))
    · rw [AList.lookup_insert_ne hnew] at hblock
      exact hold hashes hblock hi

end Steps

/-! ### Calls -/

section Calls
variable {R : Revm} {D : Decoders} {hasher : String → UInt64 → UInt64 → UInt64} {s s' : NodeState R.Db} {params : Json}
  {c : NodeCall}

theorem executeEvmTransaction_snd (s : NodeState R.Db) (c : EvmCall) :
    ∃ db, (executeEvmTransaction R s c).2 = { s with evmDb := db } := by
  rcases hb : R.basic s.evmDb c.caller with ⟨res, db⟩
  simp only [executeEvmTransaction, hb]
  cases res with
  | error e => exact ⟨_, rfl⟩
  | ok info =>
    dsimp only
    split_ifs
    all_goals
      split <;> exact ⟨_, rfl⟩

/-- A raw transaction is recorded if the EVM ran it. -/
theorem sendRawTransaction_cases (D : Decoders) (s : NodeState R.Db) (params : Json) :
    (accepted R D s params = false ∧ SameStores s (handleJsonrpc R D s .ethSendRawTransaction params).2 ∧
      (handleJsonrpc R D s .ethSendRawTransaction params).2.nextMarketTokenId = s.nextMarketTokenId) ∨
    (accepted R D s params = true ∧
      Records s (handleJsonrpc R D s .ethSendRawTransaction params).2
        (bytesToHex (D.keccak256 ((D.parseHexBytes (rawTx params)).getD [])).toList) ∧
      (handleJsonrpc R D s .ethSendRawTransaction params).2.nextMarketTokenId = s.nextMarketTokenId) := by
  rcases hprepare : prepare R D s params .ethSendRawTransaction with response | ⟨c, prepared⟩
  · simp only [handleJsonrpc, accepted, hprepare]
    exact .inl ⟨trivial, ⟨rfl, rfl, rfl, rfl⟩, trivial⟩
  · obtain ⟨db, hstate⟩ := executeEvmTransaction_snd prepared c
    have hframe := prepare_frame hprepare
    rcases hrun : executeEvmTransaction R prepared c with ⟨err | outcome, state⟩
    · simp only [handleJsonrpc, accepted, hprepare, hrun]
      rw [hrun, hframe] at hstate
      subst hstate
      exact .inl ⟨rfl, ⟨rfl, rfl, rfl, rfl⟩, rfl⟩
    · simp only [handleJsonrpc, accepted, hprepare, hrun]
      rw [hrun, hframe] at hstate
      subst hstate
      refine .inr ⟨rfl, ⟨rfl, rfl, ⟨(AList.mem_insert _).mpr (.inl rfl), ?_⟩, ?_⟩, rfl⟩
      · intro other hne
        exact AList.lookup_insert_ne hne
      · intro other hne
        exact AList.lookup_insert_ne hne

theorem marketMint_cases (hasher : String → UInt64 → UInt64 → UInt64) (s : NodeState R.Db) (now : UInt64)
    (params : Json) :
    (mintOwner params = none ∧ (eth2077MarketMint ⟨hasher, now⟩ s params).2 = s) ∨
    (∃ owner, mintOwner params = some owner ∧
      Records s (eth2077MarketMint ⟨hasher, now⟩ s params).2 (mintHash ⟨hasher, now⟩ s owner) ∧
      (eth2077MarketMint ⟨hasher, now⟩ s params).2.nextMarketTokenId = s.nextMarketTokenId.saturatingAdd 1) := by
  unfold eth2077MarketMint
  dsimp only
  split
  · rename_i hnone
    exact .inl ⟨hnone, rfl⟩
  · rename_i owner hsome
    refine .inr ⟨owner, hsome, ⟨rfl, rfl, ⟨(AList.mem_insert _).mpr (.inl rfl), ?_⟩, fun _ _ => rfl⟩, rfl⟩
    intro other hne
    exact AList.lookup_insert_ne hne

theorem sameStores_getTransactionCount (s : NodeState R.Db) (params : Json) :
    SameStores s (ethGetTransactionCount R s params).2 ∧
      (ethGetTransactionCount R s params).2.nextMarketTokenId = s.nextMarketTokenId := by
  unfold ethGetTransactionCount
  dsimp only
  split <;> exact ⟨⟨rfl, rfl, rfl, rfl⟩, rfl⟩

/-! ### Hashes of mints -/

/-- A preimage that a mint of token `token` or later does not have. -/
def Preimage.Below (token : UInt64) : Preimage → Prop
  | raw _ => True
  | mint text _ => ∃ input owner tokenId now, canonicalAddress input = some owner ∧
      text = mintText owner tokenId now ∧ (tokenId < token ∨ token.toNat = UInt64.maxNat)

theorem Preimage.Below.mono {p : Preimage} {token token' : UInt64} (h : p.Below token) (hle : token ≤ token') :
    p.Below token' := by
  cases p with
  | raw bytes => trivial
  | mint text counter =>
    obtain ⟨input, owner, tokenId, now, howner, htext, hlt⟩ := h
    refine ⟨input, owner, tokenId, now, howner, htext, ?_⟩
    have htokens := UInt64.le_iff_toNat_le.mp hle
    rcases hlt with hlt | hmax
    · exact .inl (UInt64.lt_iff_toNat_lt.mpr (Nat.lt_of_lt_of_le (UInt64.lt_iff_toNat_lt.mp hlt) htokens))
    · have := token'.toNat_le_maxNat
      exact .inr (by omega)

theorem colon_not_mem_toString (n : UInt64) : ':' ∉ (toString n).toList := by
  intro h
  have htext : (toString n).toList = Nat.toDigits 10 n.toNat := by
    change (toString n.toNat).toList = _
    rw [Nat.toString_eq_repr, Nat.toList_repr]
  rw [htext] at h
  exact absurd (Nat.isDigit_of_mem_toDigits (by decide) (by decide) h) (by decide)

theorem toString_uint64_injective {m n : UInt64} (h : (toString m).toList = (toString n).toList) : m = n := by
  have hdigits : Nat.toDigits 10 m.toNat = Nat.toDigits 10 n.toNat := by
    change (toString m.toNat).toList = (toString n.toNat).toList at h
    rwa [Nat.toString_eq_repr, Nat.toString_eq_repr, Nat.toList_repr, Nat.toList_repr] at h
  have hvalue := congrArg (fun l => Nat.ofDigitChars 10 l 0) hdigits
  simp only [Nat.ofDigitChars_ten_toDigits] at hvalue
  exact UInt64.toNat_inj.mp hvalue

theorem toList_mintText (owner : String) (tokenId now : UInt64) :
    (mintText owner tokenId now).toList =
      ("market-mint:".toList ++ owner.toList ++ [':']) ++ ((toString tokenId).toList ++ ':' :: (toString now).toList) := by
  unfold mintText
  simp only [String.toList_append, List.append_assoc]
  rfl

/-- The text of a mint tells the token. -/
theorem tokenId_of_mintText {input input' owner owner' : String} {tokenId tokenId' now now' : UInt64}
    (howner : canonicalAddress input = some owner) (howner' : canonicalAddress input' = some owner')
    (h : mintText owner tokenId now = mintText owner' tokenId' now') : tokenId = tokenId' := by
  obtain ⟨digits, hdigits, hlen, -⟩ := canonicalAddress_toList howner
  obtain ⟨digits', hdigits', hlen', -⟩ := canonicalAddress_toList howner'
  have hchars := congrArg String.toList h
  rw [toList_mintText, toList_mintText, hdigits, hdigits'] at hchars
  obtain ⟨-, hrest⟩ := List.append_inj hchars (by simp [hlen, hlen'])
  have htoken := (List.append_cons_inj_of_notMem (colon_not_mem_toString tokenId) (colon_not_mem_toString now)).mp hrest
  exact toString_uint64_injective htoken.1

/-- A call is a tick, changes no store, or records the transaction of its preimage. -/
theorem next_cases (D : Decoders) (hasher : String → UInt64 → UInt64 → UInt64) (s : NodeState R.Db) (c : NodeCall) :
    (c.request = .tick ∧ recorded R D s c = none ∧ next R D hasher s c = blockTick s c.now) ∨
    (recorded R D s c = none ∧ SameStores s (next R D hasher s c) ∧
      (next R D hasher s c).nextMarketTokenId = s.nextMarketTokenId) ∨
    (∃ p, recorded R D s c = some p ∧ hashed R D s c = some p ∧
      Records s (next R D hasher s c) (p.hash D hasher) ∧ p.Below (next R D hasher s c).nextMarketTokenId ∧
      s.nextMarketTokenId ≤ (next R D hasher s c).nextMarketTokenId) := by
  obtain ⟨request, now⟩ := c
  cases request with
  | tick => exact .inl ⟨rfl, rfl, rfl⟩
  | getTransactionCount params =>
    obtain ⟨hsame, htoken⟩ := sameStores_getTransactionCount s params
    exact .inr (.inl ⟨rfl, hsame, htoken⟩)
  | sendRawTransaction params =>
    rcases sendRawTransaction_cases D s params with ⟨hno, hsame, htoken⟩ | ⟨hyes, hrecords, htoken⟩
    · exact .inr (.inl ⟨by simp [recorded, hno], hsame, htoken⟩)
    · refine .inr (.inr ⟨.raw ((D.parseHexBytes (rawTx params)).getD []), by simp [recorded, hyes, hashed], rfl, hrecords,
        trivial, ?_⟩)
      exact (congrArg (s.nextMarketTokenId ≤ ·) htoken).mpr (UInt64.le_refl _)
  | marketMint params =>
    rcases marketMint_cases hasher s now params with ⟨hnone, hsame⟩ | ⟨owner, howner, hrecords, htoken⟩
    · have hstays : next R D hasher s ⟨.marketMint params, now⟩ = s := hsame
      rw [hstays]
      exact .inr (.inl ⟨by simp [recorded, hashed, hnone], ⟨rfl, rfl, rfl, rfl⟩, rfl⟩)
    · obtain ⟨input, -, hinput⟩ := Option.bind_eq_some_iff.mp howner
      have hnext : (next R D hasher s ⟨.marketMint params, now⟩).nextMarketTokenId =
          s.nextMarketTokenId.saturatingAdd 1 := htoken
      have htoNat := congrArg UInt64.toNat hnext
      rw [UInt64.toNat_saturatingAdd, UInt64.toNat_one] at htoNat
      have hmax := s.nextMarketTokenId.toNat_le_maxNat
      refine .inr (.inr ⟨.mint (mintText owner s.nextMarketTokenId now) (s.txCounter + now),
        by simp [recorded, hashed, howner], by simp [hashed, howner], hrecords,
        ⟨input, owner, s.nextMarketTokenId, now, hinput, rfl, ?_⟩, ?_⟩)
      · rw [UInt64.lt_iff_toNat_lt]
        omega
      · rw [UInt64.le_iff_toNat_le]
        omega

/-! ### Runs -/

/-- What is listed was hashed in the run, and by no mint that is still to come. -/
def Known (D : Decoders) (hasher : String → UInt64 → UInt64 → UInt64) (hashes : Set Preimage) (s : NodeState R.Db) : Prop :=
  ∀ hash ∈ listed s, ∃ p ∈ hashes, p.hash D hasher = hash ∧ p.Below s.nextMarketTokenId

/-- A raw transaction is run only while its hash is not listed; so is a mint, once the token ids have run
out. -/
def NotListedAgain (R : Revm) (D : Decoders) (hasher : String → UInt64 → UInt64 → UInt64) (s : NodeState R.Db)
    (c : NodeCall) : Prop :=
  match recorded R D s c with
  | some (.raw bytes) => (Preimage.raw bytes).hash D hasher ∉ listed s
  | some (.mint text counter) =>
    s.nextMarketTokenId.toNat = UInt64.maxNat → (Preimage.mint text counter).hash D hasher ∉ listed s
  | none => True

variable {hashes : Set Preimage}

theorem known_next (hs : Known D hasher hashes s) (hc : ∀ p, hashed R D s c = some p → p ∈ hashes) :
    Known D hasher hashes (next R D hasher s c) := by
  rcases next_cases D hasher s c with ⟨-, -, hnext⟩ | ⟨-, hsame, htoken⟩ | ⟨p, -, hhashed, hrecords, hbelow, hle⟩
  · rw [hnext]
    intro hash hhash
    exact hs hash ((listed_blockTick s c.now).subset hhash)
  · intro hash hhash
    rw [hsame.listed] at hhash
    rw [htoken]
    exact hs hash hhash
  · intro hash hhash
    rcases List.mem_cons.mp (hrecords.listed_perm.subset hhash) with rfl | hhash
    · exact ⟨p, hc p hhashed, rfl, hbelow⟩
    · obtain ⟨q, hq, hqhash, hqbelow⟩ := hs hash hhash
      exact ⟨q, hq, hqhash, hqbelow.mono hle⟩

/-- A mint has a hash of its own while there are token ids left. -/
theorem mint_fresh (hs : Known D hasher hashes s) (hinj : Set.InjOn (Preimage.hash D hasher) hashes)
    {text : String} {counter : UInt64} (hc : hashed R D s c = some (.mint text counter))
    (hmem : Preimage.mint text counter ∈ hashes) (hleft : s.nextMarketTokenId.toNat ≠ UInt64.maxNat) :
    (Preimage.mint text counter).hash D hasher ∉ listed s := by
  intro hlisted
  obtain ⟨p, hp, hphash, hbelow⟩ := hs _ hlisted
  obtain rfl := hinj hp hmem hphash
  obtain ⟨request, now⟩ := c
  cases request with
  | marketMint params =>
    obtain ⟨owner, howner, hmint⟩ := Option.map_eq_some_iff.mp hc
    obtain ⟨input, -, hinput⟩ := Option.bind_eq_some_iff.mp howner
    obtain ⟨rfl, -⟩ := Preimage.mint.inj hmint
    obtain ⟨input', owner', tokenId, now', hinput', htext, hlt⟩ := hbelow
    obtain rfl := tokenId_of_mintText hinput hinput' htext
    rcases hlt with hlt | hmax
    · exact absurd (UInt64.lt_iff_toNat_lt.mp hlt) (Nat.lt_irrefl _)
    · exact hleft hmax
  | sendRawTransaction params => cases hc
  | getTransactionCount params => cases hc
  | tick => cases hc

theorem fresh_of_notListedAgain (hs : Known D hasher hashes s) (hinj : Set.InjOn (Preimage.hash D hasher) hashes)
    {p : Preimage} (hrecorded : recorded R D s c = some p) (hhashed : hashed R D s c = some p) (hmem : p ∈ hashes)
    (hc : NotListedAgain R D hasher s c) : p.hash D hasher ∉ listed s := by
  unfold NotListedAgain at hc
  rw [hrecorded] at hc
  cases p with
  | raw bytes => exact hc
  | mint text counter =>
    by_cases hmax : s.nextMarketTokenId.toNat = UInt64.maxNat
    · exact hc hmax
    · exact mint_fresh hs hinj hhashed hmem hmax

theorem inv_next (hs : Inv s) (hknown : Known D hasher hashes s) (hinj : Set.InjOn (Preimage.hash D hasher) hashes)
    (hhashes : ∀ p, hashed R D s c = some p → p ∈ hashes) (hc : NotListedAgain R D hasher s c) :
    Inv (next R D hasher s c) := by
  rcases next_cases D hasher s c with ⟨-, -, hnext⟩ | ⟨-, hsame, -⟩ | ⟨p, hrecorded, hhashed, hrecords, -⟩
  · rw [hnext]
    exact hs.blockTick c.now
  · exact hsame.inv hs
  · exact hrecords.inv hs (fresh_of_notListedAgain hknown hinj hrecorded hhashed (hhashes p hhashed) hc)

/-- A hash that is recorded while it is listed is listed twice. -/
theorem notListedAgain_of_next (h : IncludedOnce (next R D hasher s c)) : NotListedAgain R D hasher s c := by
  unfold NotListedAgain
  rcases next_cases D hasher s c with ⟨-, hnone, -⟩ | ⟨hnone, -⟩ | ⟨p, hrecorded, -, hrecords, -⟩
  · rw [hnone]
    trivial
  · rw [hnone]
    trivial
  · have hfresh := (hrecords.nodup_iff.mp h.once).1
    rw [hrecorded]
    cases p with
    | raw bytes => exact hfresh
    | mint text counter => exact fun _ => hfresh

theorem isSome_exec (s : NodeState R.Db) (calls : List NodeCall) : (Run.exec (step R D hasher) s calls).isSome := by
  induction calls generalizing s with
  | nil => rfl
  | cons c calls ih => exact ih _

end Calls

theorem inv_buildState (R : Revm) (chainId startedAtUnixS : UInt64) : Inv (buildState R chainId startedAtUnixS) := by
  refine ⟨⟨List.nodup_nil, ?_⟩, ?_⟩
  · intro block hashes hblock
    cases hblock
  · intro hash hhash
    cases hhash

theorem included_once_iff (R : Revm) (D : Decoders) (hasher : String → UInt64 → UInt64 → UInt64)
    (chainId startedAtUnixS : UInt64) (calls : List NodeCall)
    (hinj : Set.InjOn (Preimage.hash D hasher) (hashedIn R D hasher (buildState R chainId startedAtUnixS) calls)) :
    Run.Throughout (step R D hasher) IncludedOnce (buildState R chainId startedAtUnixS) calls ↔
      Run.Along (step R D hasher) (NotListedAgain R D hasher) (buildState R chainId startedAtUnixS) calls := by
  have hknown : Known D hasher (hashedIn R D hasher (buildState R chainId startedAtUnixS) calls)
      (buildState R chainId startedAtUnixS) := by
    intro hash hhash
    cases hhash
  have hhashes : Run.Along (step R D hasher)
      (fun m c => ∀ p, hashed R D m c = some p → p ∈ hashedIn R D hasher (buildState R chainId startedAtUnixS) calls)
      (buildState R chainId startedAtUnixS) calls := by
    intro before c after hcalls m hm p hp
    exact ⟨before, c, after, m, hcalls, hm, hp⟩
  refine Run.throughout_iff_along_of (I := fun m => Inv m ∧
      Known D hasher (hashedIn R D hasher (buildState R chainId startedAtUnixS) calls) m)
    (A := fun _ => True) hhashes (isSome_exec _ calls) ⟨inv_buildState R chainId startedAtUnixS, hknown⟩ ?_ (fun m hm => hm.1.included)
    trivial (fun _ _ _ _ _ => trivial) ?_
  · rintro m c m' ⟨hm, hk⟩ hhashes hc hstep
    obtain rfl := Option.some_inj.mp hstep
    exact ⟨inv_next hm hk hinj hhashes hc, known_next hk hhashes⟩
  · rintro m c m' - - hstep hm'
    obtain rfl := Option.some_inj.mp hstep
    exact notListedAgain_of_next hm'

/-! ### The same bytes from two senders -/

/-- Accounts without storage, and an EVM that does what `revm` does with a transfer of nothing: it wants the
nonce of the sender's account and counts it up. -/
def transfersOnly : Revm :=
  { accountsOnly with
    transactCommit := fun _ db tx =>
      let info := (db.lookup tx.caller).getD accountsOnly.defaultInfo
      if info.nonce < tx.nonce then
        .error s!"transaction validation error: nonce {tx.nonce} too high, expected {info.nonce}"
      else if tx.nonce < info.nonce then
        .error s!"transaction validation error: nonce {tx.nonce} too low, expected {info.nonce}"
      else .ok (⟨21000, true, [], none, []⟩, (tx.caller, { info with nonce := info.nonce + 1 }) :: db) }

def someRawTx : String := "0xdf808082520894333333333333333333333333333333333333333380801b0101"

/-- The decoders of the node, for requests that carry `someRawTx` or nothing. -/
def walletDecoders : Decoders where
  addressFromHex := addressFromHex
  parseHexBytes := parseHexBytes
  parseHexU64 := parseHexU64
  parseHexU128 := parseHexU128
  parseHexU256 s := (parseHexU256 s).toOption.join
  decodeRawTx s :=
    if s = someRawTx then
      .ok ⟨0, none, 0, 21000, 0, none, none, [], [], some (.repeatByte 0x33), 0, []⟩
    else .error "raw transaction payload is empty"
  keccak256 _ := .ofNat 32 0x0b4cd2eaf67a684ec4811d357f5e965520f6a3b7390b5b4ada99ba9c877dde41

/-- The digests `DefaultHasher` gives for the one mint below. -/
def someHasher (_ : String) (_ salt : UInt64) : UInt64 :=
  if salt = 0 then 0xb4f9d41d0117230e else if salt = 1 then 0x10f7c902e2f5e737
  else if salt = 2 then 0xb942f135978f672b else 0x407701d022140355

def askNonce (address : String) : NodeCall := ⟨.getTransactionCount (.array [.string address]), 1772409700⟩

def sendSomeTx : NodeCall := ⟨.sendRawTransaction (.array [.string someRawTx]), 1772409700⟩

def mintFor (address : String) : NodeCall := ⟨.marketMint (.array [.string address]), 1772409700⟩

def tick : NodeCall := ⟨.tick, 1772409712⟩

def otherSender : String := "0x4444444444444444444444444444444444444444"

theorem hashedIn_subset {R : Revm} {D : Decoders} {hasher : String → UInt64 → UInt64 → UInt64} {s : NodeState R.Db}
    {calls : List NodeCall} {hashes : Set Preimage}
    (h : Run.Along (step R D hasher) (fun m c => ∀ p, hashed R D m c = some p → p ∈ hashes) s calls) :
    hashedIn R D hasher s calls ⊆ hashes := by
  rintro p ⟨before, c, after, m, hcalls, hm, hp⟩
  exact h before c after hcalls m hm p hp

def someBytes : List UInt8 := (parseHexBytes someRawTx).getD []

def someMint : Preimage := .mint "market-mint:0x2222222222222222222222222222222222222222:4:1772409700" 1772409701

/-- A transfer and a mint in one block. -/
theorem included_once_iff_one_block :
    ∃ s, Run.exec (step transfersOnly walletDecoders someHasher) (buildState transfersOnly 2077001 1772409600)
        [askNonce poorSender, sendSomeTx, mintFor poorSender, tick] = some s ∧
      (s.blockTxs.lookup 1).map List.length = some 2 ∧ IncludedOnce s := by
  refine ⟨_, rfl, rfl, (included_once_iff transfersOnly walletDecoders someHasher 2077001 1772409600
    [askNonce poorSender, sendSomeTx, mintFor poorSender, tick] ?_).mpr ?_
    [askNonce poorSender, sendSomeTx, mintFor poorSender, tick] [] rfl _ rfl⟩
  · refine Set.InjOn.mono (hashedIn_subset ?_) (Set.injOn_pair.mpr ?_ : Set.InjOn _ {.raw someBytes, someMint})
    · refine .cons nofun rfl (.cons ?_ rfl (.cons ?_ rfl (.cons nofun rfl Run.along_nil)))
      · intro p hp
        cases hp
        exact .inl rfl
      · intro p hp
        cases hp
        exact .inr (congrArg₂ Preimage.mint (by decide) (by decide))
    · intro h
      exact absurd h (by decide)
  · refine .cons trivial rfl (.cons List.not_mem_nil rfl (.cons ?_ rfl (.cons trivial rfl Run.along_nil)))
    intro hmax
    exact absurd hmax (by decide)

/-- The bytes that were run for one sender are run again for another: their hash waits twice, and then is
in a block twice, with a record that knows one of the places. -/
theorem same_bytes_included_twice :
    Set.InjOn (Preimage.hash walletDecoders someHasher)
        (hashedIn transfersOnly walletDecoders someHasher (buildState transfersOnly 2077001 1772409600)
          [askNonce poorSender, sendSomeTx, askNonce otherSender, sendSomeTx, tick]) ∧
      ∃ s, Run.exec (step transfersOnly walletDecoders someHasher) (buildState transfersOnly 2077001 1772409600)
          [askNonce poorSender, sendSomeTx, askNonce otherSender, sendSomeTx, tick] = some s ∧
        s.blockTxs.lookup 1 = some [(Preimage.raw someBytes).hash walletDecoders someHasher,
          (Preimage.raw someBytes).hash walletDecoders someHasher] ∧ ¬ IncludedOnce s := by
  refine ⟨?_, _, rfl, rfl, fun h => ?_⟩
  · refine Set.InjOn.mono (hashedIn_subset ?_) (Set.injOn_singleton _ (Preimage.raw someBytes))
    refine .cons nofun rfl (.cons ?_ rfl (.cons nofun rfl (.cons ?_ rfl (.cons nofun rfl Run.along_nil))))
    · intro p hp
      cases hp
      rfl
    · intro p hp
      cases hp
      rfl
  · exact absurd h.once (by decide)

end Inclusion

end Eth2077
