import Eth2077.Execution.ReceiptsRoot
import Eth2077.Node.DevnetChain
import Eth2077.Types.HeaderCodec

/-!
# Chains from the genesis block (`execution/src/genesis.rs`, `block_builder.rs`, `block_validator.rs`)

Blocks built one on top of the other, each on the state the last one left. Every block is accepted by a validator that
has got as far as the block before it, and the state knows the hash of every block there has been (`chain_replays`).
The hash of the last block fixes all of it: the blocks, their receipts, and the accounts after every one of them
(`tip_hash_fixes_chain`).
-/

namespace Eth2077

/-- A chain as it has been built, the last block first. -/
inductive BuiltChain (keccak256 : List UInt8 → B256) (execute : ExecuteTx) (allocs : List (Address × U256)) :
    List BuiltBlock → Prop
  | genesis : BuiltChain keccak256 execute allocs
      [⟨(createGenesisBlock keccak256 allocs).1, [], (createGenesisBlock keccak256 allocs).2⟩]
  | next {tip older config txs built} (h : BuiltChain keccak256 execute allocs (tip :: older))
      (hbuild : BlockBuilder.buildBlock keccak256 execute config tip.block.header txs tip.state = .ok built) :
      BuiltChain keccak256 execute allocs (built :: tip :: older)

namespace BuiltBlock
variable (keccak256 : List UInt8 → B256)

/-- The byte strings under the hash of the block and the roots in its header. -/
def hashed (b : BuiltBlock) : List (List UInt8) :=
  b.block.header.encode :: statePayload b.state ::
    (beBytes 8 b.block.transactions.length ++ b.block.transactions.flatMap fun tx => tx.hash.toList) ::
    receiptsHashed keccak256 b.receipts

/-- The roots in the header are those of the state, the transactions and the receipts that belong to it. -/
structure Sealed (b : BuiltBlock) : Prop where
  stateRoot : b.block.header.stateRoot = computeStateRoot keccak256 b.state
  transactionsRoot : b.block.header.transactionsRoot = computeTransactionsRoot keccak256 b.block.transactions
  receiptsRoot : b.block.header.receiptsRoot = computeReceiptsRoot keccak256 b.receipts

/-- One header, transactions with the same hashes, receipts written alike, and the same accounts. -/
structure Same (b b' : BuiltBlock) : Prop where
  header : b.block.header = b'.block.header
  transactions : b.block.transactions.map (·.hash) = b'.block.transactions.map (·.hash)
  receipts : b.receipts.map encodeReceipt = b'.receipts.map encodeReceipt
  accounts : ∀ a, b.state.getAccount a = b'.state.getAccount a ∧ b.state.accountExists a = b'.state.accountExists a

end BuiltBlock

/-- What the optional numbers of a header look like: those of the genesis block if `first`, else those of a later one. -/
structure Header.Marked (first : Bool) (h : Header) : Prop where
  baseFeePerGas : h.baseFeePerGas = some 1000000000
  blobGasUsed : h.blobGasUsed = if first then some 0 else none
  excessBlobGas : h.excessBlobGas = if first then some 0 else none
  number : h.number = 0 ↔ first = true

section Chain
variable {keccak256 : List UInt8 → B256} {execute : ExecuteTx} {allocs : List (Address × U256)} {c : List BuiltBlock}
  {tip built : BuiltBlock} {older : List BuiltBlock} {config : BlockBuilderConfig} {txs : List Transaction}

/-- Later blocks have a number of their own, and no blob gas. -/
theorem Header.Marked.eq_of_encode {h h' : Header} {first first' : Bool} (hm : h.Marked first) (hm' : h'.Marked first')
    (heq : h.encode = h'.encode) : first = first' ∧ h = h' := by
  have hdec := h.decode_encode []
  have hdec' := h'.decode_encode []
  rw [heq, hdec', Option.some_inj, Prod.mk.injEq, and_iff_left rfl] at hdec
  have hfirst : first = first' := by
    have hnumber : h'.readBack.number = h.readBack.number := congrArg Header.number hdec
    have hnumber : h'.number = h.number := hnumber
    rw [Bool.eq_iff_iff, ← hm.number, ← hm'.number, hnumber]
  subst hfirst
  refine ⟨rfl, ?_⟩
  have hback : ∀ g : Header, g.Marked first → g = { g.readBack with
      baseFeePerGas := some 1000000000
      blobGasUsed := if first then some 0 else none
      excessBlobGas := if first then some 0 else none } := by
    intro g hg
    obtain ⟨hfee, hblob, hexcess, -⟩ := hg
    cases g
    subst hfee hblob hexcess
    rfl
  rw [hback h hm, hback h' hm', hdec]

theorem buildBlock_marked {first : Bool} (hm : tip.block.header.Marked first)
    (h : BlockBuilder.buildBlock keccak256 execute config tip.block.header txs tip.state = .ok built) :
    built.block.header.Marked false := by
  obtain ⟨ex, -, rfl⟩ := BlockBuilder.buildBlock_eq_ok.mp h
  refine ⟨hm.baseFeePerGas, rfl, rfl, ?_⟩
  have hpos : (tip.block.header.number.saturatingAdd 1).toNat ≠ 0 := by
    rw [UInt64.toNat_saturatingAdd]
    exact (Nat.lt_min.mpr ⟨Nat.succ_pos _, by decide⟩).ne'
  simp only [Bool.false_eq_true, iff_false]
  exact fun hzero => hpos (congrArg UInt64.toNat hzero)

theorem buildBlock_sealed
    (h : BlockBuilder.buildBlock keccak256 execute config tip.block.header txs tip.state = .ok built) :
    built.Sealed keccak256 := by
  obtain ⟨ex, -, rfl⟩ := BlockBuilder.buildBlock_eq_ok.mp h
  exact ⟨rfl, rfl, rfl⟩

theorem genesis_marked : (createGenesisBlock keccak256 allocs).1.header.Marked true :=
  ⟨rfl, rfl, rfl, by simp [createGenesisBlock]⟩

theorem BuiltChain.ne_nil (h : BuiltChain keccak256 execute allocs c) : c ≠ [] := by
  cases h <;> nofun

theorem BuiltChain.sealed (h : BuiltChain keccak256 execute allocs c) : ∀ b ∈ c, b.Sealed keccak256 := by
  induction h with
  | genesis =>
    intro b hb
    obtain rfl := List.mem_singleton.mp hb
    exact ⟨rfl, rfl, rfl⟩
  | next h hbuild ih =>
    intro b hb
    rcases List.mem_cons.mp hb with rfl | hb
    · exact buildBlock_sealed hbuild
    · exact ih b hb

/-- Only the first block is marked as such. -/
theorem BuiltChain.marked (h : BuiltChain keccak256 execute allocs (tip :: older)) :
    tip.block.header.Marked older.isEmpty := by
  generalize hc : tip :: older = c at h
  induction h generalizing tip older with
  | genesis =>
    obtain ⟨rfl, rfl⟩ := List.cons.inj hc
    exact genesis_marked
  | next h hbuild ih =>
    obtain ⟨rfl, rfl⟩ := List.cons.inj hc
    exact buildBlock_marked (ih rfl) hbuild

theorem BuiltChain.tail {tip' : BuiltBlock} (h : BuiltChain keccak256 execute allocs (tip' :: tip :: older)) :
    BuiltChain keccak256 execute allocs (tip :: older) ∧
      tip'.block.header.parentHash = tip.block.hash keccak256 := by
  cases h with
  | next h hbuild =>
    obtain ⟨ex, -, rfl⟩ := BlockBuilder.buildBlock_eq_ok.mp hbuild
    exact ⟨h, rfl⟩

/-! ### The last hash -/

theorem BuiltBlock.Sealed.same {b b' : BuiltBlock} (hb : b.Sealed keccak256) (hb' : b'.Sealed keccak256)
    (hc : Set.InjOn keccak256 {bs | bs ∈ b.hashed keccak256 ++ b'.hashed keccak256})
    (hheader : b.block.header = b'.block.header) : b.Same b' := by
  have hl : ∀ bs ∈ b.hashed keccak256, bs ∈ {bs | bs ∈ b.hashed keccak256 ++ b'.hashed keccak256} :=
    fun bs h => List.mem_append_left _ h
  have hr : ∀ bs ∈ b'.hashed keccak256, bs ∈ {bs | bs ∈ b.hashed keccak256 ++ b'.hashed keccak256} :=
    fun bs h => List.mem_append_right _ h
  refine ⟨hheader, ?_, ?_, fun a => ?_⟩
  · have hroot := hb.transactionsRoot.symm.trans ((congrArg Header.transactionsRoot hheader).trans hb'.transactionsRoot)
    have hpayload := hc (hl _ (by simp [BuiltBlock.hashed])) (hr _ (by simp [BuiltBlock.hashed])) hroot
    exact BlockValidator.map_eq_of_flatMap_toList
      (List.append_inj hpayload (by rw [length_beBytes, length_beBytes])).2
  · have hroot := hb.receiptsRoot.symm.trans ((congrArg Header.receiptsRoot hheader).trans hb'.receiptsRoot)
    rw [computeReceiptsRoot_eq, computeReceiptsRoot_eq] at hroot
    have hleaves := receiptsPayload_injective
      (hc (hl _ (by simp [BuiltBlock.hashed, receiptsHashed])) (hr _ (by simp [BuiltBlock.hashed, receiptsHashed])) hroot)
    have hmap : ∀ rs : List Receipt, (rs.map fun receipt => keccak256 (encodeReceipt receipt)) =
        (rs.map encodeReceipt).map keccak256 := fun rs => by
      rw [List.map_map]
      rfl
    rw [hmap, hmap] at hleaves
    refine BlockValidator.eq_of_map_eq (hc.mono fun bs hbs => ?_) hleaves
    rcases List.mem_append.mp hbs with hbs | hbs
    · exact hl _ (by simp [BuiltBlock.hashed, receiptsHashed, List.mem_map.mp hbs])
    · exact hr _ (by simp [BuiltBlock.hashed, receiptsHashed, List.mem_map.mp hbs])
  · have hroot := hb.stateRoot.symm.trans ((congrArg Header.stateRoot hheader).trans hb'.stateRoot)
    have hpayload := hc (hl _ (by simp [BuiltBlock.hashed])) (hr _ (by simp [BuiltBlock.hashed])) hroot
    exact accounts_eq_of_sortedAccounts (sortedAccounts_of_payload hpayload) a

/-- Whoever built them, and on whatever genesis block: two chains that end in the same hash are the same chain, block by
block, as far as their blocks, receipts and accounts are concerned. -/
theorem tip_hash_fixes_chain (keccak256 : List UInt8 → B256) (execute execute' : ExecuteTx)
    (allocs allocs' : List (Address × U256)) (c c' : List BuiltBlock) (h : BuiltChain keccak256 execute allocs c)
    (h' : BuiltChain keccak256 execute' allocs' c')
    (hc : Set.InjOn keccak256 {bs | ∃ b ∈ c ++ c', bs ∈ b.hashed keccak256})
    (htip : c.head?.map (·.block.hash keccak256) = c'.head?.map (·.block.hash keccak256)) :
    List.Forall₂ BuiltBlock.Same c c' := by
  induction c generalizing c' with
  | nil => exact absurd rfl h.ne_nil
  | cons tip older ih =>
    cases c' with
    | nil => exact absurd rfl h'.ne_nil
    | cons tip' older' =>
      have hencode : tip.block.header.encode = tip'.block.header.encode := by
        refine hc ⟨tip, by simp, by simp [BuiltBlock.hashed]⟩ ⟨tip', by simp, by simp [BuiltBlock.hashed]⟩ ?_
        exact Option.some_inj.mp htip
      obtain ⟨hempty, hheader⟩ := h.marked.eq_of_encode h'.marked hencode
      have hsame : tip.Same tip' := by
        refine (h.sealed tip List.mem_cons_self).same (h'.sealed tip' List.mem_cons_self) (hc.mono ?_) hheader
        rintro bs hbs
        rcases List.mem_append.mp hbs with hbs | hbs
        · exact ⟨tip, by simp, hbs⟩
        · exact ⟨tip', by simp, hbs⟩
      refine .cons hsame ?_
      match older, older', hempty with
      | [], [], _ => exact .nil
      | parent :: older, parent' :: older', _ =>
        -- the header names the hash of the block before it
        obtain ⟨h, hparent⟩ := h.tail
        obtain ⟨h', hparent'⟩ := h'.tail
        refine ih (parent' :: older') h h' (hc.mono ?_) ?_
        · rintro bs ⟨b, hb, hbs⟩
          refine ⟨b, ?_, hbs⟩
          rcases List.mem_append.mp hb with hb | hb
          · exact List.mem_append_left _ (List.mem_cons_of_mem _ hb)
          · exact List.mem_append_right _ (List.mem_cons_of_mem _ hb)
        · rw [List.head?_cons, List.head?_cons, Option.map_some, Option.map_some, ← hparent, ← hparent', hheader]

/-! ### Replaying -/

/-- `newer` is a valid block after `older`. -/
structure BuiltBlock.Follows (keccak256 : List UInt8 → B256) (execute : ExecuteTx) (newer older : BuiltBlock) : Prop where
  valid : BlockValidator.validateBlock keccak256 execute newer.block older.state = .ok ()
  parentHash : newer.block.header.parentHash = older.block.hash keccak256
  number : newer.block.number = older.block.number.saturatingAdd 1

theorem buildBlock_follows
    (h : BlockBuilder.buildBlock keccak256 execute config tip.block.header txs tip.state = .ok built) :
    built.Follows keccak256 execute tip := by
  obtain ⟨ex, hloop, rfl⟩ := BlockBuilder.buildBlock_eq_ok.mp h
  refine ⟨?_, rfl, rfl⟩
  rcases Execution.loop_mapError BlockBuildError.transactionExecutionFailed ValidationError.transactionExecutionFailed
    execute 0 txs (.start tip.state) with ⟨ex', hb, hv⟩ | ⟨i, txHash, source, hb, -⟩
  · rw [hloop] at hb
    obtain rfl := Except.ok.inj hb
    refine BlockValidator.validateBlock_eq_ok.mpr ⟨ex, hv, ?_⟩
    exact (BlockValidator.check_eq_ok config tip.block.header).mpr ⟨rfl, rfl, rfl, rfl, rfl⟩
  · rw [hloop] at hb
    cases hb

variable {evm : BlockExecutor.Evm}

theorem blockHashes_applyStateChanges (state : InMemoryStateDB) (changes : List (Address × BlockExecutor.Account)) :
    (BlockExecutor.applyStateChanges state changes).blockHashes = state.blockHashes := by
  have hslots : ∀ (address : Address) (slots : List (U256 × BlockExecutor.EvmStorageSlot)) (state : InMemoryStateDB),
      (slots.foldl (fun state x => state.setStorage address x.1 x.2.presentValue) state).blockHashes =
        state.blockHashes := by
    intro address slots
    induction slots with
    | nil => exact fun _ => rfl
    | cons x slots ih => exact fun state => ih _
  have hone : ∀ state change, (BlockExecutor.applyAccountChange state change).blockHashes = state.blockHashes := by
    intro state change
    unfold BlockExecutor.applyAccountChange
    dsimp only
    split_ifs
    · rfl
    · rw [hslots]
      rfl
    · rw [hslots]
      rfl
  unfold BlockExecutor.applyStateChanges
  induction changes generalizing state with
  | nil => rfl
  | cons change changes ih => rw [List.foldl_cons, ih, hone]

theorem blockHashes_executeTx {state state' : InMemoryStateDB} {tx : Transaction} {receipt : Receipt}
    (h : BlockExecutor.executeTx evm state tx = .ok (receipt, state')) : state'.blockHashes = state.blockHashes := by
  simp only [BlockExecutor.executeTx, bind, Except.bind, pure, Except.pure, throw, throwThe, MonadExceptOf.throw] at h
  split_ifs at h
  cases hbuild : evm.build (BlockExecutor.txEnv tx) with
  | error e => simp [hbuild, Except.mapError] at h
  | ok env =>
    cases htransact : evm.transact (BlockExecutor.database evm state) env with
    | error e => simp [hbuild, htransact, Except.mapError] at h
    | ok out =>
      obtain ⟨result, changes⟩ := out
      simp only [hbuild, htransact, Except.mapError] at h
      cases result with
      | halt reason gas => simp at h
      | success | revert =>
        cases h
        exact blockHashes_applyStateChanges state changes

theorem blockHashes_loop {ε : Type} {fail : Nat → B256 → ExecutionError → ε} {index : Nat} {ex ex' : Execution}
    (h : Execution.loop fail (BlockExecutor.executeTx evm) index txs ex = .ok ex') :
    ex'.state.blockHashes = ex.state.blockHashes := by
  induction txs generalizing index ex with
  | nil =>
    obtain rfl := Except.ok.inj h
    rfl
  | cons tx txs ih =>
    unfold Execution.loop at h
    cases hexec : BlockExecutor.executeTx evm ex.state tx with
    | error source =>
      rw [hexec] at h
      cases h
    | ok out =>
      rw [hexec] at h
      exact (ih h).trans (blockHashes_executeTx hexec)

theorem BuiltChain.number (h : BuiltChain keccak256 execute allocs (tip :: older)) (hlen : older.length < 2 ^ 64) :
    tip.block.number.toNat = older.length := by
  generalize hc : tip :: older = c at h
  induction h generalizing tip older with
  | genesis =>
    obtain ⟨rfl, rfl⟩ := List.cons.inj hc
    rfl
  | next h hbuild ih =>
    obtain ⟨rfl, rfl⟩ := List.cons.inj hc
    have hnumber := ih (Nat.lt_of_succ_lt hlen) rfl
    rw [List.length_cons] at hlen
    rw [(buildBlock_follows hbuild).number, UInt64.toNat_saturatingAdd, hnumber]
    exact Nat.min_eq_left (Nat.le_pred_of_lt hlen)

theorem blockHashes_buildBlock (h : BlockBuilder.buildBlock keccak256 (BlockExecutor.executeTx evm) config
    tip.block.header txs tip.state = .ok built) :
    built.state.blockHashes =
      AList.insert built.block.number (built.block.hash keccak256) tip.state.blockHashes := by
  obtain ⟨ex, hloop, rfl⟩ := BlockBuilder.buildBlock_eq_ok.mp h
  exact congrArg (AList.insert _ _) (blockHashes_loop hloop)

theorem blockHashes_genesis : (createGenesisBlock keccak256 allocs).2.blockHashes =
    AList.insert 0 ((createGenesisBlock keccak256 allocs).1.hash keccak256) ∅ := by
  have hnone : ∀ state : InMemoryStateDB, (allocs.foldl (fun (db : InMemoryStateDB) alloc =>
      db.insertAccount alloc.1 ⟨alloc.2, 0, FixedBytes.zero, none⟩) state).blockHashes = state.blockHashes := by
    induction allocs with
    | nil => exact fun _ => rfl
    | cons alloc allocs ih => exact fun state => ih _
  exact congrArg (AList.insert 0 _) (hnone .new)

/-- The table of block hashes is the chain. -/
theorem BuiltChain.lookup_blockHashes
    (h : BuiltChain keccak256 (BlockExecutor.executeTx evm) allocs (tip :: older)) (hlen : older.length < 2 ^ 64)
    (n : UInt64) : tip.state.blockHashes.lookup n =
      (tip :: older).reverse[n.toNat]?.map (·.block.hash keccak256) := by
  generalize hc : tip :: older = c at h
  induction h generalizing tip older with
  | genesis =>
    obtain ⟨rfl, rfl⟩ := List.cons.inj hc
    rw [blockHashes_genesis]
    by_cases hn : n = 0
    · subst hn
      exact AList.lookup_insert _
    · have hpos : 0 < n.toNat := Nat.pos_of_ne_zero fun h0 => hn (UInt64.toNat_inj.mp h0)
      rw [List.reverse_singleton, List.getElem?_eq_none (by exact hpos), Option.map_none, AList.lookup_insert_ne hn]
      rfl
  | next h hbuild ih =>
    obtain ⟨rfl, rfl⟩ := List.cons.inj hc
    have hnumber := (BuiltChain.next h hbuild).number hlen
    rw [List.length_cons] at hlen
    have hold := ih (Nat.lt_of_succ_lt hlen) rfl
    rw [← List.length_reverse] at hnumber
    rw [blockHashes_buildBlock hbuild, List.reverse_cons]
    rcases Nat.lt_trichotomy n.toNat (_ :: _).reverse.length with hlt | heq | hgt
    · rw [AList.lookup_insert_ne (fun hn => (hn ▸ hnumber ▸ hlt).ne rfl), List.getElem?_append_left hlt]
      exact hold
    · rw [List.getElem?_append_right heq.ge, heq, Nat.sub_self, UInt64.toNat_inj.mp (heq.trans hnumber.symm)]
      exact AList.lookup_insert _
    · rw [AList.lookup_insert_ne (fun hn => (hn ▸ hnumber ▸ hgt).ne rfl), List.getElem?_eq_none]
      · rw [hold, List.getElem?_eq_none hgt.le]
      · rw [List.length_append, List.length_singleton]
        exact hgt
theorem BuiltChain.of_suffix (h : BuiltChain keccak256 execute allocs c) (hsuffix : tip :: older <:+ c) :
    BuiltChain keccak256 execute allocs (tip :: older) := by
  induction h with
  | genesis =>
    rcases List.suffix_cons_iff.mp hsuffix with heq | hnil
    · rw [heq]
      exact .genesis
    · cases List.suffix_nil.mp hnil
  | next h hbuild ih =>
    rcases List.suffix_cons_iff.mp hsuffix with heq | hsuffix
    · rw [heq]
      exact h.next hbuild
    · exact ih hsuffix

theorem BuiltChain.follows (h : BuiltChain keccak256 execute allocs c) :
    c.IsChain (BuiltBlock.Follows keccak256 execute) := by
  induction h with
  | genesis => exact .singleton _
  | next h hbuild ih => exact ih.cons_cons (buildBlock_follows hbuild)

/-- Every block is valid after the one before it, and after every block the state knows the hashes of the blocks so far
under their numbers, and no others. -/
theorem chain_replays (keccak256 : List UInt8 → B256) (evm : BlockExecutor.Evm) (allocs : List (Address × U256))
    (c : List BuiltBlock) (h : BuiltChain keccak256 (BlockExecutor.executeTx evm) allocs c)
    (hlen : c.length ≤ 2 ^ 64) :
    c.IsChain (BuiltBlock.Follows keccak256 (BlockExecutor.executeTx evm)) ∧
      ∀ tip older, tip :: older <:+ c → ∀ n : UInt64, tip.state.getBlockHash n =
        ((tip :: older).reverse[n.toNat]?.map (·.block.hash keccak256)).getD FixedBytes.zero := by
  refine ⟨h.follows, fun tip older hsuffix n => ?_⟩
  rw [InMemoryStateDB.getBlockHash, (h.of_suffix hsuffix).lookup_blockHashes (hsuffix.length_le.trans hlen)]

end Chain

/-! ### The first two blocks of a devnet -/

/-- The genesis block and a block without transactions. -/
def twoBlocks (config : BlockBuilderConfig) (allocs : List (Address × U256)) : List BuiltBlock :=
  let genesis : BuiltBlock :=
    ⟨(createGenesisBlock DevNode.keccakOnRun allocs).1, [], (createGenesisBlock DevNode.keccakOnRun allocs).2⟩
  [BlockBuilder.finish DevNode.keccakOnRun config genesis.block.header [] (.start genesis.state), genesis]

theorem builtChain_twoBlocks (execute : ExecuteTx) (config : BlockBuilderConfig) (allocs : List (Address × U256)) :
    BuiltChain DevNode.keccakOnRun execute allocs (twoBlocks config allocs) :=
  .next .genesis (BlockBuilder.buildBlock_eq_ok.mpr ⟨_, rfl, rfl⟩)

/-- Two builders with the allocations in different orders. -/
theorem tip_hash_fixes_chain_twoBlocks : List.Forall₂ BuiltBlock.Same
    (twoBlocks ⟨.zero, none, none⟩ DevNode.freshConfig.allocs)
    (twoBlocks ⟨.zero, some 12, some 30000000⟩ DevNode.freshConfig.allocs.reverse) := by
  refine tip_hash_fixes_chain DevNode.keccakOnRun DevNode.freshConfig.execute DevNode.freshConfig.execute
    DevNode.freshConfig.allocs DevNode.freshConfig.allocs.reverse _ _ (builtChain_twoBlocks ..) (builtChain_twoBlocks ..)
    ?_ (by decide +kernel)
  have hinj : ∀ x ∈ (twoBlocks ⟨.zero, none, none⟩ DevNode.freshConfig.allocs ++
        twoBlocks ⟨.zero, some 12, some 30000000⟩ DevNode.freshConfig.allocs.reverse).flatMap
          (·.hashed DevNode.keccakOnRun),
      ∀ y ∈ (twoBlocks ⟨.zero, none, none⟩ DevNode.freshConfig.allocs ++
        twoBlocks ⟨.zero, some 12, some 30000000⟩ DevNode.freshConfig.allocs.reverse).flatMap
          (·.hashed DevNode.keccakOnRun),
      DevNode.keccakOnRun x = DevNode.keccakOnRun y → x = y := by
    decide +kernel
  exact fun x hx y hy h => hinj x (List.mem_flatMap.mpr hx) y (List.mem_flatMap.mpr hy) h

theorem chain_replays_twoBlocks :
    ((twoBlocks ⟨.zero, none, none⟩ DevNode.freshConfig.allocs).head (List.cons_ne_nil _ _)).state.getBlockHash 1 =
      ((twoBlocks ⟨.zero, none, none⟩ DevNode.freshConfig.allocs).reverse[1]?.map
        (·.block.hash DevNode.keccakOnRun)).getD FixedBytes.zero :=
  (chain_replays DevNode.keccakOnRun BlockValidator.plainCall DevNode.freshConfig.allocs _
    (builtChain_twoBlocks _ ⟨.zero, none, none⟩ _) (by decide)).2 _ _ (List.suffix_refl _) 1

end Eth2077
