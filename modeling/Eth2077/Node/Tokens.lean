import Eth2077.Node.MarketRuns

/-!
# Tokens of the market (`node/src/bin/eth2077-devnetd.rs`, the `eth2077_market` methods)

The record of a token through a run of the daemon is its record before, after a list of deals: sales while it was
listed, and transfers and listings in the name of the owner at the time. A token that is not listed stays as it is
until a request acts for its owner. New tokens take the numbers from `next_market_token_id` on, so that they leave
those below alone; the number `u64::MAX`, at which the counter stops, is the exception.
-/

namespace Eth2077

namespace Tokens

open Daemon Rpc

/-! ### Deals -/

inductive Deal where
  | sale (buyer txHash : String)
  | transfer (target : String) (txHash : Option String)
  | listing (priceWei : BitVec 128)

/-- The record after a deal; only a listed token can be sold, and not to its owner. -/
def deal? (nft : MarketNft) : Deal → Option MarketNft
  | .sale buyer txHash =>
    if nft.listed ∧ nft.owner ≠ buyer then
      some { nft with owner := buyer, listed := false, lastTxHash := some txHash }
    else none
  | .transfer target txHash => some { nft with owner := target, listed := false, lastTxHash := txHash }
  | .listing priceWei => some { nft with listed := true, priceWei := priceWei }

/-- What no deal changes. -/
structure SameToken (nft nft' : MarketNft) : Prop where
  tokenId : nft'.tokenId = nft.tokenId
  name : nft'.name = nft.name
  description : nft'.description = nft.description
  image : nft'.image = nft.image
  createdAtUnixS : nft'.createdAtUnixS = nft.createdAtUnixS

theorem SameToken.refl (nft : MarketNft) : SameToken nft nft := ⟨rfl, rfl, rfl, rfl, rfl⟩

theorem SameToken.deal {nft m m' : MarketNft} (h : SameToken nft m) {d : Deal} (hd : deal? m d = some m') :
    SameToken nft m' := by
  cases d with
  | sale buyer txHash =>
    rw [deal?] at hd
    split_ifs at hd
    cases hd
    exact ⟨h.tokenId, h.name, h.description, h.image, h.createdAtUnixS⟩
  | transfer target txHash =>
    cases hd
    exact ⟨h.tokenId, h.name, h.description, h.image, h.createdAtUnixS⟩
  | listing priceWei =>
    cases hd
    exact ⟨h.tokenId, h.name, h.description, h.image, h.createdAtUnixS⟩

/-- The token and the owner that a request to transfer or to list names. -/
def actsFor (e : Event) : Option (UInt64 × String) :=
  match e.method with
  | some (_, req, .marketTransfer) | some (_, req, .marketRelist) =>
    (tokenParam (requestParams req)).bind fun tokenId =>
      (partyParam (requestParams req) 1).map fun owner => (tokenId, owner)
  | _ => none

/-! ### What the other methods leave alone -/

/-- The tokens, and the number of the next one. -/
structure Shelf where
  nfts : HashMap UInt64 MarketNft
  nextId : UInt64

def shelf {Db : Type} (s : NodeState Db) : Shelf := ⟨s.marketNfts, s.nextMarketTokenId⟩

section Frame
variable {Db : Type} {R : Revm}

theorem shelf_judge (env : EngineEnv) (s : NodeState Db) (slot now : UInt64) :
    shelf (Focil.judge env s slot now).state = shelf s := by
  obtain ⟨penalties, hstate⟩ := Focil.judge_state env s slot now
  rw [hstate]
  rfl

theorem shelf_acceptUpdate (env : EngineEnv) (s : NodeState Db) (req : Json) (slot : UInt64)
    (entries : Option (List EngineTxMeta)) : shelf (Focil.acceptUpdate env s req slot entries) = shelf s := by
  unfold Focil.acceptUpdate Focil.unfreezeOther
  dsimp only
  cases entries with
  | none => split_ifs <;> rfl
  | some entries => split_ifs <;> rfl

theorem shelf_getInclusionList (env : EngineEnv) (s : NodeState Db) (req : Json) :
    shelf (Focil.getInclusionListResponse env s req).2 = shelf s := by
  unfold Focil.getInclusionListResponse Focil.freezeView
  dsimp only
  split_ifs <;> rfl

theorem shelf_forkchoiceUpdated {env : EngineEnv} {s s' : NodeState Db} {req answer : Json}
    (h : Focil.forkchoiceUpdatedResponse env s req = .ok (answer, s')) : shelf s' = shelf s := by
  rcases Focil.forkchoiceUpdated_cases h with ⟨-, -, rfl⟩ | ⟨-, entries, -, rfl⟩
  · exact shelf_judge ..
  · rw [shelf_acceptUpdate, shelf_judge]

theorem shelf_newPayload {env : EngineEnv} {s s' : NodeState R.Db} {req answer : Json}
    (h : Focil.newPayloadResponse env R s req = .ok (answer, s')) : shelf s' = shelf s := by
  obtain ⟨db, rfl⟩ := Focil.newPayload_state h
  exact shelf_judge ..

theorem shelf_registerEnvelope (env : EngineEnv) (s : NodeState Db) (req : Json) :
    shelf (Engine7732.registerPayloadEnvelopeResponse env s req).2 = shelf s := by
  unfold Engine7732.registerPayloadEnvelopeResponse
  split
  · rw [Engine7732.registerEnvelope_snd]
    rfl
  · rfl

theorem shelf_registerHeader {env : EngineEnv} {s s' : NodeState Db} {req answer : Json}
    (h : Engine7732.registerPayloadHeaderResponse env s req = .ok (answer, s')) : shelf s' = shelf s := by
  obtain ⟨parsed, -, h⟩ := except_bind_eq_ok.mp h
  cases parsed with
  | error err =>
    cases h
    rfl
  | ok header =>
    have hs' : s' = (Engine7732.registerHeader s header).2 := (Prod.mk.inj (Except.ok.inj h)).2.symm
    rcases Engine7732.registerHeader_cases s header with ⟨_, -, -, -, heq⟩ | ⟨_, -, -, -, -, heq⟩ | ⟨-, -, heq⟩
    · rw [hs', heq]
    · rw [hs', heq]
      rfl
    · rw [hs', heq]
      rfl

theorem shelf_evm (D : Decoders) (s : NodeState R.Db) (params : Json) (method : EvmMethod) :
    shelf (handleJsonrpc R D s method params).2 = shelf s := by
  rcases hprepare : prepare R D s params method with response | ⟨c, prepared⟩
  · simp only [handleJsonrpc, hprepare]
  · obtain ⟨db, hstate⟩ := Inclusion.executeEvmTransaction_snd prepared c
    have hframe := prepare_frame hprepare
    rcases hrun : executeEvmTransaction R prepared c with ⟨err | outcome, state⟩
    · simp only [handleJsonrpc, hprepare, hrun]
      rw [hrun, hframe] at hstate
      subst hstate
      rfl
    · simp only [handleJsonrpc, hprepare, hrun]
      rw [hrun, hframe] at hstate
      subst hstate
      cases method <;> rfl

theorem shelf_getTransactionCount (s : NodeState R.Db) (params : Json) :
    shelf (ethGetTransactionCount R s params).2 = shelf s := by
  unfold ethGetTransactionCount
  dsimp only
  split <;> rfl

theorem shelf_getBalance (s : NodeState R.Db) (params : Json) : shelf (ethGetBalance R s params).2 = shelf s := by
  unfold ethGetBalance
  split <;> rfl

theorem shelf_getCode (s : NodeState R.Db) (params : Json) : shelf (ethGetCode R s params).2 = shelf s := by
  unfold ethGetCode
  split <;> rfl

theorem shelf_getStorageAt {s s' : NodeState R.Db} {params : Json} {response : Response}
    (h : ethGetStorageAt R s params = .ok (response, s')) : shelf s' = shelf s := by
  obtain ⟨slot, -, h⟩ := except_bind_eq_ok.mp h
  cases hparam : addressParam params 0 with
  | none =>
    rw [hparam] at h
    cases h
    rfl
  | some address =>
    rw [hparam] at h
    cases h
    rfl

theorem shelf_setBalance {s s' : NodeState R.Db} {params : Json} {response : Response}
    (h : Eth2077.setBalance R s params = .ok (response, s')) : shelf s' = shelf s := by
  obtain ⟨amount, -, h⟩ := except_bind_eq_ok.mp h
  split at h
  · cases h
    rfl
  · cases h
    rfl

/-- A mint puts its token under the next number. -/
theorem shelf_marketMint (env : MarketEnv) (s : NodeState Db) (params : Json) :
    shelf (eth2077MarketMint env s params).2 = shelf s ∨
    ∃ nft, shelf (eth2077MarketMint env s params).2 =
      ⟨AList.insert s.nextMarketTokenId nft s.marketNfts, s.nextMarketTokenId.saturatingAdd 1⟩ := by
  unfold eth2077MarketMint
  dsimp only
  split
  · exact .inl rfl
  · exact .inr ⟨_, rfl⟩

/-- What a request that deals in a token does to the shelf. -/
def Deals {Db : Type} (node node' : DaemonState Db) (tokenId : UInt64) (nft : MarketNft) (d : Deal) : Prop :=
  ∃ nft', node.marketNfts.lookup tokenId = some nft ∧ deal? nft d = some nft' ∧
    shelf node'.toNodeState = ⟨AList.insert tokenId nft' node.marketNfts, node.nextMarketTokenId⟩

theorem shelf_marketBuy (env : MarketEnv) (node : DaemonState Db) (params : Json) :
    shelf (Eth2077.marketBuy env node params).2.toNodeState = shelf node.toNodeState ∨
    ∃ tokenId nft buyer txHash, Deals node (Eth2077.marketBuy env node params).2 tokenId nft (.sale buyer txHash) := by
  unfold Eth2077.marketBuy
  split
  · rename_i tokenId buyer htoken hbuyer
    split
    · exact .inl rfl
    · unfold withNft
      split
      · rename_i nft hnft
        unfold sell
        split_ifs with hlisted howner
        · exact .inl rfl
        · exact .inl rfl
        · have hsold : nft.listed = true ∧ nft.owner ≠ buyer := ⟨by simpa using hlisted, howner⟩
          exact .inr ⟨tokenId, nft, buyer, _, _, hnft, if_pos hsold, rfl⟩
      · exact .inl rfl
  · exact .inl rfl

/-- A transfer or a listing is in the name of the owner. -/
theorem shelf_marketTransfer (node : DaemonState Db) (params : Json) :
    shelf (Eth2077.marketTransfer node params).2.toNodeState = shelf node.toNodeState ∨
    ∃ tokenId nft d, tokenParam params = some tokenId ∧ partyParam params 1 = some nft.owner ∧
      Deals node (Eth2077.marketTransfer node params).2 tokenId nft d := by
  unfold Eth2077.marketTransfer
  split
  · rename_i tokenId source target htoken hsource htarget
    split
    · exact .inl rfl
    · unfold withNft
      split
      · rename_i nft hnft
        dsimp only
        split_ifs with howner
        · exact .inl rfl
        · rw [not_not] at howner
          subst howner
          exact .inr ⟨tokenId, nft, .transfer target _, htoken, hsource, _, hnft, rfl, rfl⟩
      · exact .inl rfl
  · exact .inl rfl

theorem shelf_marketRelist (node : DaemonState Db) (params : Json) :
    shelf (Eth2077.marketRelist node params).2.toNodeState = shelf node.toNodeState ∨
    ∃ tokenId nft d, tokenParam params = some tokenId ∧ partyParam params 1 = some nft.owner ∧
      Deals node (Eth2077.marketRelist node params).2 tokenId nft d := by
  unfold Eth2077.marketRelist
  split
  · rename_i tokenId owner priceWei htoken howner hprice
    unfold withNft
    split
    · rename_i nft hnft
      dsimp only
      split_ifs with hne
      · exact .inl rfl
      · rw [not_not] at hne
        subst hne
        exact .inr ⟨tokenId, nft, .listing priceWei, htoken, howner, _, hnft, rfl, rfl⟩
    · exact .inl rfl
  · exact .inl rfl

end Frame

/-! ### Steps -/

section Steps
variable {R : Revm} {env : RpcEnv} {node node' : DaemonState R.Db} {req params : Json} {method : Method}
  {response : Response} {e : Event}

/-- A request leaves the tokens alone, mints one, sells one, or acts for the owner of one. -/
theorem respond_shelf (h : respond R env node req params method = .ok (response, node')) :
    shelf node'.toNodeState = shelf node.toNodeState ∨
    (∃ nft, shelf node'.toNodeState =
      ⟨AList.insert node.nextMarketTokenId nft node.marketNfts, node.nextMarketTokenId.saturatingAdd 1⟩) ∨
    (∃ tokenId nft buyer txHash, Deals node node' tokenId nft (.sale buyer txHash)) ∨
    ((method = .marketTransfer ∨ method = .marketRelist) ∧ ∃ tokenId nft d, tokenParam params = some tokenId ∧
      partyParam params 1 = some nft.owner ∧ Deals node node' tokenId nft d) := by
  cases method with
  | query q =>
    cases h
    exact .inl rfl
  | ethGetBlockByNumber | ethGetBlockByHash =>
    obtain ⟨block, -, h⟩ := except_bind_eq_ok.mp h
    cases h
    exact .inl rfl
  | evm method =>
    obtain ⟨-, -, h⟩ := except_bind_eq_ok.mp h
    cases h
    exact .inl (shelf_evm ..)
  | ethGetBalance =>
    cases h
    exact .inl (shelf_getBalance ..)
  | ethGetTransactionCount =>
    cases h
    exact .inl (shelf_getTransactionCount ..)
  | ethGetCode =>
    cases h
    exact .inl (shelf_getCode ..)
  | ethGetStorageAt =>
    obtain ⟨r, hr, h⟩ := except_bind_eq_ok.mp h
    cases h
    exact .inl (shelf_getStorageAt hr)
  | engineGetInclusionList =>
    cases h
    exact .inl (shelf_getInclusionList ..)
  | engineForkchoiceUpdated =>
    obtain ⟨r, hr, h⟩ := except_bind_eq_ok.mp h
    cases h
    exact .inl (shelf_forkchoiceUpdated hr)
  | engineNewPayload =>
    obtain ⟨r, hr, h⟩ := except_bind_eq_ok.mp h
    cases h
    exact .inl (shelf_newPayload hr)
  | engineRegisterPayloadHeader =>
    obtain ⟨r, hr, h⟩ := except_bind_eq_ok.mp h
    cases h
    exact .inl (shelf_registerHeader hr)
  | engineRegisterPayloadEnvelope =>
    cases h
    exact .inl (shelf_registerEnvelope ..)
  | setBalance =>
    obtain ⟨r, hr, h⟩ := except_bind_eq_ok.mp h
    cases h
    exact .inl (shelf_setBalance hr)
  | marketMint =>
    obtain ⟨-, -, h⟩ := except_bind_eq_ok.mp h
    cases h
    rcases shelf_marketMint env.market node.toNodeState params with hsame | hminted
    · exact .inl hsame
    · exact .inr (.inl hminted)
  | marketBuy =>
    obtain rfl : (Eth2077.marketBuy env.market node params).2 = node' := congrArg Prod.snd (Except.ok.inj h)
    rcases shelf_marketBuy env.market node params with hsame | hsold
    · exact .inl hsame
    · exact .inr (.inr (.inl hsold))
  | marketTransfer =>
    obtain rfl : (Eth2077.marketTransfer node params).2 = node' := congrArg Prod.snd (Except.ok.inj h)
    rcases shelf_marketTransfer node params with hsame | hdeal
    · exact .inl hsame
    · exact .inr (.inr (.inr ⟨.inl rfl, hdeal⟩))
  | marketRelist =>
    obtain rfl : (Eth2077.marketRelist node params).2 = node' := congrArg Prod.snd (Except.ok.inj h)
    rcases shelf_marketRelist node params with hsame | hdeal
    · exact .inl hsame
    · exact .inr (.inr (.inr ⟨.inr rfl, hdeal⟩))

/-- What has become of a token. -/
structure Holds (node : DaemonState R.Db) (tokenId : UInt64) (nft : MarketNft) : Prop where
  lookup : node.marketNfts.lookup tokenId = some nft
  lt : tokenId < node.nextMarketTokenId

variable {tokenId : UInt64} {nft : MarketNft}

theorem Holds.congr (h : Holds node tokenId nft) (hshelf : shelf node'.toNodeState = shelf node.toNodeState) :
    Holds node' tokenId nft where
  lookup := (congrArg (fun s => s.nfts.lookup tokenId) hshelf).trans h.lookup
  lt := by
    rw [show node'.nextMarketTokenId = node.nextMarketTokenId from congrArg Shelf.nextId hshelf]
    exact h.lt

/-- A deal is in the token itself or leaves it as it is. -/
theorem Holds.deals (h : Holds node tokenId nft) {other : UInt64} {old : MarketNft} {d : Deal}
    (hd : Deals node node' other old d) :
    (other = tokenId ∧ old = nft ∧ ∃ nft', deal? nft d = some nft' ∧ Holds node' tokenId nft') ∨
      Holds node' tokenId nft := by
  obtain ⟨nft', hold, hdeal, hshelf⟩ := hd
  have hnfts : node'.marketNfts = AList.insert other nft' node.marketNfts := congrArg Shelf.nfts hshelf
  have hnext : node'.nextMarketTokenId = node.nextMarketTokenId := congrArg Shelf.nextId hshelf
  by_cases heq : other = tokenId
  · subst heq
    obtain rfl : old = nft := Option.some_inj.mp (hold.symm.trans h.lookup)
    refine .inl ⟨rfl, rfl, nft', hdeal, ?_, hnext ▸ h.lt⟩
    rw [hnfts, AList.lookup_insert]
  · refine .inr ⟨?_, hnext ▸ h.lt⟩
    rw [hnfts, AList.lookup_insert_ne (Ne.symm heq)]
    exact h.lookup

theorem Holds.mint (h : Holds node tokenId nft) {minted : MarketNft} (hshelf : shelf node'.toNodeState =
    ⟨AList.insert node.nextMarketTokenId minted node.marketNfts, node.nextMarketTokenId.saturatingAdd 1⟩) :
    Holds node' tokenId nft := by
  have hnfts : node'.marketNfts = AList.insert node.nextMarketTokenId minted node.marketNfts :=
    congrArg Shelf.nfts hshelf
  have hnext : node'.nextMarketTokenId = node.nextMarketTokenId.saturatingAdd 1 := congrArg Shelf.nextId hshelf
  have hlt := UInt64.lt_iff_toNat_lt.mp h.lt
  refine ⟨?_, UInt64.lt_iff_toNat_lt.mpr ?_⟩
  · rw [hnfts, AList.lookup_insert_ne (fun heq => by rw [heq] at hlt; omega)]
    exact h.lookup
  · have := node.nextMarketTokenId.toNat_le_maxNat
    rw [hnext, UInt64.toNat_saturatingAdd]
    omega

/-- A step leaves a token as it is, sells it, or deals in it for the owner it names. -/
theorem Holds.step (h : Holds node tokenId nft) (hstep : step R node e = some node') : Holds node' tokenId nft ∨
    ∃ d nft', deal? nft d = some nft' ∧ Holds node' tokenId nft' ∧
      (nft.listed = true ∨ actsFor e = some (tokenId, nft.owner)) := by
  rcases step_method hstep with ⟨now, rfl, rfl⟩ | ⟨-, rfl⟩ | ⟨env, req, method, response, hmethod, hrespond⟩
  · exact .inl ⟨h.lookup, h.lt⟩
  · exact .inl h
  · rcases respond_shelf hrespond with hsame | ⟨minted, hminted⟩ | ⟨other, old, buyer, txHash, hd⟩ |
      ⟨hname, other, old, d, htoken, hparty, hd⟩
    · exact .inl (h.congr hsame)
    · exact .inl (h.mint hminted)
    · rcases h.deals hd with ⟨rfl, rfl, nft', hdeal, hholds⟩ | hother
      · refine .inr ⟨_, nft', hdeal, hholds, .inl ?_⟩
        rw [deal?] at hdeal
        split_ifs at hdeal with hlisted
        exact hlisted.1
      · exact .inl hother
    · rcases h.deals hd with ⟨rfl, rfl, nft', hdeal, hholds⟩ | hother
      · refine .inr ⟨d, nft', hdeal, hholds, .inr ?_⟩
        rw [actsFor, hmethod]
        rcases hname with rfl | rfl
        · simp [htoken, hparty]
        · simp [htoken, hparty]
      · exact .inl hother

end Steps

/-! ### Runs -/

section Runs
variable {R : Revm} {node node' : DaemonState R.Db} {tokenId : UInt64} {nft : MarketNft}

/-- A token never gets lost: its record in the end is what a list of deals makes of its record before, and if it is not
listed nothing happens to it before a request acts for its owner. -/
theorem token_history (R : Revm) (node node' : DaemonState R.Db) (events : List Event) (tokenId : UInt64)
    (nft : MarketNft) (hrun : Run.exec (step R) node events = some node') (h : Holds node tokenId nft) :
    ∃ deals nft', Run.exec deal? nft deals = some nft' ∧ SameToken nft nft' ∧ Holds node' tokenId nft' ∧
      (nft.listed = false → (∀ e ∈ events, actsFor e ≠ some (tokenId, nft.owner)) → nft' = nft) := by
  induction events using List.reverseRecOn generalizing node' with
  | nil =>
    cases hrun
    exact ⟨[], nft, rfl, .refl nft, h, fun _ _ => rfl⟩
  | append_singleton events e ih =>
    obtain ⟨m, hm, hstep⟩ := Run.exec_concat.mp hrun
    obtain ⟨deals, nft', hdeals, hsame, hholds, hstays⟩ := ih m hm
    rcases hholds.step hstep with hunchanged | ⟨d, nft'', hdeal, hholds', hwho⟩
    · exact ⟨deals, nft', hdeals, hsame, hunchanged, fun hlisted hnone =>
        hstays hlisted fun e he => hnone e (List.mem_append_left _ he)⟩
    · refine ⟨deals ++ [d], nft'', Run.exec_concat.mpr ⟨nft', hdeals, hdeal⟩, hsame.deal hdeal, hholds',
        fun hlisted hnone => ?_⟩
      obtain rfl := hstays hlisted fun e he => hnone e (List.mem_append_left _ he)
      rcases hwho with hlisted' | hacts
      · rw [hlisted] at hlisted'
        cases hlisted'
      · exact absurd hacts (hnone e List.mem_concat_self)

end Runs

open MarketRuns

/-- The buyer of the first token keeps it while the second one is sold and its old owner tries to list it. -/
theorem token_history_sold : ∃ node node' nft,
    Run.exec (step accountsOnly) (startedNode accountsOnly) [buy "0x1"] = some node ∧ nft.owner = poorSender ∧
    Run.exec (step accountsOnly) node [buy "0x2", relist, buy "0x1"] = some node' ∧
    node'.marketNfts.lookup 1 = some nft := by
  have hsold : ∃ node node' nft, Run.exec (step accountsOnly) (startedNode accountsOnly) [buy "0x1"] = some node ∧
      Run.exec (step accountsOnly) node [buy "0x2", relist, buy "0x1"] = some node' ∧ Holds node 1 nft ∧
      nft.owner = poorSender ∧ nft.listed = false :=
    ⟨_, _, _, rfl, rfl, ⟨rfl, by decide⟩, rfl, rfl⟩
  obtain ⟨node, node', nft, hbuy, hrun, hholds, howner, hlisted⟩ := hsold
  obtain ⟨-, nft', -, -, hholds', hstays⟩ :=
    token_history accountsOnly node node' [buy "0x2", relist, buy "0x1"] 1 nft hrun hholds
  have hacts : ∀ e ∈ [buy "0x2", relist, buy "0x1"], actsFor e ≠ some (1, nft.owner) := by
    have hothers : ∀ x ∈ [buy "0x2", relist, buy "0x1"].map actsFor, x ≠ some (1, poorSender) := by
      show ∀ x ∈ [none, some (1, marketMerchantAddress), none], x ≠ some ((1 : UInt64), poorSender)
      decide
    rw [howner]
    exact fun e he => hothers _ (List.mem_map_of_mem he)
  obtain rfl := hstays hlisted hacts
  exact ⟨node, node', nft', hbuy, howner, hrun, hholds'.lookup⟩

end Tokens

end Eth2077
