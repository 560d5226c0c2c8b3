import Eth2077.Node.DaemonRuns

/-!
# Sales (`node/src/bin/eth2077-devnetd.rs`, `eth2077_marketBuy` and `eth2077_marketReceipt`)

A sale files its receipt under a hash: that of the buyer's transaction where the request names one, else one made up
from the token, the buyer, the clock and a counter that sales do not move on. Nothing looks whether there is a receipt
already, so a sale under a used hash takes the place of the earlier one. `sales_kept_iff` says that this is all that
can go wrong.
-/

namespace Eth2077

namespace MarketRuns

open Daemon Rpc

theorem asciiLowercase_pseudoTxHash (env : MarketEnv) (rawTx : String) (counter : UInt64) :
    asciiLowercase (pseudoTxHash env rawTx counter) = pseudoTxHash env rawTx counter := by
  have hzero : asciiLowercase "0x" = "0x" := by decide
  have hempty : asciiLowercase "" = "" := by decide
  simp only [pseudoTxHash, List.map_cons, List.map_nil, String.join, List.foldl_cons, List.foldl_nil,
    asciiLowercase_append, hzero, hempty, hex16, asciiLowercase_hexEncode]

/-! ### Purchases -/

structure Purchase where
  tokenId : UInt64
  nft : MarketNft
  buyer : String
  txHash : String

section Purchase
variable {Db : Type} (env : MarketEnv) (node : DaemonState Db) (params : Json)

/-- The hash of the transaction that is named, or of one that is made up. -/
def saleHash (tokenId : UInt64) (buyer : String) : String :=
  (hashParam params 2).getD
    (pseudoTxHash env s!"market-buy:{tokenId}:{buyer}:{env.now}" (node.txCounter.saturatingAdd env.now))

/-- The request goes through: someone else has put the token up, and a transaction that is named is the buyer's. -/
structure Buys (p : Purchase) : Prop where
  token : tokenParam params = some p.tokenId
  buyer : partyParam params 1 = some p.buyer
  sender : ∀ hash, hashParam params 2 = some hash → ∃ tx, node.txs.lookup hash = some tx ∧ tx.from = p.buyer
  nft : node.marketNfts.lookup p.tokenId = some p.nft
  listed : p.nft.listed = true
  owner : p.nft.owner ≠ p.buyer
  txHash : p.txHash = saleHash env node params p.tokenId p.buyer

/-- The receipt: who owned the token before, and at what price. -/
def Purchase.receipt (p : Purchase) : MarketReceipt :=
  let receipt : MarketReceipt :=
    { txHash := p.txHash, tokenId := p.tokenId, buyer := p.buyer, seller := p.nft.owner, priceWei := p.nft.priceWei
      chainId := node.chainId, blockNumberHint := node.currentHeight.saturatingAdd 1
      timestampUnixS := env.now, signature := "" }
  { receipt with signature := marketReceiptSignature env receipt }

variable {env node params}

theorem checkSender_eq_ok_iff {hash : Option String} {party action role : String} :
    checkSender node hash party action role = .ok () ↔
      ∀ h, hash = some h → ∃ tx, node.txs.lookup h = some tx ∧ tx.from = party := by
  cases hash with
  | none => exact iff_of_true rfl nofun
  | some hash =>
    rw [checkSender]
    constructor
    · intro h hash' heq
      obtain rfl := Option.some_inj.mp heq
      split at h
      · rename_i tx htx
        split_ifs at h with hparty
        exact ⟨tx, htx, hparty⟩
      · cases h
    · intro h
      obtain ⟨tx, htx, hparty⟩ := h hash rfl
      rw [htx]
      exact if_pos hparty

theorem exists_error_of_checkSender {hash : Option String} {party action role : String} {response : Response}
    (h : checkSender node hash party action role = .error response) :
    ∃ code message, response = .error code message := by
  cases hash with
  | none => cases h
  | some hash =>
    rw [checkSender] at h
    split at h
    · split_ifs at h
      cases h
      exact ⟨_, _, rfl⟩
    · cases h
      exact ⟨_, _, rfl⟩

theorem marketBuy_of_buys {p : Purchase} (h : Buys env node params p) :
    ∃ nft, (Eth2077.marketBuy env node params).1 =
        .result (.object [("nft", nft), ("receipt", marketReceiptToJson (p.receipt env node))]) ∧
      (Eth2077.marketBuy env node params).2.marketReceipts =
        AList.insert p.txHash (p.receipt env node) node.marketReceipts := by
  have hlisted : (!p.nft.listed) = false := by rw [h.listed]; rfl
  rw [Eth2077.marketBuy, h.token, h.buyer]
  dsimp only
  rw [checkSender_eq_ok_iff.mpr h.sender]
  dsimp only
  rw [withNft, h.nft]
  dsimp only
  rw [sell, if_neg (by rw [hlisted]; exact Bool.false_ne_true), if_neg h.owner]
  dsimp only
  rw [← saleHash, ← h.txHash]
  exact ⟨_, rfl, rfl⟩

/-- A request that does not go through is answered with an error and changes nothing. -/
theorem marketBuy_of_not_buys (h : ∀ p, ¬ Buys env node params p) :
    ∃ code message, Eth2077.marketBuy env node params = (.error code message, node) := by
  unfold Eth2077.marketBuy
  split
  · rename_i tokenId buyer htoken hbuyer
    split
    · rename_i response hcheck
      obtain ⟨code, message, rfl⟩ := exists_error_of_checkSender hcheck
      exact ⟨code, message, rfl⟩
    · rename_i hcheck
      unfold withNft
      split
      · rename_i nft hnft
        unfold sell
        split_ifs with hlisted howner
        · exact ⟨_, _, rfl⟩
        · exact ⟨_, _, rfl⟩
        · exact absurd ⟨htoken, hbuyer, checkSender_eq_ok_iff.mp hcheck, hnft, by simpa using hlisted, howner, rfl⟩
            (h ⟨tokenId, nft, buyer, saleHash env node params tokenId buyer⟩)
      · exact ⟨_, _, rfl⟩
  · exact ⟨_, _, rfl⟩

/-- The hash of a sale has no capitals, as those it is asked for with have none. -/
theorem asciiLowercase_saleHash (tokenId : UInt64) (buyer : String) :
    asciiLowercase (saleHash env node params tokenId buyer) = saleHash env node params tokenId buyer := by
  rw [saleHash]
  cases hnamed : hashParam params 2 with
  | some hash =>
    obtain ⟨named, -, rfl⟩ := Option.map_eq_some_iff.mp (Option.filter_eq_some_iff.mp hnamed).1
    exact asciiLowercase_asciiLowercase named
  | none => exact asciiLowercase_pseudoTxHash ..

end Purchase

/-! ### Runs -/

section Runs
variable (R : Revm)

/-- What the node answers to a request that succeeds. -/
def result (env : RpcEnv) (node : DaemonState R.Db) (req : Json) : Option Json :=
  (Rpc.handleJsonrpc R env node req).toOption.bind fun answer => answer.1.get "result"

/-- The receipt an event returns, if it is a sale. -/
def soldReceipt (node : DaemonState R.Db) : Event → Option Json
  | .rpc env req =>
    if methodName req = "eth2077_marketBuy" then (result R env node req).bind fun sold => sold.get "receipt" else none
  | _ => none

/-- The sales of a run keep their receipts. -/
structure SalesKept (start : DaemonState R.Db) (events : List Event) : Prop where
  /-- Whoever asks for it at any later time of the run gets the receipt that was returned. -/
  kept : ∀ before sale after rest, events = before ++ sale :: after ++ rest →
    ∀ node, Run.exec (step R) start before = some node → ∀ receipt, soldReceipt R node sale = some receipt →
    ∀ later, Run.exec (step R) start (before ++ sale :: after) = some later →
    ∀ hash, receipt.get "txHash" = some (.string hash) →
    ∀ env req others, methodName req = "eth2077_marketReceipt" → requestParams req = .array (.string hash :: others) →
      result R env later req = some receipt
  /-- No two sales share a hash. -/
  unique : ∀ before sale between sale' after, events = before ++ sale :: between ++ sale' :: after →
    ∀ node, Run.exec (step R) start before = some node → ∀ receipt, soldReceipt R node sale = some receipt →
    ∀ node', Run.exec (step R) start (before ++ sale :: between) = some node' →
    ∀ receipt', soldReceipt R node' sale' = some receipt' → receipt.get "txHash" ≠ receipt'.get "txHash"
  /-- The seller is who owned the token, and the price is that at which it was listed. -/
  own : ∀ before sale after, events = before ++ sale :: after →
    ∀ node, Run.exec (step R) start before = some node → ∀ receipt, soldReceipt R node sale = some receipt →
    ∃ tokenId nft, node.marketNfts.lookup tokenId = some nft ∧ nft.listed = true ∧
      receipt.get "tokenId" = some (hexU64 tokenId) ∧ receipt.get "seller" = some (.string nft.owner) ∧
      receipt.get "priceWei" = some (hexU128 nft.priceWei)

/-- A sale that the event makes has a hash without a receipt. -/
def FreshHash (node : DaemonState R.Db) (e : Event) : Prop :=
  ∀ env req, e = .rpc env req → methodName req = "eth2077_marketBuy" →
    ∀ p, Buys env.market node (requestParams req) p → node.marketReceipts.lookup p.txHash = none

variable {R} {node node' start : DaemonState R.Db} {e : Event} {events : List Event} {receipt : Json}

theorem handleJsonrpc_marketBuy {env : RpcEnv} {req : Json} (hmethod : methodName req = "eth2077_marketBuy") :
    Rpc.handleJsonrpc R env node req =
      .ok (toJson ((req.get "id").getD .null) (Eth2077.marketBuy env.market node (requestParams req)).1,
        (Eth2077.marketBuy env.market node (requestParams req)).2) := by
  have hlookup : methods.lookup (methodName req) = some .marketBuy := by
    rw [hmethod]
    rfl
  rw [Rpc.handleJsonrpc, hlookup]
  rfl

theorem soldReceipt_eq_some_iff : soldReceipt R node e = some receipt ↔
    ∃ env req p, e = .rpc env req ∧ methodName req = "eth2077_marketBuy" ∧
      Buys env.market node (requestParams req) p ∧ receipt = marketReceiptToJson (p.receipt env.market node) := by
  constructor
  · intro h
    cases e with
    | tick now => cases h
    | engine env route req => cases h
    | rpc env req =>
      rw [soldReceipt] at h
      split_ifs at h with hmethod
      rw [result, handleJsonrpc_marketBuy hmethod] at h
      by_cases hbuys : ∃ p, Buys env.market node (requestParams req) p
      · obtain ⟨p, hp⟩ := hbuys
        obtain ⟨nft, hresponse, -⟩ := marketBuy_of_buys hp
        rw [hresponse] at h
        exact ⟨env, req, p, rfl, hmethod, hp, (Option.some_inj.mp h).symm⟩
      · obtain ⟨code, message, herror⟩ := marketBuy_of_not_buys (not_exists.mp hbuys)
        rw [herror] at h
        cases h
  · rintro ⟨env, req, p, rfl, hmethod, hp, rfl⟩
    obtain ⟨nft, hresponse, -⟩ := marketBuy_of_buys hp
    rw [soldReceipt, if_pos hmethod, result, handleJsonrpc_marketBuy hmethod, hresponse]
    rfl

theorem eq_rpc_of_method {env : RpcEnv} {req : Json} (h : e.method = some (env, req, .marketBuy)) :
    e = .rpc env req ∧ methodName req = "eth2077_marketBuy" := by
  have hmem : ∀ {table : List (String × Method)} {name : String}, table.lookup name = some .marketBuy →
      (name, Method.marketBuy) ∈ table := by
    intro table name hlookup
    obtain ⟨before, after, rfl, -⟩ := List.lookup_eq_some_iff.mp hlookup
    exact List.mem_append_cons_self
  cases e with
  | tick now => cases h
  | engine env' route req' =>
    obtain ⟨method, hroute, heq⟩ := Option.map_eq_some_iff.mp h
    cases heq
    simpa [engineRoutes] using hmem hroute
  | rpc env' req' =>
    obtain ⟨method, hname, heq⟩ := Option.map_eq_some_iff.mp h
    cases heq
    exact ⟨rfl, by simpa [methods] using hmem hname⟩

/-- A step files the receipt of the sale it makes, and no other. -/
theorem step_sale (h : step R node e = some node') :
    (soldReceipt R node e = none ∧ node'.marketReceipts = node.marketReceipts) ∨
    (∃ env req p, e = .rpc env req ∧ methodName req = "eth2077_marketBuy" ∧
      Buys env.market node (requestParams req) p ∧
      node'.marketReceipts = AList.insert p.txHash (p.receipt env.market node) node.marketReceipts) := by
  cases hsold : soldReceipt R node e with
  | some receipt =>
    obtain ⟨env, req, p, rfl, hmethod, hp, -⟩ := soldReceipt_eq_some_iff.mp hsold
    obtain ⟨nft, -, hfiled⟩ := marketBuy_of_buys hp
    rw [step, handleJsonrpc_marketBuy hmethod] at h
    obtain rfl := Option.some_inj.mp h
    exact .inr ⟨env, req, p, rfl, hmethod, hp, hfiled⟩
  | none =>
    refine .inl ⟨rfl, ?_⟩
    have hledger : ∀ {l : Ledger}, ledger node' = l → node'.marketReceipts = l.marketReceipts := by
      rintro l rfl
      rfl
    rcases step_method h with ⟨now, rfl, rfl⟩ | ⟨-, rfl⟩ | ⟨env, req, method, response, hmethod, hrespond⟩
    · rfl
    · rfl
    rcases respond_cases hrespond with ⟨-, hsame⟩ | ⟨hash, tx, receipts, -, -, hsame⟩ | ⟨rfl, -⟩ | ⟨-, header, -, hsame⟩
    · exact hledger hsame
    · exact hledger hsame
    · obtain ⟨rfl, hname⟩ := eq_rpc_of_method hmethod
      have hnone : ∀ p, ¬ Buys env.market node (requestParams req) p := by
        intro p hp
        cases hsold.symm.trans (soldReceipt_eq_some_iff.mpr ⟨env, req, p, rfl, hname, hp, rfl⟩)
      obtain ⟨code, message, herror⟩ := marketBuy_of_not_buys hnone
      obtain rfl : (Eth2077.marketBuy env.market node (requestParams req)).2 = node' :=
        congrArg Prod.snd (Except.ok.inj hrespond)
      rw [herror]
    · exact hledger hsame

/-- A receipt stays as long as no sale takes its hash. -/
theorem lookup_step {hash : String} {filed : MarketReceipt} (hfresh : FreshHash R node e)
    (h : step R node e = some node') (hlookup : node.marketReceipts.lookup hash = some filed) :
    node'.marketReceipts.lookup hash = some filed := by
  rcases step_sale h with ⟨-, hsame⟩ | ⟨env, req, p, rfl, hmethod, hp, hfiled⟩
  · rwa [hsame]
  · have hne : hash ≠ p.txHash := by
      rintro rfl
      cases hlookup.symm.trans (hfresh env req rfl hmethod p hp)
    rwa [hfiled, AList.lookup_insert_ne hne]

theorem lookup_after_sale {env : RpcEnv} {req : Json} {p : Purchase} {after : List Event} {later : DaemonState R.Db}
    (hmethod : methodName req = "eth2077_marketBuy") (hp : Buys env.market node (requestParams req) p)
    (hrun : Run.Along (step R) (FreshHash R) node (.rpc env req :: after))
    (hlater : Run.exec (step R) node (.rpc env req :: after) = some later) :
    later.marketReceipts.lookup p.txHash = some (p.receipt env.market node) := by
  obtain ⟨sold, hstep, hafter⟩ := Option.bind_eq_some_iff.mp hlater
  obtain ⟨nft, -, hfiled⟩ := marketBuy_of_buys hp
  have hsold : sold.marketReceipts.lookup p.txHash = some (p.receipt env.market node) := by
    rw [step, handleJsonrpc_marketBuy hmethod] at hstep
    obtain rfl := Option.some_inj.mp hstep
    exact hfiled ▸ AList.lookup_insert _
  have hone : Run.exec (step R) node [.rpc env req] = some sold := by
    rw [Run.exec, hstep]
    rfl
  have hrest : Run.Along (step R) (FreshHash R) sold after :=
    Run.Along.after (by rwa [List.singleton_append]) hone
  exact Run.invariant_along (I := fun m => m.marketReceipts.lookup p.txHash = some (p.receipt env.market node)) hsold
    (fun m e m' hm hfresh hstep => lookup_step hfresh hstep hm) hrest hafter

/-- The receipt that a sale has returned is under its hash from then on. -/
theorem filed_of_sold {before after : List Event} {sale : Event} {later : DaemonState R.Db}
    (hrun : Run.Along (step R) (FreshHash R) start (before ++ sale :: after))
    (hnode : Run.exec (step R) start before = some node) (hsold : soldReceipt R node sale = some receipt)
    (hlater : Run.exec (step R) start (before ++ sale :: after) = some later) :
    ∃ filed : MarketReceipt, receipt = marketReceiptToJson filed ∧ asciiLowercase filed.txHash = filed.txHash ∧
      later.marketReceipts.lookup filed.txHash = some filed := by
  obtain ⟨env, req, p, rfl, hmethod, hp, rfl⟩ := soldReceipt_eq_some_iff.mp hsold
  refine ⟨p.receipt env.market node, rfl, ?_, ?_⟩
  · show asciiLowercase p.txHash = p.txHash
    rw [hp.txHash, asciiLowercase_saleHash]
  · rw [Run.exec_append, hnode] at hlater
    exact lookup_after_sale hmethod hp (hrun.after hnode) hlater

theorem result_marketReceipt {env : RpcEnv} {req : Json} {hash : String} {others : List Json}
    (hmethod : methodName req = "eth2077_marketReceipt")
    (hparams : requestParams req = .array (.string hash :: others)) :
    result R env node req =
      some (.ofOption marketReceiptToJson (node.marketReceipts.lookup (asciiLowercase hash))) := by
  have hlookup : methods.lookup (methodName req) = some (.query .marketReceipt) := by
    rw [hmethod]
    rfl
  rw [result, Rpc.handleJsonrpc, hlookup, hparams]
  rfl

/-- What is filed is the receipt of a sale. -/
theorem exists_sale_of_lookup {hash : String} {filed : MarketReceipt} (hstart : start.marketReceipts = ∅)
    (hnode : Run.exec (step R) start events = some node) (hlookup : node.marketReceipts.lookup hash = some filed) :
    filed.txHash = hash ∧ ∃ before sale after m, events = before ++ sale :: after ∧
      Run.exec (step R) start before = some m ∧ soldReceipt R m sale = some (marketReceiptToJson filed) := by
  induction events using List.reverseRecOn generalizing node with
  | nil =>
    obtain rfl := Option.some_inj.mp hnode
    rw [hstart] at hlookup
    cases hlookup
  | append_singleton events e ih =>
    obtain ⟨m, hm, hstep⟩ := Run.exec_concat.mp hnode
    by_cases hbefore : m.marketReceipts.lookup hash = some filed
    · obtain ⟨hhash, before, sale, after, m', rfl, hm', hsold⟩ := ih hm hbefore
      exact ⟨hhash, before, sale, after ++ [e], m', by simp, hm', hsold⟩
    · rcases step_sale hstep with ⟨-, hsame⟩ | ⟨env, req, p, rfl, hmethod, hp, hfiled⟩
      · rw [hsame] at hlookup
        exact absurd hlookup hbefore
      · rw [hfiled] at hlookup
        by_cases hhash : hash = p.txHash
        · subst hhash
          rw [AList.lookup_insert] at hlookup
          obtain rfl := Option.some_inj.mp hlookup
          exact ⟨rfl, events, .rpc env req, [], m, rfl, hm,
            soldReceipt_eq_some_iff.mpr ⟨env, req, p, rfl, hmethod, hp, rfl⟩⟩
        · rw [AList.lookup_insert_ne hhash] at hlookup
          exact absurd hlookup hbefore

end Runs

/-- The sales of a run keep their receipts, each under a hash of its own, exactly if every sale goes through under a
hash without a receipt. -/
theorem sales_kept_iff (R : Revm) {start : DaemonState R.Db} (hstart : Started R start) (events : List Event) :
    SalesKept R start events ↔ Run.Along (step R) (FreshHash R) start events := by
  constructor
  · rintro hkept before e after rfl node hnode env req rfl hmethod p hp
    by_contra hused
    obtain ⟨filed, hfiled⟩ := Option.ne_none_iff_exists'.mp hused
    obtain ⟨hhash, before', sale, between, m, rfl, hm, hsold⟩ := exists_sale_of_lookup hstart.2 hnode hfiled
    refine hkept.unique before' sale between (.rpc env req) after rfl m hm _ hsold node hnode _
      (soldReceipt_eq_some_iff.mpr ⟨env, req, p, rfl, hmethod, hp, rfl⟩) ?_
    exact congrArg (fun hash => some (Json.string hash)) hhash
  · intro hrun
    refine ⟨?_, ?_, ?_⟩
    · rintro before sale after rest rfl node hnode receipt hsold later hlater hash hhash env req others hmethod hparams
      obtain ⟨filed, rfl, hlower, hlookup⟩ := filed_of_sold hrun.of_append hnode hsold hlater
      obtain rfl : filed.txHash = hash := Json.string.inj (Option.some_inj.mp hhash)
      rw [result_marketReceipt hmethod hparams, hlower, hlookup]
      rfl
    · rintro before sale between sale' after rfl node hnode receipt hsold node' hnode' receipt' hsold' hshare
      obtain ⟨filed, rfl, -, hlookup⟩ := filed_of_sold hrun.of_append hnode hsold hnode'
      obtain ⟨env, req, p, rfl, hmethod, hp, rfl⟩ := soldReceipt_eq_some_iff.mp hsold'
      have hfresh := hrun (before ++ sale :: between) (.rpc env req) after rfl node' hnode' env req rfl hmethod p hp
      obtain hsame : filed.txHash = p.txHash := Json.string.inj (Option.some_inj.mp hshare)
      rw [← hsame, hlookup] at hfresh
      cases hfresh
    · rintro before sale after - node - receipt hsold
      obtain ⟨env, req, p, rfl, -, hp, rfl⟩ := soldReceipt_eq_some_iff.mp hsold
      exact ⟨p.tokenId, p.nft, hp.nft, hp.listed, rfl, rfl, rfl⟩

/-! ### Two sales in one second -/

/-- A `DefaultHasher` whose digests of some texts are known. -/
def digests (known : List (String × List UInt64)) (text : String) (_ salt : UInt64) : UInt64 :=
  ((known.lookup text).bind fun digest => digest[salt.toNat]?).getD 0

/-- The hash that is made up for the sale of the first token. -/
def someSale : String := "0xe196ea56f331a9ea7f59cea3d77bdb51a46c9264c1dc11fd7ef3e74591f96eae"

def otherSale : String := "0xdc5576a0d5e496dffd9b4f0f9a4eecb33189d240d2168d174d8270f5fb252cc2"

/-- The text that the receipt of such a sale is signed for. -/
def receiptText (hash token price : String) : String :=
  s!"eth2077:market:receipt:v1:2077001:{hash}:{token}:{poorSender}:{marketMerchantAddress}:{price}:1:1772409700"

def saleEnv : RpcEnv :=
  { walletEnv with
    market := ⟨digests
      [(s!"market-buy:1:{poorSender}:1772409700",
          [0xe196ea56f331a9ea, 0x7f59cea3d77bdb51, 0xa46c9264c1dc11fd, 0x7ef3e74591f96eae]),
        (receiptText someSale "1" "1500000000000000",
          [0xf61276708ad27ff1, 0xb33e74bfec8a6857, 0x9942c785d456995b, 0xeaaf05ab5b341f00]),
        (receiptText someSale "1" "1",
          [0x0f775ea982f233a1, 0xbeef36164d2f21cb, 0x54eba4a99075bcb1, 0x7e9022b956c97364]),
        (s!"market-buy:2:{poorSender}:1772409700",
          [0xdc5576a0d5e496df, 0xfd9b4f0f9a4eecb3, 0x3189d240d2168d17, 0x4d8270f5fb252cc2]),
        (receiptText otherSale "2" "2000000000000000",
          [0xd41409c56744f5c1, 0xccabfd5ded7c7194, 0xd5f848cd88095354, 0x77a4b37f810fe53f])], 1772409700⟩ }

def buy (token : String) : Event := .rpc saleEnv (request "eth2077_marketBuy" [.string token, .string poorSender])

def giveBack : Event :=
  .rpc saleEnv (request "eth2077_marketTransfer" [.string "0x1", .string poorSender, .string marketMerchantAddress])

def relist : Event :=
  .rpc saleEnv (request "eth2077_marketRelist" [.string "0x1", .string marketMerchantAddress, .string "0x1"])

theorem sales_kept_two_tokens : ∃ node,
    Run.exec (step accountsOnly) (startedNode accountsOnly) [buy "0x1", buy "0x2"] = some node ∧
    (node.marketReceipts.lookup someSale).isSome ∧ (node.marketReceipts.lookup otherSale).isSome ∧
    SalesKept accountsOnly (startedNode accountsOnly) [buy "0x1", buy "0x2"] := by
  have hfirst : ∃ node, step accountsOnly (startedNode accountsOnly) (buy "0x1") = some node ∧
      node.marketReceipts.keys = [someSale] ∧ node.txCounter = 0 := ⟨_, rfl, rfl, rfl⟩
  obtain ⟨node, hstep, hkeys, hcounter⟩ := hfirst
  refine ⟨_, rfl, rfl, rfl, (sales_kept_iff accountsOnly (started_startedNode _) [buy "0x1", buy "0x2"]).mpr ?_⟩
  refine .cons (fun _ _ _ _ _ _ => rfl) hstep (.cons ?_ rfl Run.along_nil)
  rintro env req heq - p hp
  cases heq
  have htoken : p.tokenId = 2 := (Option.some_inj.mp hp.token).symm
  have hbuyer : p.buyer = poorSender := (Option.some_inj.mp hp.buyer).symm
  have hhash : p.txHash = otherSale := by
    rw [hp.txHash, htoken, hbuyer, saleHash, hcounter]
    rfl
  rw [AList.lookup_eq_none, hhash, AList.mem_keys, hkeys]
  decide

/-- The token goes back and is bought again in the same second, for less. -/
def resoldRun : List Event := [buy "0x1", giveBack, relist, buy "0x1"]

/-- The second sale has the hash of the first, and its receipt is what is found there. -/
theorem resold_under_same_hash : ∃ node first asked,
    Run.exec (step accountsOnly) (startedNode accountsOnly) resoldRun = some node ∧
    soldReceipt accountsOnly (startedNode accountsOnly) (buy "0x1") = some first ∧
    first.get "txHash" = some (.string someSale) ∧ first.get "priceWei" = some (.string "0x5543df729c000") ∧
    result accountsOnly saleEnv node (request "eth2077_marketReceipt" [.string someSale]) = some asked ∧
    asked.get "priceWei" = some (.string "0x1") ∧ ¬ SalesKept accountsOnly (startedNode accountsOnly) resoldRun := by
  refine ⟨_, _, _, rfl, rfl, rfl, rfl, rfl, rfl, fun hkept => ?_⟩
  exact hkept.unique [] (buy "0x1") [giveBack, relist] (buy "0x1") [] rfl _ rfl _ rfl _ rfl _ rfl rfl

end MarketRuns

end Eth2077
