import Mathlib.Logic.Function.Basic
import Mathlib.Algebra.GroupWithZero.Nat
import Mathlib.Algebra.Order.BigOperators.Group.List
import Mathlib.Algebra.Order.Group.Nat
import Eth2077.Node.FocilFreeze

/-!
# What a valid payload is

`engine_newPayloadV3` walks through the payload with the nonce and the balance each sender has left. Seen
from outside this is a ledger; a payload that raises no check is one the ledger admits entry by entry. The
ledger counts in 256 bits, so it says what it should about the balances only as long as no entry's price
reaches `2 ^ 256`, and the walk passes over the entries that name no sender.
-/

namespace Eth2077

/-- Reading an account may cache it, and changes no account. -/
def Revm.CachingReads (R : Revm) : Prop := ∀ db a b, (R.basic (R.basic db a).2 b).1 = (R.basic db b).1

namespace Focil

/-! ### The ledger -/

/-- What each sender has left. -/
structure Ledger where
  nonce : String → UInt64
  balance : String → U256

/-- What the node takes an entry to cost. -/
def payloadWei (payload : EngineTxMeta) : Option U256 := do
  return Simulation.requiredWei (← payload.gasLimit) (← payload.gasPrice) (← payload.value)

namespace Ledger

def pay (l : Ledger) (payload : EngineTxMeta) (sender : String) : Ledger :=
  match payloadWei payload with
  | some wei => { l with balance := Function.update l.balance sender (l.balance sender - wei) }
  | none => l

def advance (l : Ledger) (payload : EngineTxMeta) (sender : String) : Ledger :=
  match payload.nonce with
  | some _ => { l with nonce := Function.update l.nonce sender ((l.nonce sender).saturatingAdd 1) }
  | none => l

section
variable (l : Ledger) (payload : EngineTxMeta) (sender : String)

@[simp] theorem nonce_pay : (l.pay payload sender).nonce = l.nonce := by
  unfold pay
  split <;> rfl

@[simp] theorem balance_advance : (l.advance payload sender).balance = l.balance := by
  unfold advance
  split <;> rfl

theorem balance_pay : (l.pay payload sender).balance =
    (payloadWei payload).elim l.balance fun wei => Function.update l.balance sender (l.balance sender - wei) := by
  unfold pay
  split <;> simp_all

theorem nonce_advance : (l.advance payload sender).nonce =
    payload.nonce.elim l.nonce fun _ => Function.update l.nonce sender ((l.nonce sender).saturatingAdd 1) := by
  unfold advance
  split <;> simp_all

end

/-- The ledger can take the entry: the nonce is the next one, the gas fits into a block and the balance is
there. -/
structure Admits (l : Ledger) (payload : EngineTxMeta) (sender : String) : Prop where
  nonce : ∀ nonce ∈ payload.nonce, nonce = l.nonce sender
  gas : ∀ gas ∈ payload.gasLimit, gas ≤ engineBlockGasLimit
  balance : ∀ wei ∈ payloadWei payload, wei ≤ l.balance sender

end Ledger

variable {R : Revm} {db : R.Db} {l : Ledger} {acc : Simulation R.Db} {payload : EngineTxMeta} {sender : String}
  {address : Address} {required : List String}

/-- The accounts of the database, by the senders' texts. -/
def accounts (R : Revm) (db : R.Db) : Ledger where
  nonce sender := ((addressFromHex sender).map fun a => (accountNonceFromDb R db a).1).getD 0
  balance sender := ((addressFromHex sender).map fun a => (accountBalanceFromDb R db a).1).getD 0

/-- The simulation reads the accounts of `db` and stands where the ledger does. -/
structure Models (db : R.Db) (l : Ledger) (acc : Simulation R.Db) : Prop where
  reads : ∀ a, (R.basic acc.db a).1 = (R.basic db a).1
  nonce : ∀ sender, (acc.nonces.lookup sender).getD ((accounts R db).nonce sender) = l.nonce sender
  balance : ∀ sender, (acc.balances.lookup sender).getD ((accounts R db).balance sender) = l.balance sender

theorem models_start (db : R.Db) (checks : List String) : Models db (accounts R db) (Simulation.start R db checks) :=
  ⟨fun _ => rfl, fun _ => rfl, fun _ => rfl⟩

/-- Setting the entry of one key, seen with a default for the keys that are missing. -/
theorem getD_lookup_insert {V : Type} (m : HashMap String V) (key other : String) (v : V) (d : String → V) :
    ((AList.insert key v m).lookup other).getD (d other) =
      Function.update (fun k => (m.lookup k).getD (d k)) key v other := by
  by_cases h : other = key
  · subst h
    simp
  · rw [AList.lookup_insert_ne h, Function.update_of_ne h]

theorem expectedNonce_spec (hR : R.CachingReads) (h : Models db l acc) (ha : addressFromHex sender = some address) :
    (acc.expectedNonce sender address).1 = l.nonce sender ∧ Models db l (acc.expectedNonce sender address).2 := by
  have hnonce := h.nonce sender
  unfold Simulation.expectedNonce
  split
  · rename_i nonce hlookup
    rw [hlookup] at hnonce
    exact ⟨hnonce, h⟩
  · rename_i hlookup
    have hread : (accountNonceFromDb R acc.db address).1 = l.nonce sender := by
      rw [hlookup] at hnonce
      rw [← hnonce]
      simp [accounts, ha, accountNonceFromDb, h.reads]
    refine ⟨hread, fun a => ?_, fun other => ?_, h.balance⟩
    · exact (hR acc.db address a).trans (h.reads a)
    · rw [getD_lookup_insert, funext h.nonce, hread, Function.update_eq_self]

theorem remainingBalance_spec (hR : R.CachingReads) (h : Models db l acc) (ha : addressFromHex sender = some address) :
    (acc.remainingBalance sender address).1 = l.balance sender ∧
      Models db l (acc.remainingBalance sender address).2 := by
  have hbalance := h.balance sender
  unfold Simulation.remainingBalance
  split
  · rename_i balance hlookup
    rw [hlookup] at hbalance
    exact ⟨hbalance, h⟩
  · rename_i hlookup
    have hread : (accountBalanceFromDb R acc.db address).1 = l.balance sender := by
      rw [hlookup] at hbalance
      rw [← hbalance]
      simp [accounts, ha, accountBalanceFromDb, h.reads]
    refine ⟨hread, fun a => ?_, h.nonce, fun other => ?_⟩
    · exact (hR acc.db address a).trans (h.reads a)
    · rw [getD_lookup_insert, funext h.balance, hread, Function.update_eq_self]

theorem report_checks (check : String) : (acc.report check).checks ≠ [] := by
  simp [Simulation.report]

theorem checkGasLimit_spec (h : (acc.checkGasLimit payload).checks = []) :
    acc.checkGasLimit payload = acc ∧ ∀ gas ∈ payload.gasLimit, gas ≤ engineBlockGasLimit := by
  unfold Simulation.checkGasLimit at h ⊢
  split at h
  · rename_i gas hgas
    split_ifs at h ⊢ with hlimit
    · exact absurd h (report_checks _)
    · refine ⟨rfl, fun g hg => ?_⟩
      obtain rfl := Option.some_inj.mp (hgas.symm.trans hg)
      exact UInt64.not_lt.mp hlimit
  · rename_i hgas
    exact ⟨rfl, by simp [hgas]⟩

theorem remainingBalance_checks : (acc.remainingBalance sender address).2.checks = acc.checks := by
  unfold Simulation.remainingBalance
  split <;> rfl

theorem pay_checks (h : (acc.pay payload sender address).checks = []) : acc.checks = [] := by
  unfold Simulation.pay at h
  split at h
  · dsimp only at h
    split_ifs at h
    · exact absurd h (report_checks _)
    · exact remainingBalance_checks.symm.trans h
  · exact h

theorem pay_spec (hR : R.CachingReads) (h : Models db l acc) (ha : addressFromHex sender = some address)
    (hchecks : (acc.pay payload sender address).checks = []) :
    (∀ wei ∈ payloadWei payload, wei ≤ l.balance sender) ∧
      Models db (l.pay payload sender) (acc.pay payload sender address) := by
  unfold Simulation.pay at hchecks ⊢
  split at hchecks
  · rename_i gas price value hgas hprice hvalue
    have hwei : payloadWei payload = some (Simulation.requiredWei gas price value) := by
      simp [payloadWei, hgas, hprice, hvalue]
    obtain ⟨hbalance, hmodels⟩ := remainingBalance_spec hR h ha
    dsimp only at hchecks ⊢
    split_ifs at hchecks ⊢ with hshort
    · exact absurd hchecks (report_checks _)
    · refine ⟨?_, hmodels.reads, ?_, fun other => ?_⟩
      · intro wei hwei'
        obtain rfl := Option.some_inj.mp (hwei.symm.trans hwei')
        exact hbalance ▸ BitVec.not_lt.mp hshort
      · simpa [Ledger.pay, hwei] using hmodels.nonce
      · rw [getD_lookup_insert, funext hmodels.balance, hbalance]
        simp [Ledger.pay, hwei]
  · rename_i hnot
    have hwei : payloadWei payload = none := by
      unfold payloadWei
      rcases hgas : payload.gasLimit with _ | gas
      · rfl
      · rcases hprice : payload.gasPrice with _ | price
        · rfl
        · rcases hvalue : payload.value with _ | value
          · rfl
          · exact absurd hvalue (hnot gas price value hgas hprice)
    refine ⟨by simp [hwei], ?_⟩
    simpa [Ledger.pay, hwei] using h

/-- An entry that raises no check is admitted, and the ledger takes it. -/
theorem spend_spec (hR : R.CachingReads) (h : Models db l acc) (ha : addressFromHex sender = some address)
    (hchecks : (acc.spend payload sender address).checks = []) :
    l.Admits payload sender ∧
      Models db ((l.pay payload sender).advance payload sender) (acc.spend payload sender address) := by
  obtain ⟨hexpected, hmodels⟩ := expectedNonce_spec hR h ha
  unfold Simulation.spend at hchecks ⊢
  dsimp only at hchecks ⊢
  split at hchecks
  · rename_i hnonce
    obtain ⟨hlimit, hgas⟩ := checkGasLimit_spec (pay_checks hchecks)
    rw [hlimit] at hchecks ⊢
    obtain ⟨hbalance, hpaid⟩ := pay_spec hR hmodels ha hchecks
    refine ⟨⟨by simp [hnonce], hgas, hbalance⟩, ?_⟩
    simpa [Ledger.advance, hnonce] using hpaid
  · rename_i nonce hnonce
    split_ifs at hchecks ⊢ with hnext
    · exact absurd hchecks (report_checks _)
    · rw [not_not] at hnext
      obtain ⟨hlimit, hgas⟩ := checkGasLimit_spec (pay_checks hchecks)
      rw [hlimit] at hchecks ⊢
      obtain ⟨hbalance, hpaid⟩ := pay_spec hR hmodels ha hchecks
      refine ⟨⟨?_, hgas, hbalance⟩, hpaid.reads, fun other => ?_, ?_⟩
      · intro n hn
        obtain rfl := Option.some_inj.mp (hnonce.symm.trans hn)
        exact hnext.trans hexpected
      · rw [getD_lookup_insert, funext hpaid.nonce, hexpected]
        simp [Ledger.nonce_advance, hnonce]
      · simpa [Ledger.advance, hnonce] using hpaid.balance

theorem expectedNonce_checks : (acc.expectedNonce sender address).2.checks = acc.checks := by
  unfold Simulation.expectedNonce
  split <;> rfl

theorem spend_checks (h : (acc.spend payload sender address).checks = []) : acc.checks = [] := by
  unfold Simulation.spend at h
  dsimp only at h
  split at h
  · have hlimit := checkGasLimit_spec (pay_checks h)
    exact expectedNonce_checks.symm.trans (hlimit.1 ▸ pay_checks h)
  · split_ifs at h
    · exact absurd h (report_checks _)
    · have hlimit := checkGasLimit_spec (pay_checks h)
      exact expectedNonce_checks.symm.trans (hlimit.1 ▸ pay_checks h)

/-! ### The walk through the payload -/

/-- What the walk makes of an entry: only those of the list that name a sender count. -/
def Ledger.entry (required : List String) (l : Ledger) (payload : EngineTxMeta) : Ledger :=
  if payload.hash ∈ required then
    match payload.from with
    | some sender => (l.pay payload sender).advance payload sender
    | none => l
  else l

theorem models_countGas (h : Models db l acc) (gas : Option UInt64) : Models db l (acc.countGas gas) := by
  cases gas with
  | none => exact ⟨h.reads, h.nonce, h.balance⟩
  | some gas => exact ⟨h.reads, h.nonce, h.balance⟩

theorem countGas_checks (gas : Option UInt64) : (acc.countGas gas).checks = acc.checks := by
  cases gas <;> rfl

/-- Checks are never withdrawn. -/
theorem entry_checks (h : (acc.entry required payload).checks = []) : acc.checks = [] := by
  rw [← countGas_checks payload.gasLimit]
  unfold Simulation.entry at h
  dsimp only at h
  split_ifs at h
  · split at h
    · exact h
    · split at h
      · exact absurd h (report_checks _)
      · exact spend_checks h
  · exact h

theorem entry_spec (hR : R.CachingReads) (h : Models db l acc)
    (hsender : ∀ sender ∈ payload.from, ∃ address, addressFromHex sender = some address)
    (hchecks : (acc.entry required payload).checks = []) :
    (payload.hash ∈ required → ∀ sender ∈ payload.from, l.Admits payload sender) ∧
      Models db (l.entry required payload) (acc.entry required payload) := by
  have hcount := models_countGas h payload.gasLimit
  unfold Simulation.entry at hchecks ⊢
  dsimp only at hchecks ⊢
  split_ifs at hchecks ⊢ with hmem
  · split at hchecks
    · rename_i hfrom
      refine ⟨by simp [hfrom], ?_⟩
      simpa [Ledger.entry, hmem, hfrom] using hcount
    · rename_i sender hfrom
      obtain ⟨address, haddress⟩ := hsender sender hfrom
      simp only [haddress] at hchecks ⊢
      obtain ⟨hadmits, hmodels⟩ := spend_spec hR hcount haddress hchecks
      refine ⟨fun _ other hother => ?_, ?_⟩
      · obtain rfl := Option.some_inj.mp (hfrom.symm.trans hother)
        exact hadmits
      · simpa [Ledger.entry, hmem, hfrom] using hmodels
  · exact ⟨fun h => absurd h hmem, by rwa [Ledger.entry, if_neg hmem]⟩

/-- `f` of an entry, if it is of the list and names the sender. -/
def ofSender {α : Type} (required : List String) (sender : String) (f : EngineTxMeta → Option α)
    (payload : EngineTxMeta) : Option α :=
  if payload.hash ∈ required ∧ payload.from = some sender then f payload else none

theorem entry_nonce (l : Ledger) (payload : EngineTxMeta) (sender : String) :
    (l.entry required payload).nonce sender =
      (ofSender required sender EngineTxMeta.nonce payload).elim (l.nonce sender)
        fun _ => (l.nonce sender).saturatingAdd 1 := by
  unfold Ledger.entry ofSender
  by_cases hmem : payload.hash ∈ required
  · rcases hfrom : payload.from with _ | other
    · simp
    · by_cases hother : other = sender
      · subst hother
        cases hnonce : payload.nonce <;> simp [hmem, Ledger.nonce_advance, hnonce]
      · cases hnonce : payload.nonce <;> simp [hmem, hother, Ne.symm hother, Ledger.nonce_advance, hnonce]
  · simp [hmem]

theorem entry_balance (l : Ledger) (payload : EngineTxMeta) (sender : String) :
    (l.entry required payload).balance sender =
      (ofSender required sender payloadWei payload).elim (l.balance sender) fun wei => l.balance sender - wei := by
  unfold Ledger.entry ofSender
  by_cases hmem : payload.hash ∈ required
  · rcases hfrom : payload.from with _ | other
    · simp
    · by_cases hother : other = sender
      · subst hother
        cases hwei : payloadWei payload <;> simp [hmem, Ledger.balance_pay, hwei]
      · cases hwei : payloadWei payload <;> simp [hmem, hother, Ne.symm hother, Ledger.balance_pay, hwei]
  · simp [hmem]

theorem filterMap_concat {α β : Type} (f : α → Option β) (l : List α) (a : α) :
    (l ++ [a]).filterMap f = l.filterMap f ++ (f a).toList := by
  rw [List.filterMap_append, List.filterMap_cons]
  cases f a <;> simp

/-- The nonces taken so far are consecutive from the account's, and the next one follows them. -/
structure NonceInv (base : Ledger) (required : List String) (done : List EngineTxMeta) (l : Ledger) : Prop where
  consecutive : ∀ sender, (done.filterMap (ofSender required sender EngineTxMeta.nonce)).map UInt64.toNat =
    List.range' (base.nonce sender).toNat (done.filterMap (ofSender required sender EngineTxMeta.nonce)).length
  next : ∀ sender, (l.nonce sender).toNat =
    (base.nonce sender).toNat + (done.filterMap (ofSender required sender EngineTxMeta.nonce)).length

theorem NonceInv.entry {base : Ledger} {done : List EngineTxMeta} (h : NonceInv base required done l)
    (hadmits : payload.hash ∈ required → ∀ sender ∈ payload.from, l.Admits payload sender)
    (hbound : ∀ sender, (base.nonce sender).toNat + (done.length + 1) ≤ UInt64.maxNat) :
    NonceInv base required (done ++ [payload]) (l.entry required payload) := by
  have hlen : ∀ sender, (done.filterMap (ofSender required sender EngineTxMeta.nonce)).length ≤ done.length :=
    fun sender => List.length_filterMap_le ..
  constructor
  all_goals
    intro sender
    rw [filterMap_concat]
    rcases hgate : ofSender required sender EngineTxMeta.nonce payload with _ | nonce
  · simpa using h.consecutive sender
  · unfold ofSender at hgate
    split_ifs at hgate with hnamed
    have hnonce := (hadmits hnamed.1 sender hnamed.2).nonce nonce hgate
    rw [Option.toList_some, List.map_append, h.consecutive sender, List.length_append, List.length_singleton,
      List.range'_concat, List.map_singleton, hnonce, h.next sender]
    simp
  · rw [entry_nonce, hgate]
    simpa using h.next sender
  · rw [entry_nonce, hgate]
    have := hlen sender
    have := hbound sender
    have := h.next sender
    simp only [Option.elim_some, UInt64.toNat_saturatingAdd, Option.toList_some, List.length_append,
      List.length_singleton, UInt64.toNat_one]
    omega

/-- What is left is what the account has less what was spent. -/
def BalanceInv (base : Ledger) (required : List String) (done : List EngineTxMeta) (l : Ledger) : Prop :=
  ∀ sender, (l.balance sender).toNat + ((done.filterMap (ofSender required sender payloadWei)).map BitVec.toNat).sum =
    (base.balance sender).toNat

theorem BalanceInv.entry {base : Ledger} {done : List EngineTxMeta} (h : BalanceInv base required done l)
    (hadmits : payload.hash ∈ required → ∀ sender ∈ payload.from, l.Admits payload sender) :
    BalanceInv base required (done ++ [payload]) (l.entry required payload) := by
  intro sender
  rw [filterMap_concat, entry_balance]
  have hsender := h sender
  rcases hgate : ofSender required sender payloadWei payload with _ | wei
  · simpa using hsender
  · unfold ofSender at hgate
    split_ifs at hgate with hnamed
    have hwei := (hadmits hnamed.1 sender hnamed.2).balance wei hgate
    simp only [Option.elim_some, Option.toList_some, List.map_append, List.map_singleton, List.sum_append,
      List.sum_singleton]
    rw [BitVec.toNat_sub_of_le hwei]
    have := BitVec.le_def.mp hwei
    omega

/-- What the walk through a payload has found when it raised no check. -/
structure Walked (base : Ledger) (required : List String) (done : List EngineTxMeta) (l : Ledger) : Prop where
  nonces : NonceInv base required done l
  balances : BalanceInv base required done l
  gas : ∀ payload ∈ done, payload.hash ∈ required → payload.from.isSome → ∀ gas ∈ payload.gasLimit,
    gas ≤ engineBlockGasLimit

theorem walk_spec (hR : R.CachingReads) {entries : List EngineTxMeta} {checks : List String}
    (hsender : ∀ payload ∈ entries, ∀ sender ∈ payload.from, ∃ address, addressFromHex sender = some address)
    (hbound : ∀ sender, ((accounts R db).nonce sender).toNat + entries.length ≤ UInt64.maxNat)
    (hchecks : (entries.foldl (fun acc payload => acc.entry required payload)
      (Simulation.start R db checks)).checks = []) :
    checks = [] ∧ ∃ l, Walked (accounts R db) required entries l ∧
      Models db l (entries.foldl (fun acc payload => acc.entry required payload) (Simulation.start R db checks)) := by
  induction entries using List.reverseRecOn with
  | nil =>
    refine ⟨hchecks, accounts R db, ⟨⟨?_, ?_⟩, ?_, ?_⟩, models_start db checks⟩
    · intro sender
      rfl
    · intro sender
      rfl
    · intro sender
      simp
    · simp
  | append_singleton done payload ih =>
    rw [List.foldl_append] at hchecks ⊢
    simp only [List.foldl_cons, List.foldl_nil] at hchecks ⊢
    simp only [List.length_append, List.length_singleton] at hbound
    have hpayload := hsender payload (by simp)
    have hpre := entry_checks hchecks
    obtain ⟨hnone, l, hwalked, hmodels⟩ := ih (fun p hp => hsender p (by simp [hp]))
      (fun sender => (Nat.le_succ _).trans (hbound sender)) hpre
    obtain ⟨hadmits, hmodels'⟩ := entry_spec hR hmodels hpayload hchecks
    refine ⟨hnone, l.entry required payload, ⟨hwalked.nonces.entry hadmits hbound, hwalked.balances.entry hadmits, ?_⟩,
      hmodels'⟩
    intro p hp hmem hsome gas hgas
    rcases List.mem_append.mp hp with hp | hp
    · exact hwalked.gas p hp hmem hsome gas hgas
    · obtain rfl := List.mem_singleton.mp hp
      obtain ⟨sender, hfrom⟩ := Option.isSome_iff_exists.mp hsome
      exact (hadmits hmem sender hfrom).gas gas hgas

/-! ### The gas of the payload -/

def counters (acc : Simulation R.Db) : UInt64 × ℕ := (acc.totalKnownGas, acc.unknownGasCount)

theorem counters_checkGasLimit : counters (acc.checkGasLimit payload) = counters acc := by
  unfold Simulation.checkGasLimit
  split
  · split_ifs <;> rfl
  · rfl

theorem counters_pay : counters (acc.pay payload sender address) = counters acc := by
  have hread : counters (acc.remainingBalance sender address).2 = counters acc := by
    unfold Simulation.remainingBalance
    split <;> rfl
  unfold Simulation.pay
  split
  · dsimp only
    split_ifs <;> exact hread
  · rfl

theorem counters_spend : counters (acc.spend payload sender address) = counters acc := by
  have hread : counters (acc.expectedNonce sender address).2 = counters acc := by
    unfold Simulation.expectedNonce
    split <;> rfl
  have hpaid : counters (((acc.expectedNonce sender address).2.checkGasLimit payload).pay payload sender address) =
      counters acc := counters_pay.trans (counters_checkGasLimit.trans hread)
  unfold Simulation.spend
  dsimp only
  split
  · exact hpaid
  · split_ifs
    · exact hread
    · exact hpaid

theorem counters_entry : counters (acc.entry required payload) = counters (acc.countGas payload.gasLimit) := by
  unfold Simulation.entry
  dsimp only
  split_ifs
  · split
    · rfl
    · split
      · rfl
      · exact counters_spend
  · rfl

/-- The gas an entry states. -/
def gasOf (entries : List EngineTxMeta) : List ℕ := entries.filterMap fun e => e.gasLimit.map UInt64.toNat

theorem counters_walk (required : List String) (start : Simulation R.Db) (hstart : counters start = (0, 0)) (entries : List EngineTxMeta) :
    let acc := entries.foldl (fun acc payload => acc.entry required payload) start
    acc.totalKnownGas.toNat = min (gasOf entries).sum UInt64.maxNat ∧
      acc.unknownGasCount = entries.countP fun e => e.gasLimit.isNone := by
  induction entries using List.reverseRecOn with
  | nil =>
    obtain ⟨htotal, hunknown⟩ := Prod.mk.inj hstart
    simp [htotal, hunknown, gasOf]
  | append_singleton entries payload ih =>
    obtain ⟨htotal, hunknown⟩ := ih
    rw [List.foldl_append]
    simp only [List.foldl_cons, List.foldl_nil]
    generalize entries.foldl (fun acc payload => acc.entry required payload) start = acc at htotal hunknown ⊢
    have hcounters : counters (acc.entry required payload) = counters (acc.countGas payload.gasLimit) := counters_entry
    obtain ⟨htotal', hunknown'⟩ := Prod.mk.inj hcounters
    rw [htotal', hunknown', gasOf, filterMap_concat, List.sum_append, List.countP_append, ← gasOf]
    rcases hgas : payload.gasLimit with _ | gas
    · simp [Simulation.countGas, hgas, htotal, hunknown]
    · simp [Simulation.countGas, hgas, htotal, hunknown]
      omega

/-! ### What the node answers `VALID` to -/

theorem fieldCheck_eq_nil {α : Type} [DecidableEq α] {hash field : String} {text : α → String}
    {required payload : Option α} :
    fieldCheck hash field text required payload = [] ↔ ∀ value ∈ required, payload = some value := by
  unfold fieldCheck
  rcases required with _ | required
  · simp
  · rcases payload with _ | payload
    · simp
    · simp [eq_comm]

/-- Each field the list gives is the payload's. -/
structure MatchesGiven (required payload : EngineTxMeta) : Prop where
  sender : ∀ sender ∈ required.from, payload.from = some sender
  nonce : ∀ nonce ∈ required.nonce, payload.nonce = some nonce
  gasLimit : ∀ gas ∈ required.gasLimit, payload.gasLimit = some gas
  gasPrice : ∀ price ∈ required.gasPrice, payload.gasPrice = some price
  value : ∀ value ∈ required.value, payload.value = some value

theorem metaChecks_eq_nil {hash : String} {required payload : EngineTxMeta} :
    metaChecks hash required payload = [] ↔ MatchesGiven required payload := by
  simp only [metaChecks, List.append_eq_nil_iff, fieldCheck_eq_nil]
  constructor
  · rintro ⟨⟨⟨⟨hsender, hnonce⟩, hgas⟩, hprice⟩, hvalue⟩
    exact ⟨hsender, hnonce, hgas, hprice, hvalue⟩
  · rintro ⟨hsender, hnonce, hgas, hprice, hvalue⟩
    exact ⟨⟨⟨⟨hsender, hnonce⟩, hgas⟩, hprice⟩, hvalue⟩

variable {env : EngineEnv} {s s' : NodeState R.Db} {req answer : Json} {entries : List EngineTxMeta}

theorem answered_newPayload {status other : String} {latestValidHash validationError timeliness penalty : Json}
    (h : Answered (.object [("status", .string status), ("latestValidHash", latestValidHash),
      ("validationError", validationError), ("timeliness", timeliness), ("penalty", penalty)]) other) :
    status = other := by
  simpa [Answered, Engine7732.HasStatus, Json.get, Json.asObject, List.lookup_cons] using h

theorem newPayload_valid (h : newPayloadResponse env R s req = .ok (answer, s')) (hvalid : Answered answer "VALID")
    (hentries : collectPayloadTransactionEntries req = .ok entries) :
    (judge env s (npSlot R s req) ((currentUnixS req).getD env.now)).status.isViolation = false ∧
      missingTxs R s entries = [] ∧
      (s.engineFocilViewFrozen = true → ∀ frozen ∈ s.engineFocilFrozenSlot, npSlot R s req = frozen) ∧
      (simulate R s entries).checks = [] := by
  unfold newPayloadResponse at h
  obtain ⟨entries', hentries', h⟩ := except_bind_eq_ok.mp h
  obtain rfl := Except.ok.inj (hentries.symm.trans hentries')
  obtain ⟨penalties, hstate⟩ := judge_state env s (npSlot R s req) ((currentUnixS req).getD env.now)
  dsimp only at h
  rw [hstate] at h
  split at h
  · obtain ⟨rfl, -⟩ := Prod.mk.inj (Except.ok.inj h)
    exact absurd (answered_newPayload hvalid) (by decide)
  · rename_i htimely
    split at h
    · obtain ⟨rfl, -⟩ := Prod.mk.inj (Except.ok.inj h)
      exact absurd (answered_newPayload hvalid) (by decide)
    · rename_i hmissing
      split at h
      · obtain ⟨rfl, -⟩ := Prod.mk.inj (Except.ok.inj h)
        exact absurd (answered_newPayload hvalid) (by decide)
      · rename_i hfrozen
        split at h
        · rename_i hchecks
          refine ⟨by simpa using htimely, not_not.mp hmissing, fun hview frozen hslot => ?_, hchecks⟩
          have hslot : s.engineFocilFrozenSlot = some frozen := hslot
          simp only [Option.filter_eq_none_iff, hview, Bool.true_and, bne_iff_ne, ne_eq, not_not] at hfrozen
          exact hfrozen frozen hslot
        · obtain ⟨rfl, -⟩ := Prod.mk.inj (Except.ok.inj h)
          exact absurd (answered_newPayload hvalid) (by decide)

/-- The exact cost of an entry. -/
def exactCost (payload : EngineTxMeta) : Option ℕ := do
  return (← payload.gasLimit).toNat * (← payload.gasPrice).toNat + (← payload.value).toNat

/-- `f` of the entries of the list that name the account as their sender, in the order of the payload. -/
def ofAccount {α : Type} (required : List String) (a : Address) (f : EngineTxMeta → Option α)
    (entries : List EngineTxMeta) : List α :=
  entries.filterMap fun payload =>
    if payload.hash ∈ required ∧ payload.from.bind addressFromHex = some a then f payload else none

/-- What the answer `VALID` should mean. -/
structure Sound (R : Revm) (env : EngineEnv) (s : NodeState R.Db) (req : Json) (entries : List EngineTxMeta) :
    Prop where
  included : ∀ hash ∈ s.engineRequiredIlTxs, hash ∈ entries.map EngineTxMeta.hash
  details : ∀ hash ∈ s.engineRequiredIlTxs, ∀ required ∈ s.engineRequiredIlMeta.lookup hash,
    ∀ payload ∈ entries, payload.hash = hash → MatchesGiven required payload
  frozen : s.engineFocilViewFrozen = true → ∀ slot ∈ s.engineFocilFrozenSlot, npSlot R s req = slot
  timely : (Engine7732.slotStatus env s (npSlot R s req)
    ((currentUnixS req).getD env.now)).aggregateStatus.isViolation = false
  nonces : ∀ a, (ofAccount s.engineRequiredIlTxs a EngineTxMeta.nonce entries).map UInt64.toNat =
    List.range' (accountNonceFromDb R s.evmDb a).1.toNat
      (ofAccount s.engineRequiredIlTxs a EngineTxMeta.nonce entries).length
  balances : ∀ a, (ofAccount s.engineRequiredIlTxs a exactCost entries).sum ≤
    (accountBalanceFromDb R s.evmDb a).1.toNat
  gas : ∀ payload ∈ entries, payload.hash ∈ s.engineRequiredIlTxs → ∀ gas ∈ payload.gasLimit,
    gas ≤ engineBlockGasLimit
  total : s.engineRequiredIlTxs ≠ [] → (∀ payload ∈ entries, payload.gasLimit.isSome) →
    (gasOf entries).sum ≤ engineBlockGasLimit.toNat

/-- No entry of the list that names a sender costs `2 ^ 256` or more. -/
def NoWrap (required : List String) (entries : List EngineTxMeta) : Prop :=
  ∀ payload ∈ entries, payload.hash ∈ required → payload.from.isSome →
    ∀ cost ∈ exactCost payload, cost < 2 ^ 256

/-- No entry of the list that names no sender states more gas than a block has. -/
def AnonymousGasFits (required : List String) (entries : List EngineTxMeta) : Prop :=
  ∀ payload ∈ entries, payload.hash ∈ required → payload.from = none →
    ∀ gas ∈ payload.gasLimit, gas ≤ engineBlockGasLimit

instance (required : List String) (entries : List EngineTxMeta) : Decidable (NoWrap required entries) :=
  inferInstanceAs (Decidable (∀ payload ∈ entries, payload.hash ∈ required → payload.from.isSome →
    ∀ cost ∈ exactCost payload, cost < 2 ^ 256))

instance (required : List String) (entries : List EngineTxMeta) : Decidable (AnonymousGasFits required entries) :=
  inferInstanceAs (Decidable (∀ payload ∈ entries, payload.hash ∈ required → payload.from = none →
    ∀ gas ∈ payload.gasLimit, gas ≤ engineBlockGasLimit))

theorem payloadWei_eq (payload : EngineTxMeta) : payloadWei payload = (exactCost payload).map (BitVec.ofNat 256) := by
  unfold payloadWei exactCost
  rcases payload.gasLimit with _ | gas
  · rfl
  · rcases payload.gasPrice with _ | price
    · rfl
    · rcases payload.value with _ | value
      · rfl
      · refine congrArg some (BitVec.eq_of_toNat_eq ?_)
        simp [Simulation.requiredWei, BitVec.toNat_add, BitVec.toNat_mul, BitVec.toNat_ofNat]

/-- The entries that name an account are those that name its text. -/
theorem ofAccount_eq {α : Type} (hentries : WellFormed entries) (required : List String) (a : Address)
    (f : EngineTxMeta → Option α) :
    ofAccount required a f entries = entries.filterMap (ofSender required (bytesToHex a.toList) f) := by
  refine List.filterMap_congr fun payload hpayload => ?_
  have hnames : payload.from.bind addressFromHex = some a ↔ payload.from = some (bytesToHex a.toList) := by
    constructor
    · intro h
      obtain ⟨sender, hsender, haddress⟩ := Option.bind_eq_some_iff.mp h
      obtain ⟨input, hinput⟩ := hentries.sender payload hpayload sender hsender
      obtain ⟨address, haddress', htext⟩ := addressFromHex_canonical hinput
      obtain rfl := Option.some_inj.mp (haddress.symm.trans haddress')
      rw [hsender, htext]
    · intro h
      rw [h, Option.bind_some, addressFromHex_bytesToHex]
  unfold ofSender
  simp only [hnames]

theorem accounts_bytesToHex (a : Address) :
    (accounts R db).nonce (bytesToHex a.toList) = (accountNonceFromDb R db a).1 ∧
      (accounts R db).balance (bytesToHex a.toList) = (accountBalanceFromDb R db a).1 := by
  simp [accounts, addressFromHex_bytesToHex]

theorem details_of_listChecks (hentries : WellFormed entries) (h : listChecks R s entries = []) :
    ∀ hash ∈ s.engineRequiredIlTxs, ∀ required ∈ s.engineRequiredIlMeta.lookup hash,
      ∀ payload ∈ entries, payload.hash = hash → MatchesGiven required payload := by
  intro hash hmem required hrequired payload hpayload hhash
  have hlookup := (lookup_metaByHash hentries.nodup).mpr ⟨hpayload, hhash⟩
  have hchecks := List.flatMap_eq_nil_iff.mp h hash hmem
  have hrequired : s.engineRequiredIlMeta.lookup hash = some required := hrequired
  simp only [hrequired, hlookup] at hchecks
  exact metaChecks_eq_nil.mp hchecks

/-- The walk behind an empty list of checks, and the check of the whole payload after it. -/
theorem simulate_checks (h : (simulate R s entries).checks = []) :
    (entries.foldl (fun acc payload => acc.entry s.engineRequiredIlTxs payload)
      (Simulation.start R s.evmDb (listChecks R s entries))).checks = [] ∧
    (entries ≠ [] → s.engineRequiredIlTxs ≠ [] → (∀ payload ∈ entries, payload.gasLimit.isSome) →
      (gasOf entries).sum ≤ engineBlockGasLimit.toNat) := by
  obtain ⟨htotal, hunknown⟩ := counters_walk s.engineRequiredIlTxs
    (Simulation.start R s.evmDb (listChecks R s entries)) rfl entries
  unfold simulate at h
  dsimp only at h
  split_ifs at h with hover
  · exact absurd h (report_checks _)
  · refine ⟨h, fun hne hlist hall => ?_⟩
    have hzero : entries.countP (fun e => e.gasLimit.isNone) = 0 := by
      rw [List.countP_eq_zero]
      intro payload hpayload
      simpa [Option.isSome_iff_ne_none] using hall payload hpayload
    by_contra hsum
    refine hover ⟨hunknown.trans hzero, hne, ?_, hlist⟩
    rw [UInt64.lt_iff_toNat_lt, htotal]
    have : engineBlockGasLimit.toNat < UInt64.maxNat := by decide
    omega

theorem included_of_missing (h : missingTxs R s entries = []) :
    ∀ hash ∈ s.engineRequiredIlTxs, hash ∈ entries.map EngineTxMeta.hash := by
  intro hash hhash
  have := List.filter_eq_nil_iff.mp h hash hhash
  simpa using this

/-- Without a wrap the node takes the entries to cost what they do. -/
theorem sum_payloadWei {required : List String} {sender : String} (h : NoWrap required entries) :
    ((entries.filterMap (ofSender required sender payloadWei)).map BitVec.toNat).sum =
      (entries.filterMap (ofSender required sender exactCost)).sum := by
  rw [List.map_filterMap]
  refine congrArg List.sum (List.filterMap_congr fun payload hpayload => ?_)
  unfold ofSender
  split_ifs with hnamed
  · rw [payloadWei_eq, Option.map_map]
    rcases hcost : exactCost payload with _ | cost
    · rfl
    · have hsmall := h payload hpayload hnamed.1 (by simp [hnamed.2]) cost hcost
      exact congrArg some (Nat.mod_eq_of_lt hsmall)
  · rfl

theorem new_payload_sound_iff (R : Revm) (hR : R.CachingReads) (env : EngineEnv) (s s' : NodeState R.Db)
    (req answer : Json) (h : newPayloadResponse env R s req = .ok (answer, s')) (hvalid : Answered answer "VALID")
    (entries : List EngineTxMeta) (hentries : collectPayloadTransactionEntries req = .ok entries)
    (hnonce : ∀ a, (accountNonceFromDb R s.evmDb a).1.toNat + entries.length ≤ UInt64.maxNat) :
    Sound R env s req entries ↔
      NoWrap s.engineRequiredIlTxs entries ∧ AnonymousGasFits s.engineRequiredIlTxs entries := by
  have hwf := wellFormed_payloadEntries hentries
  constructor
  · intro hsound
    refine ⟨?_, fun payload hpayload hmem _ gas hgas => hsound.gas payload hpayload hmem gas hgas⟩
    intro payload hpayload hmem hsome cost hcost
    obtain ⟨sender, hsender⟩ := Option.isSome_iff_exists.mp hsome
    obtain ⟨input, hinput⟩ := hwf.sender payload hpayload sender hsender
    obtain ⟨a, ha, -⟩ := addressFromHex_canonical hinput
    have hin : cost ∈ ofAccount s.engineRequiredIlTxs a exactCost entries :=
      List.mem_filterMap.mpr ⟨payload, hpayload, by simpa [hmem, hsender, ha] using hcost⟩
    calc cost ≤ (ofAccount s.engineRequiredIlTxs a exactCost entries).sum := List.le_sum_of_mem hin
      _ ≤ (accountBalanceFromDb R s.evmDb a).1.toNat := hsound.balances a
      _ < 2 ^ 256 := BitVec.isLt _
  · rintro ⟨hnowrap, hanonymous⟩
    obtain ⟨htimely, hmissing, hfrozen, hchecks⟩ := newPayload_valid h hvalid hentries
    obtain ⟨hwalk, htotal⟩ := simulate_checks hchecks
    have hbound : ∀ sender, ((accounts R s.evmDb).nonce sender).toNat + entries.length ≤ UInt64.maxNat := by
      intro sender
      rcases hsender : addressFromHex sender with _ | a
      · have := hnonce FixedBytes.zero
        simp only [accounts, hsender, Option.map_none, Option.getD_none, UInt64.toNat_zero]
        omega
      · simpa [accounts, hsender] using hnonce a
    have hsenders : ∀ payload ∈ entries, ∀ sender ∈ payload.from, ∃ address, addressFromHex sender = some address := by
      intro payload hpayload sender hsender
      obtain ⟨input, hinput⟩ := hwf.sender payload hpayload sender hsender
      obtain ⟨a, ha, -⟩ := addressFromHex_canonical hinput
      exact ⟨a, ha⟩
    obtain ⟨hlist, l, hwalked, -⟩ := walk_spec hR hsenders hbound hwalk
    refine ⟨included_of_missing hmissing, details_of_listChecks hwf hlist, hfrozen, htimely, fun a => ?_, fun a => ?_,
      fun payload hpayload hmem gas hgas => ?_, fun hne hall => htotal ?_ hne hall⟩
    · rw [ofAccount_eq hwf, ← (accounts_bytesToHex a).1]
      exact hwalked.nonces.consecutive _
    · rw [ofAccount_eq hwf, ← (accounts_bytesToHex a).2, ← hwalked.balances (bytesToHex a.toList),
        sum_payloadWei hnowrap]
      exact Nat.le_add_left ..
    · rcases hfrom : payload.from with _ | sender
      · exact hanonymous payload hpayload hmem hfrom gas hgas
      · exact hwalked.gas payload hpayload hmem (by simp [hfrom]) gas hgas
    · rintro rfl
      obtain ⟨hash, hhash⟩ := List.exists_mem_of_ne_nil _ hne
      exact absurd (included_of_missing hmissing hash hhash) (by simp)

/-! ### Payloads -/

def otherTx : String := "0xcdcdcdcdcdcdcdcdcdcdcdcdcdcdcdcdcdcdcdcdcdcdcdcdcdcdcdcdcdcdcdcd"

/-- A node with one account, of nonce 5 and one ether, and the list of the two transactions. -/
def listNode (txs : List String) : NodeState accountsOnly.Db :=
  replaceList oneListEnv
    { buildState accountsOnly 2077001 1772409600 with
      evmDb := [(.repeatByte 0x22, { accountsOnly.defaultInfo with balance := 1000000000000000000, nonce := 5 })] }
    42 (txs.map fun tx => { hash := tx })

def payloadRequest (items : List Json) : Json := .object [("transactions", .array items)]

def transfer (hash : String) (nonce : Int) (value : String) : Json :=
  .object
    [("hash", .string hash), ("from", .string poorSender), ("nonce", .number nonce), ("gas", .number 21000),
      ("gasPrice", .number 1), ("value", .string value)]

theorem accountsOnly_cachingReads : accountsOnly.CachingReads := fun _ _ _ => rfl

theorem listNode_nonce (txs : List String) (a : Address) :
    (accountNonceFromDb accountsOnly (listNode txs).evmDb a).1.toNat ≤ 5 := by
  by_cases h : a = .repeatByte 0x22
  · subst h
    exact Nat.le_refl 5
  · have hne : (a == FixedBytes.repeatByte 0x22) = false := beq_false_of_ne h
    simp [accountNonceFromDb, accountsOnly, listNode, replaceList, List.lookup_cons, hne, Except.toOption]

def transferEntry (hash : String) (nonce : UInt64) (value : U256) : EngineTxMeta :=
  ⟨hash, some poorSender, some nonce, some 21000, some 1, some value⟩

/-- Two transfers of one account, in the order of their nonces. -/
theorem new_payload_sound_iff_transfers :
    ∃ answer s', newPayloadResponse oneListEnv accountsOnly (listNode [someTx, otherTx])
        (payloadRequest [transfer someTx 5 "0x1", transfer otherTx 6 "0x2"]) = .ok (answer, s') ∧
      Answered answer "VALID" ∧
      Sound accountsOnly oneListEnv (listNode [someTx, otherTx])
        (payloadRequest [transfer someTx 5 "0x1", transfer otherTx 6 "0x2"])
        [transferEntry someTx 5 1, transferEntry otherTx 6 2] := by
  refine ⟨_, _, rfl, rfl, (new_payload_sound_iff accountsOnly accountsOnly_cachingReads oneListEnv _ _ _ _ rfl
    (by rfl) [transferEntry someTx 5 1, transferEntry otherTx 6 2] (by rfl) ?_).mpr ⟨by decide, by decide⟩⟩
  intro a
  have := listNode_nonce [someTx, otherTx] a
  simp only [List.length_cons, List.length_nil, UInt64.maxNat]
  omega

/-- `2 ^ 256 - 21000` wei, which the price of the gas brings to `2 ^ 256`. -/
def hugeValue : String := "0xffffffffffffffffffffffffffffffffffffffffffffffffffffffffffffadf8"

/-- A transfer of nearly `2 ^ 256` wei by an account of one ether, and a transaction of more gas than a block
has whose sender is left out: both payloads are answered `VALID`. -/
theorem unsound_payloads_valid :
    (∃ answer s', newPayloadResponse oneListEnv accountsOnly (listNode [someTx])
        (payloadRequest [transfer someTx 5 hugeValue]) = .ok (answer, s') ∧
      Answered answer "VALID" ∧
      collectPayloadTransactionEntries (payloadRequest [transfer someTx 5 hugeValue]) =
        .ok [transferEntry someTx 5 (BitVec.ofNat 256 (2 ^ 256 - 21000))] ∧
      (ofAccount [someTx] (.repeatByte 0x22) exactCost
        [transferEntry someTx 5 (BitVec.ofNat 256 (2 ^ 256 - 21000))]).sum = 2 ^ 256 ∧
      ¬ Sound accountsOnly oneListEnv (listNode [someTx]) (payloadRequest [transfer someTx 5 hugeValue])
        [transferEntry someTx 5 (BitVec.ofNat 256 (2 ^ 256 - 21000))]) ∧
    (∃ answer s', newPayloadResponse oneListEnv accountsOnly (listNode [someTx])
        (payloadRequest [.object [("hash", .string someTx), ("gas", .number 30000001)], .string otherTx]) =
          .ok (answer, s') ∧
      Answered answer "VALID" ∧
      ¬ Sound accountsOnly oneListEnv (listNode [someTx])
        (payloadRequest [.object [("hash", .string someTx), ("gas", .number 30000001)], .string otherTx])
        [{ hash := someTx, gasLimit := some 30000001 }, { hash := otherTx }]) := by
  refine ⟨⟨_, _, rfl, rfl, rfl, by decide, fun h => ?_⟩, ⟨_, _, rfl, rfl, fun h => ?_⟩⟩
  · exact absurd (h.balances (.repeatByte 0x22)) (by decide)
  · exact absurd (h.gas { hash := someTx, gasLimit := some 30000001 } (by simp) (by decide) 30000001 rfl) (by decide)

end Focil

end Eth2077
