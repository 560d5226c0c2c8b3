import Eth2077.Oob.EngineSpec

/-!
# The lock invariant of one engine

`ConsensusEngine.Inv` holds in every state reachable by `start_height`, `on_message` and
`on_timeout`, for every validator set: a lock is backed by stored prevotes of quorum weight, and the
fast path only knows attesters whose prevote of the current round is stored. `lock_and_finality`
collects what follows for the emitted events.
-/

namespace Eth2077
namespace ConsensusEngine

variable {e e' : ConsensusEngine} {ord : TallyOrder} {msg : ConsensusMessage} {evs : List ConsensusEvent}
  {vs : ValidatorSet} {cfg : FastPathConfig} {c : Call} {r : UInt32} {h : B256}

/-! ### Frame lemmas -/

theorem MessageStep.validatorSet_eq (hs : MessageStep e msg e' evs) : e'.validatorSet = e.validatorSet := by
  cases hs <;> rfl

theorem MessageStep.height_eq (hs : MessageStep e msg e' evs) : e'.state.height = e.state.height := by
  cases hs <;> rfl

theorem MessageStep.round_eq (hs : MessageStep e msg e' evs) : e'.state.round = e.state.round := by
  cases hs <;> rfl

theorem onMessage_of_committed (hc : e.state.step = .committed) : e.onMessage ord msg = (e, []) := if_pos hc

theorem onTimeout_of_committed (hc : e.state.step = .committed) : e.onTimeout = (e, []) := if_pos hc

def Call.isStart : Call → Bool
  | .startHeight _ => true
  | _ => false

theorem CallStep.validatorSet_eq (hs : CallStep e c e' evs) : e'.validatorSet = e.validatorSet := by
  cases hs with
  | message ord msg step => exact step.validatorSet_eq
  | start | late | timeout => rfl

theorem CallStep.height_eq (hs : CallStep e c e' evs) (hn : c.isStart = false) :
    e'.state.height = e.state.height := by
  cases hs with
  | start => cases hn
  | message ord msg step => exact step.height_eq
  | late | timeout => rfl

@[simp] theorem call_validatorSet (e : ConsensusEngine) (c : Call) :
    (e.call c).1.validatorSet = e.validatorSet := (e.call_step c).validatorSet_eq

@[simp] theorem after_validatorSet (e : ConsensusEngine) (cs : List Call) :
    (e.after cs).validatorSet = e.validatorSet := by
  induction cs generalizing e with
  | nil => rfl
  | cons c cs ih => rw [after_cons, ih, call_validatorSet]

/-- Every call of the run meets `P` in the state it is made in. -/
def AllCalls (P : ConsensusEngine → Call → Prop) (e : ConsensusEngine) : List Call → Prop
  | [] => True
  | c :: cs => P e c ∧ AllCalls P (e.call c).1 cs

theorem allCalls_append {P : ConsensusEngine → Call → Prop} {cs cs' : List Call} :
    AllCalls P e (cs ++ cs') ↔ AllCalls P e cs ∧ AllCalls P (e.after cs) cs' := by
  induction cs generalizing e with
  | nil => simp [AllCalls]
  | cons c cs ih => simp [AllCalls, ih, and_assoc]

theorem allCalls_concat {P : ConsensusEngine → Call → Prop} {cs : List Call} {c : Call} :
    AllCalls P e (cs ++ [c]) ↔ AllCalls P e cs ∧ P (e.after cs) c := by
  rw [allCalls_append]; simp [AllCalls]

/-! ### Stored prevotes persist until the next height -/

theorem PrevotesReach.mono (hq : e.PrevotesReach r h) (hvs : e'.validatorSet = e.validatorSet)
    (hsub : e.state.prevotes.voters r h ⊆ e'.state.prevotes.voters r h) : e'.PrevotesReach r h := by
  unfold PrevotesReach at hq ⊢
  rw [hvs]
  exact hq.trans (e.validatorSet.weights.of_mono hsub)

theorem MessageStep.voters_subset (hs : MessageStep e msg e' evs) (r : UInt32) (h : B256) :
    e.state.prevotes.voters r h ⊆ e'.state.prevotes.voters r h := by
  cases hs with
  | ignored | proposal | precommit | commit => exact Finset.Subset.refl _
  | prevote b v _ fresh | lock b v q _ fresh | relock b v q _ fresh | fastFinalize b v p _ fresh =>
    exact Votes.voters_subset_insert fresh r h

theorem MessageStep.prevotesReach (hs : MessageStep e msg e' evs) (hq : e.PrevotesReach r h) :
    e'.PrevotesReach r h :=
  hq.mono hs.validatorSet_eq (hs.voters_subset r h)

theorem CallStep.prevotesReach (hs : CallStep e c e' evs) (hn : c.isStart = false)
    (hq : e.PrevotesReach r h) : e'.PrevotesReach r h := by
  cases hs with
  | start => cases hn
  | message ord msg step => exact step.prevotesReach hq
  | late | timeout => exact hq

/-! ### The invariant -/

def HasPrevote (e : ConsensusEngine) (i : UInt64) (b : B256) : Prop :=
  e.state.prevotes.lookup (e.state.round, i) = some (some b)

structure Inv (e : ConsensusEngine) : Prop where
  /-- The two halves of the lock are set together. -/
  pair : e.state.lockedHash.isSome = e.state.lockedRound.isSome
  le_round : ∀ r, e.state.lockedRound = some r → r.toNat ≤ e.state.round.toNat
  quorum : ∀ r h, e.LockedOn r h → e.PrevotesReach r h
  fast : e.fastPath.Ok e.HasPrevote

theorem Inv.of_unlocked (h1 : e.state.lockedRound = none) (h2 : e.state.lockedHash = none)
    (hf : e.fastPath.Ok e.HasPrevote) : Inv e where
  pair := by rw [h1, h2]; rfl
  le_round r hr := by rw [h1] at hr; cases hr
  quorum r h hl := by rw [LockedOn, h1] at hl; cases hl.1
  fast := hf

theorem inv_new (vs : ValidatorSet) (cfg : FastPathConfig) : Inv (new vs cfg) :=
  .of_unlocked rfl rfl (.new _ _)

theorem inv_startHeight (e : ConsensusEngine) (height : UInt64) : Inv (e.startHeight height).1 :=
  .of_unlocked rfl rfl (.reset _ _)

/-- An attester of the current round has its prevote stored, so a voter that is new to the round is
new to the fast path. -/
theorem Inv.attester_ne (hi : Inv e) {v : UInt64} (fresh : (e.state.round, v) ∉ e.state.prevotes)
    (hc : e.fastPath.conflictDetected = false) : ∀ x ∈ e.fastPath.attestations, x.attesterIndex ≠ v := by
  rintro x hx rfl
  have hx := hi.fast.voted hc x hx
  exact fresh (mem_iff_exists_lookup.mpr ⟨_, hx⟩)

theorem hasPrevote_storePrevote {b : Option B256} {v i : UInt64} {h : B256}
    (fresh : (e.state.round, v) ∉ e.state.prevotes) (hp : e.HasPrevote i h) :
    (e.storePrevote b v).HasPrevote i h := Votes.lookup_insert_of_lookup fresh hp

theorem hasPrevote_storePrevote_self (h : B256) (v : UInt64) :
    (e.storePrevote (some h) v).HasPrevote v h := AList.lookup_insert _

theorem Inv.fast_storePrevote (hi : Inv e) {b : Option B256} {v : UInt64}
    (fresh : (e.state.round, v) ∉ e.state.prevotes) :
    (e.storePrevote b v).fastPath.Ok (e.storePrevote b v).HasPrevote := by
  have hold : e.fastPath.Ok (e.storePrevote b v).HasPrevote :=
    hi.fast.mono fun i h hp => hasPrevote_storePrevote fresh hp
  cases b with
  | none => exact hold
  | some h =>
    cases hc : e.fastPath.conflictDetected with
    | true =>
      have : (e.storePrevote (some h) v).fastPath = e.fastPath := by
        simp [storePrevote, attest, FastPathAccumulator.addAttestation, hc]
      rw [this]; exact .of_conflict hc
    | false => exact hold.addAttestation (hasPrevote_storePrevote_self h v) (hi.attester_ne fresh hc)

theorem Inv.storePrevote (hi : Inv e) {b : Option B256} {v : UInt64}
    (fresh : (e.state.round, v) ∉ e.state.prevotes) : Inv (e.storePrevote b v) where
  pair := hi.pair
  le_round := hi.le_round
  quorum r h hl := (hi.quorum r h hl).mono rfl (Votes.voters_subset_insert fresh r h)
  fast := hi.fast_storePrevote fresh

theorem Inv.lockOn (hi : Inv e) {q : B256} (hq : e.PrevotesReach e.state.round q) : Inv (e.lockOn q) where
  pair := rfl
  le_round r hr := by cases hr; exact le_rfl
  quorum r h hl := by
    obtain ⟨hr, hh⟩ := hl
    cases hr; cases hh; exact hq
  fast := hi.fast

theorem inv_step (hi : Inv e) (hs : MessageStep e msg e' evs) : Inv e' := by
  cases hs with
  | ignored => exact hi
  | proposal | precommit | commit => exact ⟨hi.pair, hi.le_round, hi.quorum, hi.fast⟩
  | prevote b v _ fresh => exact hi.storePrevote fresh
  | lock b v q _ fresh quorum | relock b v q _ fresh quorum => exact (hi.storePrevote fresh).lockOn quorum
  | fastFinalize h v p _ fresh =>
    have := hi.storePrevote (b := some h) fresh
    exact ⟨this.pair, this.le_round, this.quorum, this.fast⟩

theorem Inv.nextRound (hi : Inv e) : Inv e.nextRound where
  pair := hi.pair
  le_round r hr := (hi.le_round r hr).trans (UInt32.le_toNat_saturatingAdd _ _)
  quorum := hi.quorum
  fast := .reset _ _

theorem CallStep.inv (hs : CallStep e c e' evs) (hi : Inv e) : Inv e' := by
  cases hs with
  | start height => exact inv_startHeight e height
  | message ord msg step => exact inv_step hi step
  | late => exact hi
  | timeout => exact hi.nextRound

theorem inv_call (hi : Inv e) (c : Call) : Inv (e.call c).1 := (e.call_step c).inv hi

theorem inv_after (hi : Inv e) (cs : List Call) : Inv (e.after cs) := by
  induction cs generalizing e with
  | nil => exact hi
  | cons c cs ih => exact ih (inv_call hi c)

theorem inv_run (vs : ValidatorSet) (cfg : FastPathConfig) (cs : List Call) : Inv ((new vs cfg).after cs) :=
  inv_after (inv_new vs cfg) cs

/-! ### Stored votes were received -/

structure Stored (e : ConsensusEngine) (M : ConsensusMessage → Prop) : Prop where
  prevotes : ∀ r v b, e.state.prevotes.lookup (r, v) = some b → M (.prevote e.state.height r b v)
  precommits : ∀ r v b, e.state.precommits.lookup (r, v) = some b → M (.precommit e.state.height r b v)

namespace Stored
variable {M M' : ConsensusMessage → Prop} {b : Option B256} {v : UInt64}

theorem of_empty (h1 : e.state.prevotes = ∅) (h2 : e.state.precommits = ∅) : Stored e M where
  prevotes r v b hl := by rw [h1, AList.lookup_empty] at hl; cases hl
  precommits r v b hl := by rw [h2, AList.lookup_empty] at hl; cases hl

theorem mono (h : Stored e M) (hM : ∀ m, M m → M' m) : Stored e M' :=
  ⟨fun r v b hl => hM _ (h.prevotes r v b hl), fun r v b hl => hM _ (h.precommits r v b hl)⟩

theorem storePrevote (h : Stored e M) (hm : M (.prevote e.state.height e.state.round b v)) :
    Stored (e.storePrevote b v) M where
  prevotes r u b' hl := by
    rcases Votes.lookup_insert_cases hl with ⟨hk, rfl⟩ | hl
    · cases hk; exact hm
    · exact h.prevotes r u b' hl
  precommits := h.precommits

theorem storePrecommit (h : Stored e M) (hm : M (.precommit e.state.height e.state.round b v)) :
    Stored (e.storePrecommit b v) M where
  prevotes := h.prevotes
  precommits r u b' hl := by
    rcases Votes.lookup_insert_cases hl with ⟨hk, rfl⟩ | hl
    · cases hk; exact hm
    · exact h.precommits r u b' hl

theorem step (h : Stored e M) (hs : MessageStep e msg e' evs) (hm : M msg) : Stored e' M := by
  cases hs with
  | ignored => exact h
  | proposal => exact ⟨h.prevotes, h.precommits⟩
  | prevote b v hmsg | lock b v q hmsg | relock b v q hmsg | fastFinalize b v p hmsg =>
    have := h.storePrevote (hmsg ▸ hm)
    exact ⟨this.prevotes, this.precommits⟩
  | precommit b v hmsg | commit b v q hmsg =>
    have := h.storePrecommit (hmsg ▸ hm)
    exact ⟨this.prevotes, this.precommits⟩

theorem call (h : Stored e M) (hs : CallStep e c e' evs) (hm : ∀ ord m, c = .onMessage ord m → M m) :
    Stored e' M := by
  cases hs with
  | start height => exact .of_empty rfl rfl
  | message ord msg step => exact h.step step (hm ord msg rfl)
  | late => exact h
  | timeout => exact ⟨h.prevotes, h.precommits⟩

end Stored

/-! ### Emitted events -/

/-- The events that only say what the engine waits for. -/
def isNotice : ConsensusEvent → Bool
  | .roundTimeout _ _ => true
  | .needProposal _ _ _ => true
  | _ => false

/-- Votes and finalised blocks are answers to messages. -/
theorem CallStep.of_mem (hs : CallStep e c e' evs) {ev : ConsensusEvent} (hm : ev ∈ evs)
    (hev : isNotice ev = false) : ∃ ord msg, c = .onMessage ord msg ∧ MessageStep e msg e' evs := by
  cases hs with
  | message ord msg step => exact ⟨ord, msg, rfl, step⟩
  | start height =>
    rw [List.mem_singleton.mp hm] at hev
    cases hev
  | late => cases hm
  | timeout =>
    rcases List.mem_cons.mp hm with rfl | hm
    · cases hev
    · rw [List.mem_singleton.mp hm] at hev
      cases hev

theorem MessageStep.sendPrevote (hs : MessageStep e msg e' evs) {height : UInt64} {b : Option B256}
    (hm : .sendPrevote height r b ∈ evs) : ∃ p, msg = .proposal e.state.height e.state.round p
        (e.validatorSet.leaderForRound e.state.height e.state.round) ∧
      height = e.state.height ∧ r = e.state.round ∧ b = some (e.state.lockedHash.getD p) ∧
      e' = e.acceptProposal p := by
  cases hs with
  | proposal p hmsg =>
    simp only [List.mem_singleton, ConsensusEvent.sendPrevote.injEq] at hm
    exact ⟨p, hmsg, hm.1, hm.2.1, hm.2.2, rfl⟩
  | _ => simp at hm

theorem MessageStep.sendPrecommit (hs : MessageStep e msg e' evs) {height : UInt64} {b : Option B256}
    (hm : .sendPrecommit height r b ∈ evs) : height = e.state.height ∧ r = e.state.round ∧
      ∃ q, b = some q ∧ e'.PrevotesReach r q ∧ e'.LockedOn r q := by
  cases hs with
  | lock b' v q hmsg fresh quorum =>
    simp only [List.mem_singleton, ConsensusEvent.sendPrecommit.injEq] at hm
    obtain ⟨rfl, rfl, rfl⟩ := hm
    exact ⟨rfl, rfl, q, rfl, quorum, rfl, rfl⟩
  | _ => simp at hm

/-- A block is finalised on stored precommits of quorum weight, or by the fast path on a prevote. -/
theorem MessageStep.finalized (hs : MessageStep e msg e' evs) {height : UInt64} {b : B256}
    (hm : .blockFinalized height b r ∈ evs) : height = e.state.height ∧ r = e.state.round ∧
      (e'.PrecommitsReach r b ∨ ∃ v p, msg = .prevote height r (some b) v ∧ (r, v) ∉ e.state.prevotes ∧
        (e.fastPath.addAttestation (e.attestation b v)).2 = some (.fastFinalized p) ∧
        e' = (e.storePrevote (some b) v).commit) := by
  cases hs with
  | commit b' v q hmsg fresh quorum =>
    simp only [List.mem_singleton, ConsensusEvent.blockFinalized.injEq] at hm
    obtain ⟨rfl, rfl, rfl⟩ := hm
    exact ⟨rfl, rfl, .inl quorum⟩
  | fastFinalize b' v p hmsg fresh fast =>
    simp only [List.mem_singleton, ConsensusEvent.blockFinalized.injEq] at hm
    obtain ⟨rfl, rfl, rfl⟩ := hm
    exact ⟨rfl, rfl, .inr ⟨v, p, hmsg, fresh, fast, rfl⟩⟩
  | _ => simp at hm

theorem MessageStep.committed_of_finalized (hs : MessageStep e msg e' evs) {height : UInt64} {b : B256}
    (hm : .blockFinalized height b r ∈ evs) : e'.state.step = .committed ∧ evs = [.blockFinalized height b r] := by
  cases hs with
  | fastFinalize | commit =>
    simp only [List.mem_singleton] at hm
    exact ⟨rfl, by rw [hm]⟩
  | _ => simp at hm

theorem sendPrevote_locked {height : UInt64} {b : Option B256}
    (hm : .sendPrevote height r b ∈ (e.call c).2) (hl : e.state.lockedHash = some h) : b = some h := by
  obtain ⟨ord, msg, -, hs⟩ := (e.call_step c).of_mem hm rfl
  obtain ⟨p, -, -, -, rfl, -⟩ := hs.sendPrevote hm
  rw [hl]; rfl

theorem sendPrecommit_quorum {height : UInt64} {b : Option B256}
    (hm : .sendPrecommit height r b ∈ (e.call c).2) : ∃ q, b = some q ∧ (e.call c).1.PrevotesReach r q := by
  obtain ⟨ord, msg, -, hs⟩ := (e.call_step c).of_mem hm rfl
  obtain ⟨-, -, q, hb, hq, -⟩ := hs.sendPrecommit hm
  exact ⟨q, hb, hq⟩

/-! ### Finality -/

def isFinalized : ConsensusEvent → Bool
  | .blockFinalized _ _ _ => true
  | _ => false

theorem call_of_committed (hc : e.state.step = .committed) (hn : c.isStart = false) :
    e.call c = (e, []) := by
  cases c with
  | startHeight => simp [Call.isStart] at hn
  | onMessage ord msg => exact onMessage_of_committed hc
  | onTimeout => exact onTimeout_of_committed hc

theorem run_of_committed (hc : e.state.step = .committed) {cs : List Call}
    (hn : ∀ c ∈ cs, c.isStart = false) : e.emitted cs = [] ∧ e.after cs = e := by
  induction cs with
  | nil => exact ⟨rfl, rfl⟩
  | cons c cs ih =>
    have hcall := call_of_committed hc (hn c (by simp))
    have := ih fun d hd => hn d (by simp [hd])
    simp only [emitted, after_cons, hcall]
    exact ⟨by rw [this.1]; rfl, this.2⟩

theorem call_finalized {height : UInt64} {b : B256} (hm : .blockFinalized height b r ∈ (e.call c).2) :
    (e.call c).1.state.step = .committed ∧ (e.call c).2 = [.blockFinalized height b r] := by
  obtain ⟨ord, msg, -, hs⟩ := (e.call_step c).of_mem hm rfl
  exact hs.committed_of_finalized hm

theorem countP_finalized_le (e : ConsensusEngine) {cs : List Call} (hn : ∀ c ∈ cs, c.isStart = false) :
    (e.emitted cs).countP isFinalized ≤ 1 := by
  induction cs generalizing e with
  | nil => simp [emitted]
  | cons c cs ih =>
    have hn' : ∀ d ∈ cs, d.isStart = false := fun d hd => hn d (by simp [hd])
    rw [emitted, List.countP_append]
    by_cases hf : ∃ ev ∈ (e.call c).2, isFinalized ev = true
    · obtain ⟨ev, hev, hfin⟩ := hf
      cases ev with
      | blockFinalized height b r =>
        obtain ⟨hc, hevs⟩ := call_finalized hev
        rw [(run_of_committed hc hn').1, hevs]; rfl
      | _ => simp [isFinalized] at hfin
    · have h0 : (e.call c).2.countP isFinalized = 0 := by
        rw [List.countP_eq_zero]
        exact fun ev hev hfin => hf ⟨ev, hev, hfin⟩
      rw [h0, Nat.zero_add]
      exact ih _ hn'

theorem committed_of_finalized {cs : List Call} (hn : ∀ c ∈ cs, c.isStart = false) {height : UInt64}
    {b : B256} (hm : .blockFinalized height b r ∈ e.emitted cs) : (e.after cs).state.step = .committed := by
  obtain ⟨cs₁, c, cs₂, rfl, hev⟩ := mem_emitted.mp hm
  have hc := (call_finalized hev).1
  rw [after_append, after_cons, (run_of_committed hc fun d hd => hn d (by simp [hd])).2]
  exact hc

/-- The lock and finality invariant: in every reachable state the lock is one of a round not above the
current one and backed by stored prevotes of quorum weight; prevotes emitted under a lock carry it;
precommits are emitted on a stored quorum; and after the first finalised block of a height the engine
neither moves nor speaks until it is started again. -/
theorem lock_and_finality (vs : ValidatorSet) (cfg : FastPathConfig) (cs : List Call) :
    let e := (new vs cfg).after cs
    (e.state.lockedHash.isSome ↔ ∃ r, e.state.lockedRound = some r ∧ r ≤ e.state.round) ∧
    (∀ r h, e.LockedOn r h → vs.Quorum fun v => e.state.prevotes.lookup (r, v) = some (some h)) ∧
    (∀ c height r b h, .sendPrevote height r b ∈ (e.call c).2 → e.state.lockedHash = some h → b = some h) ∧
    (∀ c height r b, .sendPrecommit height r b ∈ (e.call c).2 → ∃ h, b = some h ∧
      vs.Quorum fun v => (e.call c).1.state.prevotes.lookup (r, v) = some (some h)) ∧
    ∀ cs', (∀ c ∈ cs', c.isStart = false) → (e.emitted cs').countP isFinalized ≤ 1 ∧
      ∀ height b r, .blockFinalized height b r ∈ e.emitted cs' → ∀ cs'', (∀ c ∈ cs'', c.isStart = false) →
        (e.after cs').emitted cs'' = [] ∧ (e.after cs').after cs'' = e.after cs' := by
  intro e
  have hi : Inv e := inv_run vs cfg cs
  have hvs : e.validatorSet = vs := after_validatorSet _ cs
  refine ⟨?_, fun r h hl => ?_, fun c height r b h hm hl => sendPrevote_locked hm hl,
    fun c height r b hm => ?_, fun cs' hn => ⟨countP_finalized_le e hn, fun height b r hm cs'' hn' => ?_⟩⟩
  · rw [hi.pair, Option.isSome_iff_exists]
    refine exists_congr fun r => ⟨fun hr => ⟨hr, ?_⟩, fun hr => hr.1⟩
    exact UInt32.le_iff_toNat_le.mpr (hi.le_round r hr)
  · have hq := hi.quorum r h hl
    rw [PrevotesReach, hvs] at hq
    exact ValidatorSet.quorum_of_weights hq fun v hv => Votes.mem_voters.mp hv
  · obtain ⟨h, rfl, hq⟩ := sendPrecommit_quorum hm
    rw [PrevotesReach, call_validatorSet, hvs] at hq
    exact ⟨h, rfl, ValidatorSet.quorum_of_weights hq fun v hv => Votes.mem_voters.mp hv⟩
  · exact run_of_committed (committed_of_finalized hn hm) hn'

end ConsensusEngine
end Eth2077
