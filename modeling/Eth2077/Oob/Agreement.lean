import Eth2077.Oob.NetworkInv

/-!
# Agreement with the fast path off

With total weight `3f + 1` and Byzantine members of weight at most `f`, correct engines never
finalise different blocks at the height they were started for.
-/

namespace Eth2077
open ConsensusEngine

namespace ValidatorSet
variable {vs : ValidatorSet} {f : ℕ}

theorem total_add_lt_quorums (hd : vs.DistinctIndices) (hW : vs.weightSum = 3 * f + 1)
    (hsat : vs.weightSum ≤ UInt64.maxNat) {byz : Finset UInt64} (hbyz : vs.weights.of byz ≤ f) :
    vs.weights.total + vs.weights.of byz < 2 * vs.quorumWeight.toNat := by
  have htotal : vs.weights.total = 3 * f + 1 := (weights_total hd).trans hW
  have hq : vs.quorumWeight.toNat = 2 * f + 1 := by
    rw [toNat_quorumWeight, toNat_totalWeight_of_le hsat, hW]; omega
  omega

end ValidatorSet

namespace Network

/-- Byzantine members, and whoever is no member at all, send anything to anybody under indices that
no engine runs under; so does the leader of a round, correct or not, with proposals. -/
def byzantineMessages (vs : ValidatorSet) (byz : Finset UInt64) : ConsensusMessage → Bool
  | .proposal _ _ _ _ => true
  | .prevote _ _ _ v => v ∉ vs.indices \ byz
  | .precommit _ _ _ v => v ∉ vs.indices \ byz

def withByzantine (vs : ValidatorSet) (cfg : FastPathConfig) (height : UInt64) (byz : Finset UInt64) :
    Network where
  validatorSet := vs
  fastPathConfig := cfg
  height := height
  byzantine := byz
  external := byzantineMessages vs byz

variable {vs : ValidatorSet} {cfg : FastPathConfig} {height : UInt64} {byz : Finset UInt64}

theorem authentic_withByzantine : (withByzantine vs cfg height byz).Authentic := by
  intro msg v hext hv
  cases msg with
  | proposal => cases hv
  | prevote height r b u | precommit height r b u =>
    cases hv
    exact of_decide_eq_true hext

/-- Agreement: no two correct engines finalise different blocks, for every order, delay, loss and
duplication of messages and timeouts. -/
theorem engines_agree (vs : ValidatorSet) (cfg : FastPathConfig) (height : UInt64) (byz : Finset UInt64) (f : ℕ)
    (hd : vs.DistinctIndices) (hW : vs.weightSum = 3 * f + 1) (hsat : vs.weightSum ≤ UInt64.maxNat)
    (hbyz : vs.weights.of byz ≤ f) (hoff : cfg.optimisticThreshold = 0) (s : Net)
    (hs : (withByzantine vs cfg height byz).Reachable s) (i j : UInt64) (h h' : B256) (r r' : UInt32)
    (hi : s.Finalized i height h r) (hj : s.Finalized j height h' r') : h = h' := by
  have hm : (withByzantine vs cfg height byz).QuorumsMeet :=
    ValidatorSet.total_add_lt_quorums hd hW hsat hbyz
  have hinv : NetInv hm s := hs.netInv authentic_withByzantine hm
  have hquorum : ∀ i h r, s.Finalized i height h r →
      ((withByzantine vs cfg height byz).setting hm).PrecommitQuorum (history s.sent) r.toNat h := by
    rintro i h r ⟨entry, hmem, -, hev⟩
    rcases (hinv.log entry hmem).finalized authentic_withByzantine hev with hq | ⟨_, _, _, _, hpos, _⟩
    · exact hq
    · exact absurd hoff hpos.ne'
  exact hinv.justified.agreement (hquorum i h r hi) (hquorum j h' r' hj)

/-- Four unit validators, the last one Byzantine: it prevotes `b` to node 0 and `a` to node 1. Nodes 0
and 1 finalise `a` in round 0. -/
def equivocatingRun (a b : B256) : List Label :=
  let process (i : UInt64) := Label.process i .stored
  let deliver (i : UInt64) (msg : ConsensusMessage) := Label.deliver i .stored msg
  [process 0, process 1, process 2] ++
  [deliver 0 (.proposal 1 0 a 1), process 0, deliver 1 (.proposal 1 0 a 1), process 1,
    deliver 2 (.proposal 1 0 a 1), process 2] ++
  [deliver 0 (.prevote 1 0 (some b) 3), deliver 0 (.prevote 1 0 (some a) 1),
    deliver 0 (.prevote 1 0 (some a) 2), process 0] ++
  [deliver 1 (.prevote 1 0 (some a) 3), deliver 1 (.prevote 1 0 (some a) 0), process 1] ++
  [deliver 2 (.prevote 1 0 (some a) 0), deliver 2 (.prevote 1 0 (some a) 1), process 2] ++
  [deliver 0 (.precommit 1 0 (some a) 1), deliver 0 (.precommit 1 0 (some a) 2)] ++
  [deliver 1 (.precommit 1 0 (some a) 0), deliver 1 (.precommit 1 0 (some a) 2)]

theorem engines_agree_run :
    let N := withByzantine (.unitSet 4) ⟨3, 5000, 0⟩ 1 {3}
    ∃ s, N.Reachable s ∧ s.Finalized 0 1 (.repeatByte 1) 0 ∧ s.Finalized 1 1 (.repeatByte 1) 0 ∧
      ∀ i h r, s.Finalized i 1 h r → h = .repeatByte 1 := by
  intro N
  obtain ⟨s, hs, h0, h1⟩ := N.exists_of_exec (equivocatingRun (.repeatByte 1) (.repeatByte 2))
    (p := fun s => s.Finalized 0 1 (.repeatByte 1) 0 ∧ s.Finalized 1 1 (.repeatByte 1) 0) (by decide +kernel)
  refine ⟨s, hs, h0, h1, fun i h r hi => ?_⟩
  exact engines_agree (.unitSet 4) ⟨3, 5000, 0⟩ 1 {3} 1 (by decide) (by decide) (by decide) (by decide) rfl
    s hs i 0 h _ r 0 hi h0

end Network

end Eth2077
