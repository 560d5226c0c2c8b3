import Eth2077.Lib.SortBy
import Eth2077.Prim
import Eth2077.Text

/-!
# Upgrade governance (`types/src/upgrade_governance.rs`)

The commitment to proposals and rehearsals is meant not to depend on the order they come in. The proposals are sorted by
three of their fields, the runs by three of theirs and the clients of a run by the name in lower case and the share. The
sort is stable, so that what ties and differs elsewhere is hashed in the order of the input.

Percentages are values of a linear order `P`, which is `f64::total_cmp`; what the code computes from them before it hashes
them is a parameter.
-/

namespace Eth2077
namespace UpgradeGovernance
open SortBy

inductive UpgradePhase where
  | proposal
  | discussion
  | signaling
  | accepted
  | rehearsal
  | activation
  | postMortem
deriving DecidableEq

inductive GovernanceModel where
  | coreDevConsensus
  | tokenVote
  | multisigApproval
  | timelockExecution
deriving DecidableEq

inductive RehearsalOutcome where
  | success
  | partialSuccess
  | failure
  | aborted
deriving DecidableEq

inductive ForkStrategy where
  | epochBoundary
  | blockHeight
  | timestampTrigger
  | manualActivation
deriving DecidableEq

structure UpgradeProposal (P : Type) where
  id : String
  eipNumbers : List UInt64
  title : String
  champion : String
  phase : UpgradePhase
  governanceModel : GovernanceModel
  signalThresholdPct : P
  currentSignalPct : P
  forkStrategy : ForkStrategy
  activationEpoch : Option UInt64
  createdAtUnix : UInt64
  approvedAtUnix : Option UInt64
deriving DecidableEq

structure RehearsalRun (P : Type) where
  id : String
  proposalId : String
  testnetName : String
  nodeCount : UInt64
  clientDiversity : List (String × P)
  startedAtUnix : UInt64
  endedAtUnix : Option UInt64
  outcome : RehearsalOutcome
  blocksPostFork : UInt64
  finalityDisruptionSlots : UInt64
  rollbackTriggered : Bool
deriving DecidableEq

structure UpgradeGovernanceStats (P : Type) where
  totalProposals : UInt64
  acceptedProposals : UInt64
  rehearsalsRun : UInt64
  rehearsalSuccessRate : P
  avgSignalPct : P
  avgRehearsalDurationS : P
  commitment : B256

/-! ### The payload -/

structure StatsCommitmentFields (P : Type) where
  totalProposals : UInt64
  acceptedProposals : UInt64
  rehearsalsRun : UInt64
  rehearsalSuccessRate : P
  avgSignalPct : P
  avgRehearsalDurationS : P
deriving DecidableEq

structure ProposalCommitmentEntry (P : Type) where
  id : String
  eipNumbers : List UInt64
  title : String
  champion : String
  phase : UpgradePhase
  governanceModel : GovernanceModel
  signalThresholdPct : P
  currentSignalPct : P
  forkStrategy : ForkStrategy
  activationEpoch : Option UInt64
  createdAtUnix : UInt64
  approvedAtUnix : Option UInt64
deriving DecidableEq

structure RehearsalCommitmentEntry (P : Type) where
  id : String
  proposalId : String
  testnetName : String
  nodeCount : UInt64
  clientDiversity : List (String × P)
  startedAtUnix : UInt64
  endedAtUnix : Option UInt64
  outcome : RehearsalOutcome
  blocksPostFork : UInt64
  finalityDisruptionSlots : UInt64
  rollbackTriggered : Bool
deriving DecidableEq

structure StatsCommitmentPayload (P : Type) where
  version : String
  stats : StatsCommitmentFields P
  proposals : List (ProposalCommitmentEntry P)
  rehearsals : List (RehearsalCommitmentEntry P)
deriving DecidableEq

section Canonical
variable {P : Type}

def compareProposals : ProposalCommitmentEntry P → ProposalCommitmentEntry P → Ordering :=
  compareLex (compareOn (·.id)) (compareLex (compareOn (·.createdAtUnix)) (compareOn (·.title)))

def compareRehearsals : RehearsalCommitmentEntry P → RehearsalCommitmentEntry P → Ordering :=
  compareLex (compareOn (·.proposalId)) (compareLex (compareOn (·.id)) (compareOn (·.startedAtUnix)))

def compareClients [Ord P] : String × P → String × P → Ordering :=
  compareLex (compareOn fun entry => asciiLowercase entry.1) (compareOn Prod.snd)

instance : Std.TransCmp (compareProposals (P := P)) := inferInstanceAs (Std.TransCmp (compareLex _ (compareLex _ _)))

instance : Std.TransCmp (compareRehearsals (P := P)) := inferInstanceAs (Std.TransCmp (compareLex _ (compareLex _ _)))

instance [Ord P] [Std.TransOrd P] : Std.TransCmp (compareClients (P := P)) :=
  inferInstanceAs (Std.TransCmp (compareLex _ _))

theorem compareProposals_eq_iff {a b : ProposalCommitmentEntry P} :
    compareProposals a b = .eq ↔ a.id = b.id ∧ a.createdAtUnix = b.createdAtUnix ∧ a.title = b.title := by
  simp [compareProposals, compareLex, compareOn, Ordering.then_eq_eq]

theorem compareRehearsals_eq_iff {a b : RehearsalCommitmentEntry P} :
    compareRehearsals a b = .eq ↔ a.proposalId = b.proposalId ∧ a.id = b.id ∧ a.startedAtUnix = b.startedAtUnix := by
  simp [compareRehearsals, compareLex, compareOn, Ordering.then_eq_eq]

theorem compareClients_eq_iff [Ord P] [Std.LawfulEqOrd P] {a b : String × P} :
    compareClients a b = .eq ↔ asciiLowercase a.1 = asciiLowercase b.1 ∧ a.2 = b.2 := by
  simp [compareClients, compareLex, compareOn, Ordering.then_eq_eq]

variable (normalizedPct roundSixDecimals : P → P)

/-- The named clients, with the shares as they are hashed. -/
def namedClients (clientDiversity : List (String × P)) : List (String × P) :=
  (clientDiversity.map fun entry => (trimmed entry.1, normalizedPct entry.2)).filter fun entry => entry.1 ≠ ""

def proposalEntry (proposal : UpgradeProposal P) : ProposalCommitmentEntry P where
  id := trimmed proposal.id
  eipNumbers := sortDedup compare proposal.eipNumbers
  title := trimmed proposal.title
  champion := trimmed proposal.champion
  phase := proposal.phase
  governanceModel := proposal.governanceModel
  signalThresholdPct := normalizedPct proposal.signalThresholdPct
  currentSignalPct := normalizedPct proposal.currentSignalPct
  forkStrategy := proposal.forkStrategy
  activationEpoch := proposal.activationEpoch
  createdAtUnix := proposal.createdAtUnix
  approvedAtUnix := proposal.approvedAtUnix

variable [LinearOrder P]

def normalizedClientDiversity (clientDiversity : List (String × P)) : List (String × P) :=
  sortBy compareClients (namedClients normalizedPct clientDiversity)

def rehearsalEntry (run : RehearsalRun P) : RehearsalCommitmentEntry P where
  id := trimmed run.id
  proposalId := trimmed run.proposalId
  testnetName := trimmed run.testnetName
  nodeCount := run.nodeCount
  clientDiversity := normalizedClientDiversity normalizedPct run.clientDiversity
  startedAtUnix := run.startedAtUnix
  endedAtUnix := run.endedAtUnix
  outcome := run.outcome
  blocksPostFork := run.blocksPostFork
  finalityDisruptionSlots := run.finalityDisruptionSlots
  rollbackTriggered := run.rollbackTriggered

/-- The payload that `compute_stats_commitment` serialises. -/
def commitmentPayload (proposals : List (UpgradeProposal P)) (rehearsals : List (RehearsalRun P))
    (stats : UpgradeGovernanceStats P) : StatsCommitmentPayload P where
  version := "upgrade_governance_stats:v1"
  stats :=
    { totalProposals := stats.totalProposals
      acceptedProposals := stats.acceptedProposals
      rehearsalsRun := stats.rehearsalsRun
      rehearsalSuccessRate := roundSixDecimals stats.rehearsalSuccessRate
      avgSignalPct := roundSixDecimals stats.avgSignalPct
      avgRehearsalDurationS := roundSixDecimals stats.avgRehearsalDurationS }
  proposals := sortBy compareProposals (proposals.map (proposalEntry normalizedPct))
  rehearsals := sortBy compareRehearsals (rehearsals.map (rehearsalEntry normalizedPct))

/-- `to_vec` is `serde_json`'s, whose error the code turns into no bytes. -/
def computeStatsCommitment (sha256 : List UInt8 → B256) (toVec : StatsCommitmentPayload P → Option (List UInt8))
    (proposals : List (UpgradeProposal P)) (rehearsals : List (RehearsalRun P)) (stats : UpgradeGovernanceStats P) :
    B256 :=
  sha256 ((toVec (commitmentPayload normalizedPct roundSixDecimals proposals rehearsals stats)).getD [])

end Canonical

/-! ### What the order decides -/

section Order
variable {P : Type} {normalizedPct roundSixDecimals : P → P}

/-- The fields by which proposals are sorted. -/
structure UpgradeProposal.Tied (p q : UpgradeProposal P) : Prop where
  id : trimmed p.id = trimmed q.id
  createdAtUnix : p.createdAtUnix = q.createdAtUnix
  title : trimmed p.title = trimmed q.title

/-- The other fields, as they are hashed. -/
structure UpgradeProposal.Agree (normalizedPct : P → P) (p q : UpgradeProposal P) : Prop where
  eipNumbers : ∀ number, number ∈ p.eipNumbers ↔ number ∈ q.eipNumbers
  champion : trimmed p.champion = trimmed q.champion
  phase : p.phase = q.phase
  governanceModel : p.governanceModel = q.governanceModel
  signalThresholdPct : normalizedPct p.signalThresholdPct = normalizedPct q.signalThresholdPct
  currentSignalPct : normalizedPct p.currentSignalPct = normalizedPct q.currentSignalPct
  forkStrategy : p.forkStrategy = q.forkStrategy
  activationEpoch : p.activationEpoch = q.activationEpoch
  approvedAtUnix : p.approvedAtUnix = q.approvedAtUnix

/-- The fields by which runs are sorted. -/
structure RehearsalRun.Tied (r s : RehearsalRun P) : Prop where
  proposalId : trimmed r.proposalId = trimmed s.proposalId
  id : trimmed r.id = trimmed s.id
  startedAtUnix : r.startedAtUnix = s.startedAtUnix

structure RehearsalRun.Agree (normalizedPct : P → P) (r s : RehearsalRun P) : Prop where
  testnetName : trimmed r.testnetName = trimmed s.testnetName
  nodeCount : r.nodeCount = s.nodeCount
  clientDiversity : (namedClients normalizedPct r.clientDiversity).Perm (namedClients normalizedPct s.clientDiversity)
  endedAtUnix : r.endedAtUnix = s.endedAtUnix
  outcome : r.outcome = s.outcome
  blocksPostFork : r.blocksPostFork = s.blocksPostFork
  finalityDisruptionSlots : r.finalityDisruptionSlots = s.finalityDisruptionSlots
  rollbackTriggered : r.rollbackTriggered = s.rollbackTriggered

/-- Names of clients that differ by case only do not come with one share. -/
def DistinctClients (normalizedPct : P → P) (clientDiversity : List (String × P)) : Prop :=
  ∀ c ∈ clientDiversity, ∀ d ∈ clientDiversity,
    asciiLowercase (trimmed c.1) = asciiLowercase (trimmed d.1) → normalizedPct c.2 = normalizedPct d.2 →
      trimmed c.1 = trimmed d.1

/-- What ties in the sort does not differ in what is hashed. -/
structure TiesAgree (normalizedPct : P → P) (proposals : List (UpgradeProposal P)) (rehearsals : List (RehearsalRun P)) :
    Prop where
  proposals : ∀ p ∈ proposals, ∀ q ∈ proposals, p.Tied q → p.Agree normalizedPct q
  clients : ∀ r ∈ rehearsals, DistinctClients normalizedPct r.clientDiversity
  rehearsals : ∀ r ∈ rehearsals, ∀ s ∈ rehearsals, r.Tied s → r.Agree normalizedPct s

/-- The same run, with its clients in another order. -/
def RehearsalRun.Reordered (r s : RehearsalRun P) : Prop :=
  ∃ clientDiversity, r.clientDiversity.Perm clientDiversity ∧ s = { r with clientDiversity }

/-- The runs in another order, and the clients of each. -/
def Reordered (rehearsals rehearsals' : List (RehearsalRun P)) : Prop :=
  ∃ runs, rehearsals.Perm runs ∧ List.Forall₂ RehearsalRun.Reordered runs rehearsals'

theorem RehearsalRun.Reordered.refl (r : RehearsalRun P) : r.Reordered r := ⟨r.clientDiversity, .refl _, rfl⟩

theorem Reordered.of_perm {rehearsals rehearsals' : List (RehearsalRun P)} (h : rehearsals.Perm rehearsals') :
    Reordered rehearsals rehearsals' :=
  ⟨rehearsals', h, List.forall₂_same.mpr fun r _ => .refl r⟩

theorem asciiLowercase_eq_empty {s : String} : asciiLowercase s = "" ↔ s = "" := by
  rw [← String.toList_inj, asciiLowercase, String.toList_ofList, ← String.toList_inj]
  simp

theorem namedClients_eq_filterMap (clients : List (String × P)) : namedClients normalizedPct clients =
    clients.filterMap fun c =>
      Option.guard (fun entry : String × P => entry.1 ≠ "") (trimmed c.1, normalizedPct c.2) := by
  rw [namedClients, ← List.filterMap_eq_filter, List.filterMap_map]
  rfl

theorem proposals_iff {proposals : List (UpgradeProposal P)} :
    (∀ proposals', proposals.Perm proposals' →
        sortBy compareProposals (proposals'.map (proposalEntry normalizedPct)) =
          sortBy compareProposals (proposals.map (proposalEntry normalizedPct))) ↔
      ∀ p ∈ proposals, ∀ q ∈ proposals, p.Tied q → p.Agree normalizedPct q := by
  rw [sortBy_map_iff]
  refine forall₄_congr fun p _ q _ => ?_
  rw [compareProposals_eq_iff]
  constructor
  · rintro h ⟨hid, hcreated, htitle⟩
    have heq := h ⟨hid, hcreated, htitle⟩
    simp only [proposalEntry, ProposalCommitmentEntry.mk.injEq] at heq
    obtain ⟨-, heips, -, hchampion, hphase, hmodel, hthreshold, hsignal, hstrategy, hepoch, -, happroved⟩ := heq
    exact ⟨sortDedup_eq_iff.mp heips, hchampion, hphase, hmodel, hthreshold, hsignal, hstrategy, hepoch, happroved⟩
  · rintro h ⟨hid, hcreated, htitle⟩
    obtain ⟨heips, hchampion, hphase, hmodel, hthreshold, hsignal, hstrategy, hepoch, happroved⟩ :=
      h ⟨hid, hcreated, htitle⟩
    simp only [proposalEntry, ProposalCommitmentEntry.mk.injEq]
    exact ⟨hid, sortDedup_congr heips, htitle, hchampion, hphase, hmodel, hthreshold, hsignal, hstrategy, hepoch,
      hcreated, happroved⟩

variable [LinearOrder P]

/-- The clients of one run. -/
theorem normalizedClientDiversity_iff {clients : List (String × P)} :
    (∀ clients', clients.Perm clients' →
        normalizedClientDiversity normalizedPct clients' = normalizedClientDiversity normalizedPct clients) ↔
      DistinctClients normalizedPct clients := by
  simp only [normalizedClientDiversity, namedClients_eq_filterMap]
  rw [sortBy_filterMap_iff]
  simp only [Option.guard_eq_some_iff, compareClients_eq_iff, decide_eq_true_eq]
  constructor
  · intro h c hc d hd hname hshare
    by_cases hblank : trimmed c.1 = ""
    · rw [hblank, asciiLowercase_eq_empty.mpr rfl, eq_comm, asciiLowercase_eq_empty] at hname
      rw [hblank, hname]
    · have hblank' : trimmed d.1 ≠ "" := fun h => hblank (asciiLowercase_eq_empty.mp (hname.trans (by rw [h]; rfl)))
      exact congrArg Prod.fst (h c hc d hd _ _ ⟨rfl, hblank⟩ ⟨rfl, hblank'⟩ ⟨hname, hshare⟩)
  · rintro h c hc d hd x y ⟨rfl, -⟩ ⟨rfl, -⟩ ⟨hname, hshare⟩
    exact Prod.ext (h c hc d hd hname hshare) hshare

/-- The entries of runs whose clients are told apart. -/
theorem rehearsalEntry_eq_iff {r s : RehearsalRun P} (hclients : DistinctClients normalizedPct r.clientDiversity) :
    rehearsalEntry normalizedPct r = rehearsalEntry normalizedPct s ↔ r.Tied s ∧ r.Agree normalizedPct s := by
  simp only [rehearsalEntry, RehearsalCommitmentEntry.mk.injEq]
  constructor
  · rintro ⟨hid, hproposal, htestnet, hnodes, hdiversity, hstarted, hended, houtcome, hblocks, hslots, hrollback⟩
    exact ⟨⟨hproposal, hid, hstarted⟩, htestnet, hnodes, perm_of_sortBy_eq hdiversity, hended, houtcome, hblocks, hslots,
      hrollback⟩
  · rintro ⟨⟨hproposal, hid, hstarted⟩, htestnet, hnodes, hperm, hended, houtcome, hblocks, hslots, hrollback⟩
    refine ⟨hid, hproposal, htestnet, hnodes, ?_, hstarted, hended, houtcome, hblocks, hslots, hrollback⟩
    refine sortBy_congr (fun x hx y hy htie => ?_) hperm
    rw [namedClients_eq_filterMap, List.mem_filterMap] at hx hy
    obtain ⟨c, hc, hx⟩ := hx
    obtain ⟨d, hd, hy⟩ := hy
    obtain ⟨rfl, -⟩ := Option.guard_eq_some_iff.mp hx
    obtain ⟨rfl, -⟩ := Option.guard_eq_some_iff.mp hy
    obtain ⟨hname, hshare⟩ := compareClients_eq_iff.mp htie
    exact Prod.ext (hclients c hc d hd hname hshare) hshare

/-- A run whose clients are told apart has one entry for all orders of them. -/
theorem rehearsalEntry_reordered {r s : RehearsalRun P} (hclients : DistinctClients normalizedPct r.clientDiversity)
    (h : r.Reordered s) : rehearsalEntry normalizedPct s = rehearsalEntry normalizedPct r := by
  obtain ⟨clients, hperm, rfl⟩ := h
  have hdiversity := normalizedClientDiversity_iff.mpr hclients clients hperm
  simp only [rehearsalEntry, hdiversity]

/-- If the payload stays when the clients of one run are put in another order, the entry of the run does. -/
theorem rehearsalEntry_of_payload {pre post : List (RehearsalRun P)} {r s : RehearsalRun P}
    (h : sortBy compareRehearsals ((pre ++ s :: post).map (rehearsalEntry normalizedPct)) =
      sortBy compareRehearsals ((pre ++ r :: post).map (rehearsalEntry normalizedPct))) :
    rehearsalEntry normalizedPct s = rehearsalEntry normalizedPct r :=
  eq_of_perm_map (perm_of_sortBy_eq h)

/-- The payload is one for all orders of the proposals, of the runs and of the clients in a run, if and only if what ties
in the sorts agrees in everything that is hashed. -/
theorem governance_payload_order_iff (proposals : List (UpgradeProposal P)) (rehearsals : List (RehearsalRun P))
    (stats : UpgradeGovernanceStats P) :
    (∀ proposals' rehearsals', proposals.Perm proposals' → Reordered rehearsals rehearsals' →
        commitmentPayload normalizedPct roundSixDecimals proposals' rehearsals' stats =
          commitmentPayload normalizedPct roundSixDecimals proposals rehearsals stats) ↔
      TiesAgree normalizedPct proposals rehearsals := by
  constructor
  · intro h
    have hclients : ∀ r ∈ rehearsals, DistinctClients normalizedPct r.clientDiversity := by
      intro r hr
      obtain ⟨pre, post, rfl⟩ := List.append_of_mem hr
      refine normalizedClientDiversity_iff.mp fun clients hperm => ?_
      have hreordered : Reordered (pre ++ r :: post) (pre ++ { r with clientDiversity := clients } :: post) := by
        refine ⟨_, .refl _, List.rel_append (List.forall₂_same.mpr fun r _ => .refl r) ?_⟩
        exact .cons ⟨clients, hperm, rfl⟩ (List.forall₂_same.mpr fun r _ => .refl r)
      have hpayload := congrArg StatsCommitmentPayload.rehearsals (h proposals _ (.refl _) hreordered)
      exact congrArg RehearsalCommitmentEntry.clientDiversity (rehearsalEntry_of_payload hpayload)
    refine ⟨proposals_iff.mp fun proposals' hperm => ?_, hclients, fun r hr s hs htied => ?_⟩
    · exact congrArg StatsCommitmentPayload.proposals (h proposals' rehearsals hperm (.of_perm (.refl _)))
    · have hruns := sortBy_map_iff.mp (fun rehearsals' hperm =>
        congrArg StatsCommitmentPayload.rehearsals (h proposals rehearsals' (.refl _) (.of_perm hperm))) r hr s hs
      have heq := hruns (compareRehearsals_eq_iff.mpr ⟨htied.proposalId, htied.id, htied.startedAtUnix⟩)
      exact ((rehearsalEntry_eq_iff (hclients r hr)).mp heq).2
  · rintro ⟨hproposals, hclients, hrehearsals⟩ proposals' rehearsals' hperm ⟨runs, hruns, hreordered⟩
    have hentries : rehearsals'.map (rehearsalEntry normalizedPct) = runs.map (rehearsalEntry normalizedPct) := by
      have hmem : ∀ r ∈ runs, DistinctClients normalizedPct r.clientDiversity :=
        fun r hr => hclients r (hruns.mem_iff.mpr hr)
      clear hruns
      induction hreordered with
      | nil => rfl
      | cons hrun _ ih =>
        rw [List.map_cons, List.map_cons, rehearsalEntry_reordered (hmem _ List.mem_cons_self) hrun,
          ih fun r hr => hmem r (List.mem_cons_of_mem _ hr)]
    have hsorted : sortBy compareRehearsals (runs.map (rehearsalEntry normalizedPct)) =
        sortBy compareRehearsals (rehearsals.map (rehearsalEntry normalizedPct)) :=
      sortBy_map_iff.mpr (fun r hr s hs htie => ?_) runs hruns
    · rw [commitmentPayload, commitmentPayload, proposals_iff.mpr hproposals proposals' hperm, hentries, hsorted]
    · obtain ⟨hproposal, hid, hstarted⟩ := compareRehearsals_eq_iff.mp htie
      have htied : r.Tied s := ⟨hproposal, hid, hstarted⟩
      exact (rehearsalEntry_eq_iff (hclients r hr)).mpr ⟨htied, hrehearsals r hr s hs htied⟩

end Order

def proposalOf (champion : String) : UpgradeProposal ℕ where
  id := "eip-7702"
  eipNumbers := [7702]
  title := "Set code"
  champion
  phase := .signaling
  governanceModel := .coreDevConsensus
  signalThresholdPct := 67
  currentSignalPct := 80
  forkStrategy := .manualActivation
  activationEpoch := none
  createdAtUnix := 1700000000
  approvedAtUnix := none

/-- Two proposals that differ in their champions only, in either order. -/
theorem champion_order_is_hashed : ∃ (proposals proposals' : List (UpgradeProposal ℕ))
    (stats : UpgradeGovernanceStats ℕ), proposals.Perm proposals' ∧
      commitmentPayload (min · 100) id proposals' [] stats ≠ commitmentPayload (min · 100) id proposals [] stats := by
  refine ⟨[proposalOf "alice", proposalOf "bob"], [proposalOf "bob", proposalOf "alice"],
    ⟨2, 0, 0, 0, 80, 0, FixedBytes.zero⟩, .swap _ _ _, fun h => ?_⟩
  have htied := congrArg (List.filter fun entry =>
    compareProposals (proposalEntry (min · 100) (proposalOf "alice")) entry = .eq) (congrArg (·.proposals) h)
  rw [commitmentPayload, commitmentPayload, filter_sortBy, filter_sortBy] at htied
  exact absurd (congrArg (List.map (·.champion)) htied) (by decide +kernel)

end UpgradeGovernance
end Eth2077
