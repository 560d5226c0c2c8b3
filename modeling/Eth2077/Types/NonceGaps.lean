import Mathlib.Data.Finset.Card
import Eth2077.Lib.Gaps
import Eth2077.Lib.KeyedFold
import Eth2077.Types.Eip8077

/-!
# Gaps in the nonces of a sender (`types/src/eip8077.rs`, `detect_nonce_gaps` and `compute_announcement_stats`)

The nonces of every sender are collected and sorted, and two neighbours of which the second is not the successor of the
first are reported as a gap. A nonce that is announced twice is reported as well, unless it is the largest there is, whose
successor saturates.
-/

namespace Eth2077
namespace Eip8077
open SortBy Gaps

structure NonceSummary where
  sender : Address
  minNonce : UInt64
  maxNonce : UInt64
  count : ℕ
  hasGaps : Bool
deriving DecidableEq

structure AnnouncementBatchStats where
  totalAnnouncements : ℕ
  uniqueSenders : ℕ
  totalTxBytes : UInt64
  nonceSummaries : List NonceSummary
deriving DecidableEq

/-- `by_sender.entry(sender).or_default().push(nonce)` -/
def pushNonce (bySender : HashMap Address (List UInt64)) (announcement : EnhancedTxAnnouncement) :
    HashMap Address (List UInt64) :=
  bySender.insert announcement.sender ((bySender.lookup announcement.sender).getD [] ++ [announcement.nonce])

def bySender (batch : TxAnnouncementBatch) : HashMap Address (List UInt64) :=
  batch.announcements.foldl pushNonce ∅

/-- `sort_unstable` of numbers, which are equal only if they are the same. -/
def sorted (nonces : List UInt64) : List UInt64 := sortBy compare nonces

/-- The body of the loop over the senders. -/
def gapErrors (entry : Address × List UInt64) : List TxAnnouncementError :=
  (windows (sorted entry.2)).flatMap fun window =>
    let expected := window.1.saturatingAdd 1
    let actual := window.2
    if actual ≠ expected then [.nonceGapDetected entry.1 expected actual] else []

def detectNonceGaps (order : IterOrder (Address × List UInt64)) (batch : TxAnnouncementBatch) :
    List TxAnnouncementError :=
  (traverse order (bySender batch)).flatMap gapErrors

def summarise (entry : Address × List UInt64) : NonceSummary :=
  let nonces := sorted entry.2
  { sender := entry.1
    minNonce := nonces.head?.getD 0
    maxNonce := nonces.getLast?.getD 0
    count := nonces.length
    hasGaps := (windows nonces).any fun window => window.2 ≠ window.1.saturatingAdd 1 }

def computeAnnouncementStats (order : IterOrder (Address × List UInt64)) (batch : TxAnnouncementBatch) :
    AnnouncementBatchStats where
  totalAnnouncements := batch.announcements.length
  uniqueSenders := (batch.announcements.map EnhancedTxAnnouncement.sender).toFinset.card
  totalTxBytes := batch.announcements.foldl (fun total a => total.saturatingAdd a.txSize.toUInt64) 0
  nonceSummaries := sortBy (compareOn NonceSummary.sender) ((traverse order (bySender batch)).map summarise)

/-! ### The nonces of a sender -/

/-- The order of `u64`, in which the successor saturates. -/
local instance u64LinearOrder : LinearOrder UInt64 where
  le_refl := UInt64.le_refl
  le_trans := fun _ _ _ => UInt64.le_trans
  le_antisymm := fun _ _ => UInt64.le_antisymm
  le_total := UInt64.le_total
  lt_iff_le_not_ge := fun a b => by
    rw [UInt64.lt_iff_toNat_lt, UInt64.le_iff_toNat_le, UInt64.le_iff_toNat_le]
    omega
  toDecidableLE := inferInstance
  toDecidableEq := inferInstance
  toDecidableLT := inferInstance

theorem toNat_successor (a : UInt64) : (a.saturatingAdd 1).toNat = min (a.toNat + 1) UInt64.maxNat :=
  UInt64.toNat_saturatingAdd a 1

theorem isMax_iff {a : UInt64} : IsMax a ↔ a.toNat = UInt64.maxNat := by
  constructor
  · intro hmax
    have hle : UInt64.ofNat UInt64.maxNat ≤ a := hmax (UInt64.le_iff_toNat_le.mpr a.toNat_le_maxNat)
    exact le_antisymm a.toNat_le_maxNat (UInt64.le_iff_toNat_le.mp hle)
  · intro hmax b _
    rw [UInt64.le_iff_toNat_le, hmax]
    exact b.toNat_le_maxNat

local instance u64SuccOrder : SuccOrder UInt64 where
  succ := fun a => a.saturatingAdd 1
  le_succ := fun a => by
    have hle := a.toNat_le_maxNat
    rw [UInt64.le_iff_toNat_le, toNat_successor]
    omega
  max_of_succ_le := fun {a} hle => by
    have hle' := a.toNat_le_maxNat
    rw [UInt64.le_iff_toNat_le, toNat_successor] at hle
    rw [isMax_iff]
    omega
  succ_le_of_lt := fun {a b} hlt => by
    rw [UInt64.lt_iff_toNat_lt] at hlt
    rw [UInt64.le_iff_toNat_le, toNat_successor]
    omega

def nonces (batch : TxAnnouncementBatch) (sender : Address) : List UInt64 :=
  (batch.announcements.filter fun a => a.sender = sender).map EnhancedTxAnnouncement.nonce

section Errors
variable {batch : TxAnnouncementBatch} {sender sender' : Address} {l : List UInt64} {expected actual : UInt64}
  {order : IterOrder (Address × List UInt64)}

theorem lookup_bySender : (bySender batch).lookup sender =
    if nonces batch sender = [] then none else some (nonces batch sender) := by
  have hlocal : KeyedFold.Local (fun m : HashMap Address (List UInt64) => fun sender => m.lookup sender)
      EnhancedTxAnnouncement.sender (fun a w => some (w.getD [] ++ [a.nonce])) pushNonce :=
    ⟨fun m a => AList.lookup_insert .., fun m a sender hne => AList.lookup_insert_ne hne⟩
  rw [bySender, hlocal.foldl_filter, KeyedFold.foldl_push, AList.lookup_empty]
  exact if_congr (List.map_eq_nil_iff.symm) rfl rfl

theorem mem_traverse_bySender {entry : Address × List UInt64} : entry ∈ traverse order (bySender batch) ↔
    entry.2 ≠ [] ∧ entry.2 = nonces batch entry.1 := by
  rw [show entry = (entry.1, entry.2) from rfl, mem_traverse, lookup_bySender]
  split_ifs with hnil
  · simp +contextual [hnil]
  · rw [Option.some.injEq, eq_comm]
    exact ⟨fun h => ⟨h ▸ hnil, h⟩, And.right⟩

theorem mem_senders : sender ∈ batch.announcements.map EnhancedTxAnnouncement.sender ↔ nonces batch sender ≠ [] := by
  rw [nonces, Ne, List.map_eq_nil_iff, List.filter_eq_nil_iff]
  simp

theorem nonces_ne_nil {w : UInt64 × UInt64} (h : w ∈ gaps (sorted (nonces batch sender))) : nonces batch sender ≠ [] := by
  intro hnil
  rw [hnil, sorted, sortBy, List.mergeSort_nil] at h
  cases h

theorem mem_gapErrors : .nonceGapDetected sender expected actual ∈ gapErrors (sender', l) ↔
    sender = sender' ∧ (expected, actual) ∈ gaps (sorted l) := by
  rw [gapErrors, gaps, List.mem_flatMap, List.mem_map]
  constructor
  · rintro ⟨window, hwindow, herror⟩
    obtain ⟨hne, heq⟩ := List.mem_ite_nil_right.mp herror
    obtain ⟨rfl, rfl, rfl⟩ := TxAnnouncementError.nonceGapDetected.inj (List.mem_singleton.mp heq)
    exact ⟨rfl, window, List.mem_filter.mpr ⟨hwindow, decide_eq_true hne⟩, rfl⟩
  · rintro ⟨rfl, window, hwindow, heq⟩
    obtain ⟨rfl, rfl⟩ := Prod.mk.inj heq
    obtain ⟨hwindow, hne⟩ := List.mem_filter.mp hwindow
    exact ⟨window, hwindow, List.mem_ite_nil_right.mpr ⟨of_decide_eq_true hne, List.mem_singleton_self _⟩⟩

theorem mem_detectNonceGaps : .nonceGapDetected sender expected actual ∈ detectNonceGaps order batch ↔
    (expected, actual) ∈ gaps (sorted (nonces batch sender)) := by
  rw [detectNonceGaps, List.mem_flatMap]
  constructor
  · rintro ⟨entry, hentry, herror⟩
    obtain ⟨rfl, hgap⟩ := mem_gapErrors.mp herror
    rwa [← (mem_traverse_bySender.mp hentry).2]
  · intro hgap
    exact ⟨(sender, nonces batch sender), mem_traverse_bySender.mpr ⟨nonces_ne_nil hgap, rfl⟩,
      mem_gapErrors.mpr ⟨rfl, hgap⟩⟩

/-- The summaries are those of the senders. -/
theorem mem_nonceSummaries {summary : NonceSummary} :
    summary ∈ (computeAnnouncementStats order batch).nonceSummaries ↔
      nonces batch summary.sender ≠ [] ∧ summary = summarise (summary.sender, nonces batch summary.sender) := by
  rw [computeAnnouncementStats, mem_sortBy, List.mem_map]
  constructor
  · rintro ⟨entry, hentry, rfl⟩
    obtain ⟨hsome, heq⟩ := mem_traverse_bySender.mp hentry
    show nonces batch entry.1 ≠ [] ∧ summarise entry = summarise (entry.1, nonces batch entry.1)
    rw [← heq]
    exact ⟨hsome, rfl⟩
  · rintro ⟨hsome, heq⟩
    exact ⟨_, mem_traverse_bySender.mpr ⟨hsome, rfl⟩, heq.symm⟩

theorem hasGaps_summarise : (summarise (sender, l)).hasGaps = true ↔ gaps (sorted l) ≠ [] := by
  rw [gaps, Ne, List.map_eq_nil_iff, List.filter_eq_nil_iff, summarise]
  simp only [List.any_eq_true, not_forall, not_not, exists_prop]
  exact Iff.rfl

end Errors

/-! ### When gaps are reported exactly -/

section Exact
variable {batch : TxAnnouncementBatch} {sender : Address} {l : List UInt64}

theorem sorted_pairwise (l : List UInt64) : (sorted l).Pairwise (· ≤ ·) :=
  (pairwise_sortBy compare l).imp fun h => Std.isLE_compare.mp h

theorem missing_sorted : Missing (sorted l) ↔ Missing l := by
  simp only [Missing, sorted, mem_sortBy]

theorem isGap_sorted {e b : UInt64} (h : IsGap (sorted l) e b) : IsGap l e b := by
  obtain ⟨hbefore, hnext, hlt, hmissing⟩ := h
  simp only [sorted, mem_sortBy] at hbefore hnext hmissing
  exact ⟨hbefore, hnext, hlt, hmissing⟩

/-- No sender announces a nonce below the largest number twice. -/
def NoReplacements (batch : TxAnnouncementBatch) : Prop :=
  ((batch.announcements.filter fun a => a.nonce.toNat ≠ UInt64.maxNat).map fun a => (a.sender, a.nonce)).Nodup

theorem spread_sorted : Spread (sorted l) ↔ (l.filter fun n => n.toNat ≠ UInt64.maxNat).Nodup := by
  have hmax : ∀ n : UInt64, decide (n.toNat ≠ UInt64.maxNat) = true ↔ ¬ IsMax n := fun n => by
    rw [isMax_iff, decide_eq_true_iff]
  rw [spread_iff_nodup hmax (sorted_pairwise l)]
  exact ((sortBy_perm compare l).filter _).nodup_iff

theorem noReplacements_iff : NoReplacements batch ↔ ∀ sender, Spread (sorted (nonces batch sender)) := by
  simp only [spread_sorted, NoReplacements, nonces, List.Nodup, List.pairwise_map, List.pairwise_filter,
    List.filter_map, Function.comp_def]
  simp only [List.pairwise_iff_getElem]
  constructor
  · intro h sender i j hi hj hij hsender hsender' hi' hj' heq
    refine h i j hi hj hij hi' hj' (Prod.ext ?_ heq)
    exact (of_decide_eq_true hsender).trans (of_decide_eq_true hsender').symm
  · intro h i j hi hj hij hi' hj' heq
    obtain ⟨hsender, hnonce⟩ := Prod.mk.inj heq
    exact h _ i j hi hj hij (decide_eq_true rfl) (decide_eq_true hsender.symm) hi' hj' hnonce

/-- Gaps in the nonces of a sender are reported, and nothing else. -/
structure GapsExact (order order' : IterOrder (Address × List UInt64)) (batch : TxAnnouncementBatch)
    (sender : Address) : Prop where
  reported : (∃ expected actual, .nonceGapDetected sender expected actual ∈ detectNonceGaps order batch) ↔
    Missing (nonces batch sender)
  summarised : ∃ summary ∈ (computeAnnouncementStats order' batch).nonceSummaries, summary.sender = sender
  hasGaps : ∀ summary ∈ (computeAnnouncementStats order' batch).nonceSummaries, summary.sender = sender →
    (summary.hasGaps = true ↔ Missing (nonces batch sender))
  pairs : ∀ expected actual, .nonceGapDetected sender expected actual ∈ detectNonceGaps order batch →
    IsGap (nonces batch sender) expected actual

/-- Gaps are reported exactly if and only if no nonce below the largest number is announced twice by a sender. -/
theorem nonce_gaps_exact_iff (order order' : IterOrder (Address × List UInt64)) (batch : TxAnnouncementBatch) :
    (∀ sender ∈ batch.announcements.map EnhancedTxAnnouncement.sender, GapsExact order order' batch sender) ↔
      NoReplacements batch := by
  rw [noReplacements_iff]
  constructor
  · intro hexact sender
    refine spread_of_isGap (sorted_pairwise _) fun w hw => ?_
    exact ((hexact sender (mem_senders.mpr (nonces_ne_nil hw))).pairs _ _ (mem_detectNonceGaps.mpr hw)).lt
  · intro hspread sender hsender
    have hgaps := gaps_eq_nil_iff (hspread sender)
    rw [missing_sorted] at hgaps
    refine ⟨?_, ⟨summarise (sender, nonces batch sender), mem_nonceSummaries.mpr ⟨mem_senders.mp hsender, rfl⟩, rfl⟩,
      ?_, ?_⟩
    · rw [← not_iff_not, ← hgaps, List.eq_nil_iff_forall_not_mem]
      simp only [mem_detectNonceGaps, not_exists, Prod.forall]
    · rintro summary hsummary rfl
      obtain ⟨-, heq⟩ := mem_nonceSummaries.mp hsummary
      rw [heq, hasGaps_summarise, Ne, hgaps, not_not]
      rfl
    · intro expected actual herror
      exact isGap_sorted (isGap_of_mem (hspread sender) (mem_detectNonceGaps.mp herror))

end Exact

/-- A transaction and its replacement. -/
def replaced : TxAnnouncementBatch :=
  ⟨[⟨.repeatByte 1, 2, 100, .repeatByte 0xEF, 7⟩, ⟨.repeatByte 2, 2, 100, .repeatByte 0xEF, 7⟩], .zero⟩

/-- A replacement of a transaction is reported as a gap, though no nonce is missing. -/
theorem replacement_reported : validateAnnouncementBatch replaced = .ok () ∧
    nonces replaced (.repeatByte 0xEF) = [7, 7] ∧
    .nonceGapDetected (.repeatByte 0xEF) 8 7 ∈ detectNonceGaps .stored replaced ∧
    ∃ summary ∈ (computeAnnouncementStats .stored replaced).nonceSummaries, summary.hasGaps = true := by
  have hnonces : nonces replaced (.repeatByte 0xEF) = [7, 7] := by decide
  have hsorted : sorted [7, 7] = [7, 7] := List.mergeSort_of_pairwise (by decide)
  refine ⟨by decide, hnonces, mem_detectNonceGaps.mpr ?_, summarise (.repeatByte 0xEF, [7, 7]), ?_, ?_⟩
  · rw [hnonces, hsorted]
    decide
  · refine mem_nonceSummaries.mpr ⟨?_, ?_⟩
    · show nonces replaced (.repeatByte 0xEF) ≠ []
      rw [hnonces]
      exact List.cons_ne_nil _ _
    · show _ = summarise (.repeatByte 0xEF, nonces replaced (.repeatByte 0xEF))
      rw [hnonces]
  · rw [hasGaps_summarise, hsorted]
    decide

end Eip8077
end Eth2077
