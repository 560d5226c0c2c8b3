import Eth2077.Execution.Eip7928

/-!
# Announcements of transactions (`types/src/eip8077.rs`)

A peer announces transactions by their hashes, each with its sender and nonce. What has been announced is put in an order
to be fetched in, with the transactions first that can be executed at once, and batches are merged into one that keeps
what was announced first.
-/

namespace Eth2077
namespace Eip8077
open SortBy

structure EnhancedTxAnnouncement where
  txHash : B256
  txType : UInt8
  txSize : UInt32
  sender : Address
  nonce : UInt64
deriving DecidableEq

structure TxAnnouncementBatch where
  announcements : List EnhancedTxAnnouncement
  peerId : B256
deriving DecidableEq

inductive TxAnnouncementError where
  | emptyBatch
  | duplicateTxHash (txHash : B256)
  | invalidTxType (txType : UInt8)
  | zeroSize (txHash : B256)
  | nonceGapDetected (sender : Address) (expected actual : UInt64)
deriving DecidableEq

/-- The body of the loop of `validate_announcement_batch`. -/
def announcementErrors (seen : Bool) (announcement : EnhancedTxAnnouncement) : List TxAnnouncementError :=
  (if seen then [.duplicateTxHash announcement.txHash] else []) ++
    (if 3 < announcement.txType then [.invalidTxType announcement.txType] else []) ++
    if announcement.txSize = 0 then [.zeroSize announcement.txHash] else []

def validateAnnouncementBatch (batch : TxAnnouncementBatch) : Except (List TxAnnouncementError) Unit :=
  Seen.report
    ((if batch.announcements = [] then [.emptyBatch] else []) ++
      Seen.collect EnhancedTxAnnouncement.txHash announcementErrors ∅ batch.announcements)

section Prioritize
variable (knownNonces : HashMap Address UInt64)

def EnhancedTxAnnouncement.known (announcement : EnhancedTxAnnouncement) : UInt64 :=
  (knownNonces.lookup announcement.sender).getD 0

/-- The transaction is the next one of its sender. -/
def EnhancedTxAnnouncement.exec (announcement : EnhancedTxAnnouncement) : Bool :=
  announcement.nonce = announcement.known knownNonces

def compareAnnouncements (a b : EnhancedTxAnnouncement) : Ordering :=
  (compare (b.exec knownNonces) (a.exec knownNonces)).then
    ((compare a.nonce b.nonce).then ((compare a.sender b.sender).then (compare a.txHash b.txHash)))

/-- `sort_unstable_by` may leave announcements that compare equal in any order, hence the one it starts from. -/
def prioritizeAnnouncements (order : IterOrder EnhancedTxAnnouncement) (batch : TxAnnouncementBatch) :
    List EnhancedTxAnnouncement :=
  sortBy (compareAnnouncements knownNonces)
    (order.order (batch.announcements.filter fun announcement => announcement.known knownNonces ≤ announcement.nonce))

end Prioritize

/-- The loop goes through the announcements of all batches with one set of seen hashes. -/
def mergeAnnouncementBatches (batches : List TxAnnouncementBatch) : TxAnnouncementBatch :=
  ⟨Seen.keepFirst EnhancedTxAnnouncement.txHash ∅ (batches.flatMap TxAnnouncementBatch.announcements), .zero⟩

/-! ### Priorities -/

section Priorities
variable {knownNonces : HashMap Address UInt64} {a b : EnhancedTxAnnouncement}

instance : Std.TransCmp (compareAnnouncements knownNonces) := by
  have hexec : Std.TransCmp fun a b : EnhancedTxAnnouncement => compare (a.exec knownNonces) (b.exec knownNonces) :=
    transCmp_on compare fun a : EnhancedTxAnnouncement => a.exec knownNonces
  have hflip : Std.TransCmp fun a b : EnhancedTxAnnouncement => compare (b.exec knownNonces) (a.exec knownNonces) :=
    .opposite
  have h : compareAnnouncements knownNonces =
      compareLex (fun a b => compare (b.exec knownNonces) (a.exec knownNonces))
        (compareLex (compareOn EnhancedTxAnnouncement.nonce)
          (compareLex (compareOn EnhancedTxAnnouncement.sender) (compareOn EnhancedTxAnnouncement.txHash))) := rfl
  rw [h]
  infer_instance

/-- What comes first can be executed at once and the other cannot, or both or neither and it has no larger nonce. -/
theorem of_compareAnnouncements (h : (compareAnnouncements knownNonces a b).isLE = true) :
    (a.exec knownNonces = true ∧ b.exec knownNonces = false) ∨
      (a.exec knownNonces = b.exec knownNonces ∧ a.nonce ≤ b.nonce) := by
  rcases Ordering.isLE_then_iff_or.mp h with hexec | ⟨hexec, hrest⟩
  · left
    cases ha : a.exec knownNonces <;> cases hb : b.exec knownNonces <;> simp_all
  · right
    refine ⟨(Std.LawfulEqOrd.eq_of_compare hexec).symm, Std.isLE_compare.mp ?_⟩
    exact Ordering.isLE_left_of_isLE_then hrest

/-- An order in which nothing is lost that can still be executed. -/
structure Prioritised (knownNonces : HashMap Address UInt64) (batch : TxAnnouncementBatch)
    (prioritized : List EnhancedTxAnnouncement) : Prop where
  perm : prioritized.Perm
    (batch.announcements.filter fun announcement => announcement.known knownNonces ≤ announcement.nonce)
  executable : prioritized.Pairwise fun a b => b.exec knownNonces = true → a.exec knownNonces = true
  nonces : ∀ sender, ((prioritized.filter fun a => a.sender = sender).map EnhancedTxAnnouncement.nonce).Pairwise (· ≤ ·)

theorem prioritised (order : IterOrder EnhancedTxAnnouncement) (batch : TxAnnouncementBatch) :
    Prioritised knownNonces batch (prioritizeAnnouncements knownNonces order batch) := by
  have hperm : (prioritizeAnnouncements knownNonces order batch).Perm
      (batch.announcements.filter fun announcement => announcement.known knownNonces ≤ announcement.nonce) :=
    (sortBy_perm ..).trans (order.perm _)
  have hsorted := pairwise_sortBy (compareAnnouncements knownNonces)
    (order.order (batch.announcements.filter fun announcement => announcement.known knownNonces ≤ announcement.nonce))
  refine ⟨hperm, hsorted.imp fun {a b} hab hb => ?_, fun sender => ?_⟩
  · rcases of_compareAnnouncements hab with ⟨ha, -⟩ | ⟨heq, -⟩
    · exact ha
    · rw [heq, hb]
  · rw [List.pairwise_map, List.pairwise_filter]
    refine hsorted.imp_of_mem fun {a b} ha hb hab hsender hsender' => ?_
    rcases of_compareAnnouncements hab with ⟨hexec, -⟩ | ⟨-, hle⟩
    · -- the first has the nonce that is known, and the other is not below it
      have hknown : b.known knownNonces ≤ b.nonce := by simpa using (List.mem_filter.mp (hperm.mem_iff.mp hb)).2
      have hsame : a.known knownNonces = b.known knownNonces := by
        rw [EnhancedTxAnnouncement.known, of_decide_eq_true hsender, ← of_decide_eq_true hsender']
        rfl
      rw [of_decide_eq_true hexec, hsame]
      exact hknown
    · exact hle

end Priorities

/-! ### Merging -/

theorem validateAnnouncementBatch_eq_ok {batch : TxAnnouncementBatch} : validateAnnouncementBatch batch = .ok () ↔
    batch.announcements ≠ [] ∧ (batch.announcements.map EnhancedTxAnnouncement.txHash).Nodup ∧
      ∀ a ∈ batch.announcements, a.txType ≤ 3 ∧ a.txSize ≠ 0 := by
  unfold validateAnnouncementBatch
  rw [Seen.report_eq_ok, List.append_eq_nil_iff, Seen.collect_empty_eq_nil fun a => by simp [announcementErrors]]
  simp [announcementErrors, UInt8.not_lt]

/-- Each hash once, with the announcement seen first for it, in the order in which they were seen. -/
structure Merged (announcements merged : List EnhancedTxAnnouncement) : Prop where
  hashes : ∀ txHash, txHash ∈ merged.map EnhancedTxAnnouncement.txHash ↔
    txHash ∈ announcements.map EnhancedTxAnnouncement.txHash
  nodup : (merged.map EnhancedTxAnnouncement.txHash).Nodup
  first : ∀ a ∈ merged, announcements.find? (fun b => b.txHash = a.txHash) = some a
  order : merged.Pairwise fun a b =>
    (announcements.map EnhancedTxAnnouncement.txHash).idxOf a.txHash <
      (announcements.map EnhancedTxAnnouncement.txHash).idxOf b.txHash

theorem merged (announcements : List EnhancedTxAnnouncement) :
    Merged announcements (Seen.keepFirst EnhancedTxAnnouncement.txHash ∅ announcements) := by
  have horder := Seen.keepFirst_pairwise EnhancedTxAnnouncement.txHash ∅ announcements
  refine ⟨fun txHash => ?_, List.pairwise_map.mpr (horder.imp fun {a b} hlt heq => ?_),
    fun a ha => (Seen.mem_keepFirst.mp ha).2, horder⟩
  · rw [Seen.mem_map_keepFirst]
    exact and_iff_right (Finset.notMem_empty _)
  · rw [heq] at hlt
    exact lt_irrefl _ hlt

/-- A merge of valid batches is valid. -/
theorem validate_merge {batches : List TxAnnouncementBatch}
    (hvalid : ∀ batch ∈ batches, validateAnnouncementBatch batch = .ok ()) (hne : batches ≠ []) :
    validateAnnouncementBatch (mergeAnnouncementBatches batches) = .ok () := by
  have hmerged := merged (batches.flatMap TxAnnouncementBatch.announcements)
  refine validateAnnouncementBatch_eq_ok.mpr ⟨fun hnil => ?_, hmerged.nodup, fun a ha => ?_⟩
  · obtain ⟨batch, hbatch⟩ := List.exists_mem_of_ne_nil _ hne
    obtain ⟨hsome, -⟩ := validateAnnouncementBatch_eq_ok.mp (hvalid batch hbatch)
    obtain ⟨a, ha⟩ := List.exists_mem_of_ne_nil _ hsome
    have hmem := (hmerged.hashes a.txHash).mpr (List.mem_map_of_mem (List.mem_flatMap.mpr ⟨batch, hbatch, ha⟩))
    rw [show Seen.keepFirst _ _ _ = [] from hnil] at hmem
    cases hmem
  · obtain ⟨batch, hbatch, ha⟩ := List.mem_flatMap.mp (List.mem_of_find?_eq_some (hmerged.first a ha))
    exact (validateAnnouncementBatch_eq_ok.mp (hvalid batch hbatch)).2.2 a ha

theorem merge_groups (groups : List (List TxAnnouncementBatch)) :
    mergeAnnouncementBatches (groups.map mergeAnnouncementBatches) = mergeAnnouncementBatches groups.flatten := by
  have hgroups := Seen.keepFirst_flatMap_keepFirst EnhancedTxAnnouncement.txHash ∅
    (groups.map (·.flatMap TxAnnouncementBatch.announcements))
  have hall : groups.flatten.flatMap TxAnnouncementBatch.announcements =
      (groups.map (·.flatMap TxAnnouncementBatch.announcements)).flatten := by
    rw [← List.flatMap_def, ← List.flatMap_id', List.flatMap_assoc]
  rw [mergeAnnouncementBatches, mergeAnnouncementBatches, hall, ← hgroups, List.flatMap_map, List.flatMap_map]
  rfl

/-- Nothing is lost that can still be executed, and no hash where batches are merged. -/
theorem announcements_prioritised_and_merged :
    (∀ knownNonces order batch, Prioritised knownNonces batch (prioritizeAnnouncements knownNonces order batch)) ∧
    (∀ batches, Merged (batches.flatMap TxAnnouncementBatch.announcements)
        (mergeAnnouncementBatches batches).announcements ∧
      ((∀ batch ∈ batches, validateAnnouncementBatch batch = .ok ()) → batches ≠ [] →
        validateAnnouncementBatch (mergeAnnouncementBatches batches) = .ok ())) ∧
    ∀ groups : List (List TxAnnouncementBatch),
      mergeAnnouncementBatches (groups.map mergeAnnouncementBatches) = mergeAnnouncementBatches groups.flatten :=
  ⟨fun _ order batch => prioritised order batch, fun _ => ⟨merged _, validate_merge⟩, merge_groups⟩

end Eip8077
end Eth2077
