import Eth2077.Lib.Seen
import Eth2077.Types.Canonical

/-!
# Sparse blob custody (`execution/src/eip8070.rs`)

A cell belongs to the group that its index modulo the number of groups names. The assignment of a node, the cells of a
group and the check of a request each compute that modulus for themselves, and agree.
-/

namespace Eth2077
namespace Eip8070

def CELLS_PER_BLOB : UInt64 := 128

structure CustodyAssignment where
  nodeId : B256
  custodyGroup : UInt64
  totalGroups : UInt64

structure SparseBlobRequest where
  blobIndex : UInt64
  requestedCells : List UInt64
  custodyAssignment : CustodyAssignment

inductive SparseBlobError where
  | invalidCellIndex (cellIndex max : UInt64)
  | custodyGroupOutOfRange (group total : UInt64)
  | emptyCellRequest
  | cellNotInCustody (cellIndex custodyGroup : UInt64)
  | duplicateCellIndex (cellIndex : UInt64)
deriving DecidableEq

def computeCustodyAssignment (sha256 : List UInt8 → B256) (nodeId : B256) (totalGroups : UInt64) :
    CustodyAssignment :=
  let hash := sha256 nodeId.toList
  let hashValue := UInt64.ofNat (ofBe (hash.toList.take 8))
  let custodyGroup := if totalGroups = 0 then 0 else hashValue % totalGroups
  ⟨nodeId, custodyGroup, totalGroups⟩

def cellsForCustodyGroup (custodyGroup totalGroups cellsPerBlob : UInt64) : List UInt64 :=
  if totalGroups = 0 then []
  else
    (List.range cellsPerBlob.toNat).filterMap fun cell =>
      let cell := UInt64.ofNat cell
      if cell % totalGroups = custodyGroup then some cell else none

/-- The body of the loop over the requested cells. -/
def cellErrors (custodyGroupValid : Bool) (custodyGroup totalGroups : UInt64) (seen : Bool) (cellIndex : UInt64) :
    List SparseBlobError :=
  (if seen then [.duplicateCellIndex cellIndex] else []) ++
  (if CELLS_PER_BLOB ≤ cellIndex then [.invalidCellIndex cellIndex (CELLS_PER_BLOB.saturatingSub 1)] else []) ++
  (if custodyGroupValid ∧ cellIndex % totalGroups ≠ custodyGroup then [.cellNotInCustody cellIndex custodyGroup] else [])

def validateSparseBlobRequest (request : SparseBlobRequest) : Except (List SparseBlobError) Unit :=
  let custodyGroup := request.custodyAssignment.custodyGroup
  let totalGroups := request.custodyAssignment.totalGroups
  let custodyGroupValid : Bool := totalGroups ≠ 0 ∧ custodyGroup < totalGroups
  Seen.report
    ((if request.requestedCells = [] then [.emptyCellRequest] else []) ++
      (if custodyGroupValid then [] else [.custodyGroupOutOfRange custodyGroup totalGroups]) ++
      Seen.collect id (cellErrors custodyGroupValid custodyGroup totalGroups) ∅ request.requestedCells)

/-! ### The groups -/

variable {g t n c : UInt64}

/-- The numbers below `n`, from zero on. -/
def upTo (n : UInt64) : List UInt64 := (List.range n.toNat).map UInt64.ofNat

theorem mem_upTo : c ∈ upTo n ↔ c < n := by
  unfold upTo
  rw [List.mem_map, UInt64.lt_iff_toNat_lt]
  constructor
  · rintro ⟨i, hi, rfl⟩
    have := n.toNat_lt
    rw [List.mem_range] at hi
    rwa [UInt64.toNat_ofNat_of_lt' (hi.trans this)]
  · intro hc
    exact ⟨c.toNat, List.mem_range.mpr hc, UInt64.ofNat_toNat⟩

theorem nodup_upTo (n : UInt64) : (upTo n).Nodup := by
  refine List.Nodup.map_on (fun i hi j hj hij => ?_) List.nodup_range
  have := n.toNat_lt
  have h := congrArg UInt64.toNat hij
  rwa [UInt64.toNat_ofNat_of_lt' ((List.mem_range.mp hi).trans this),
    UInt64.toNat_ofNat_of_lt' ((List.mem_range.mp hj).trans this)] at h

theorem cellsForCustodyGroup_eq (ht : t ≠ 0) :
    cellsForCustodyGroup g t n = (upTo n).filter fun cell => cell % t = g := by
  unfold cellsForCustodyGroup upTo
  rw [if_neg ht, ← List.filterMap_eq_filter, List.filterMap_map]
  refine List.filterMap_congr fun i _ => ?_
  simp [Option.guard]

theorem mem_cellsForCustodyGroup : c ∈ cellsForCustodyGroup g t n ↔ t ≠ 0 ∧ c < n ∧ c % t = g := by
  by_cases ht : t = 0
  · simp [cellsForCustodyGroup, ht]
  · rw [cellsForCustodyGroup_eq ht, List.mem_filter, mem_upTo, decide_eq_true_eq]
    simp [ht]

theorem mod_lt_of_ne_zero (ht : t ≠ 0) : c % t < t := UInt64.mod_lt c (UInt64.pos_iff_ne_zero.mpr ht)

/-- The groups share the cells out. -/
theorem groups_partition (ht : t ≠ 0) : ((upTo t).flatMap fun g => cellsForCustodyGroup g t n).Perm (upTo n) := by
  refine (List.perm_ext_iff_of_nodup ?_ (nodup_upTo n)).mpr fun c => ?_
  · refine List.nodup_flatMap.mpr ⟨fun g _ => ?_, (nodup_upTo t).imp fun {g g'} hne c hc hc' => hne ?_⟩
    · rw [cellsForCustodyGroup_eq ht]
      exact (nodup_upTo n).filter _
    · exact (mem_cellsForCustodyGroup.mp hc).2.2.symm.trans (mem_cellsForCustodyGroup.mp hc').2.2
  · simp only [List.mem_flatMap, mem_upTo, mem_cellsForCustodyGroup]
    constructor
    · rintro ⟨_, _, _, hc, _⟩
      exact hc
    · intro hc
      exact ⟨c % t, mod_lt_of_ne_zero ht, ht, hc, rfl⟩

theorem custodyGroup_lt (sha256 : List UInt8 → B256) (nodeId : B256) (ht : t ≠ 0) :
    (computeCustodyAssignment sha256 nodeId t).custodyGroup < t := by
  unfold computeCustodyAssignment
  dsimp only
  rw [if_neg ht]
  exact mod_lt_of_ne_zero ht

/-! ### Requests -/

theorem cellErrors_eq_nil : cellErrors true g t false c = [] ↔ c < CELLS_PER_BLOB ∧ c % t = g := by
  simp [cellErrors]

theorem cellsErrors_eq_nil {cells : List UInt64} : Seen.collect id (cellErrors true g t) ∅ cells = [] ↔
    cells.Nodup ∧ ∀ c ∈ cells, c < CELLS_PER_BLOB ∧ c % t = g := by
  rw [Seen.collect_empty_eq_nil (fun c => by simp [cellErrors]), List.map_id]
  simp only [cellErrors_eq_nil]

theorem validateSparseBlobRequest_iff (request : SparseBlobRequest) : validateSparseBlobRequest request = .ok () ↔
    (request.requestedCells ≠ [] ∧ request.requestedCells.Nodup ∧
      ∀ c ∈ request.requestedCells, c ∈ cellsForCustodyGroup request.custodyAssignment.custodyGroup
        request.custodyAssignment.totalGroups CELLS_PER_BLOB) ∧
    request.custodyAssignment.custodyGroup < request.custodyAssignment.totalGroups := by
  obtain ⟨blobIndex, cells, nodeId, g, t⟩ := request
  have hvalid : (t ≠ 0 ∧ g < t) ↔ g < t :=
    ⟨fun h => h.2, fun h => ⟨UInt64.pos_iff_ne_zero.mp (UInt64.lt_of_le_of_lt UInt64.zero_le h), h⟩⟩
  unfold validateSparseBlobRequest
  simp only [Seen.report_eq_ok, hvalid, List.append_eq_nil_iff]
  by_cases hg : g < t
  · have ht : t ≠ 0 := (hvalid.mpr hg).1
    simp only [hg, decide_true, cellsErrors_eq_nil, mem_cellsForCustodyGroup]
    simp [ht]
  · simp [hg]

/-- The groups share the cells out, an assignment names one of them, and a request is good if and only if it asks the
group for some of its cells, each once. -/
theorem custody_covers_cells (sha256 : List UInt8 → B256) :
    (∀ totalGroups cellsPerBlob, 0 < totalGroups →
      ((upTo totalGroups).flatMap fun g => cellsForCustodyGroup g totalGroups cellsPerBlob).Perm (upTo cellsPerBlob) ∧
      ∀ nodeId, (computeCustodyAssignment sha256 nodeId totalGroups).custodyGroup ∈ upTo totalGroups) ∧
    ∀ request, validateSparseBlobRequest request = .ok () ↔
      (request.requestedCells ≠ [] ∧ request.requestedCells.Nodup ∧
        ∀ c ∈ request.requestedCells, c ∈ cellsForCustodyGroup request.custodyAssignment.custodyGroup
          request.custodyAssignment.totalGroups CELLS_PER_BLOB) ∧
      request.custodyAssignment.custodyGroup < request.custodyAssignment.totalGroups := by
  refine ⟨fun t n hpos => ?_, validateSparseBlobRequest_iff⟩
  have ht := UInt64.pos_iff_ne_zero.mp hpos
  exact ⟨groups_partition ht, fun nodeId => mem_upTo.mpr (custodyGroup_lt sha256 nodeId ht)⟩

/-- The digest of a node id of sevens. -/
def sevensDigest (bs : List UInt8) : B256 :=
  if bs = List.replicate 32 7 then .ofNat 32 0x4bb06f8e4e3a7715d201d573d0aa423762e55dabd61a2c02278fa56cc6d294e0 else .zero

/-- Three groups of the five cells there might be, and the one of that node. -/
theorem custody_covers_cells_three_groups :
    ([0, 3, 1, 4, 2] : List UInt64).Perm (upTo 5) ∧
    (computeCustodyAssignment sevensDigest (.repeatByte 7) 3).custodyGroup ∈ upTo 3 := by
  obtain ⟨hcells, hgroup⟩ := (custody_covers_cells sevensDigest).1 3 5 (by decide)
  exact ⟨hcells, hgroup (.repeatByte 7)⟩

end Eip8070
end Eth2077
