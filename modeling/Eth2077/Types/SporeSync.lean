import Mathlib.Data.Finset.Card
import Eth2077.Lib.Saturating
import Eth2077.Lib.Xor
import Eth2077.Prim

/-!
# Fingerprints of sets of hashes (`types/src/spore_sync.rs`)

A fingerprint keeps the exclusive or of the hashes that were put in and not taken out, and how many there are. It is a
function of the multiset of these, and two fingerprints of sets differ by what is in one of them only.
-/

namespace Eth2077
namespace SporeSync

structure SporeFingerprint where
  xorAccumulator : FixedBytes 32
  count : UInt64
deriving DecidableEq

/-- Two arrays byte by byte. -/
abbrev xorBytes (a b : FixedBytes 32) : FixedBytes 32 := List.Vector.map₂ (· ^^^ ·) a b

instance : XorLike xorBytes FixedBytes.zero := XorLike.vector

namespace SporeFingerprint

def new : SporeFingerprint := ⟨.zero, 0⟩

/-- `none` is the panic of `count += 1` in a build with overflow checks; without them the count wraps. -/
def insert (overflowChecks : Bool) (fp : SporeFingerprint) (cidHash : FixedBytes 32) : Option SporeFingerprint :=
  if overflowChecks ∧ fp.count.toNat = UInt64.maxNat then none
  else some ⟨xorBytes fp.xorAccumulator cidHash, fp.count + 1⟩

def remove (fp : SporeFingerprint) (cidHash : FixedBytes 32) : SporeFingerprint :=
  ⟨xorBytes fp.xorAccumulator cidHash, fp.count.saturatingSub 1⟩

def isSyncedWith (fp other : SporeFingerprint) : Bool := fp = other

def difference (fp other : SporeFingerprint) : FixedBytes 32 := xorBytes fp.xorAccumulator other.xorAccumulator

end SporeFingerprint

inductive SporeCall where
  | insert (cidHash : FixedBytes 32)
  | remove (cidHash : FixedBytes 32)

def SporeCall.run (overflowChecks : Bool) (fp : SporeFingerprint) : SporeCall → Option SporeFingerprint
  | insert cidHash => fp.insert overflowChecks cidHash
  | remove cidHash => some (fp.remove cidHash)

/-- The calls one after another, from an empty fingerprint. -/
def fingerprintOf (overflowChecks : Bool) (calls : List SporeCall) : Option SporeFingerprint :=
  calls.foldlM (SporeCall.run overflowChecks) .new

/-- The hashes present after the calls, each of which takes out only what is present. -/
inductive Present : List SporeCall → Multiset (FixedBytes 32) → Prop
  | new : Present [] 0
  | insert {calls : List SporeCall} {hashes : Multiset (FixedBytes 32)} (cidHash : FixedBytes 32) :
    Present calls hashes → Present (calls ++ [.insert cidHash]) (cidHash ::ₘ hashes)
  | remove {calls : List SporeCall} {hashes : Multiset (FixedBytes 32)} {cidHash : FixedBytes 32} :
    Present calls hashes → cidHash ∈ hashes → Present (calls ++ [.remove cidHash]) (hashes.erase cidHash)

/-- The exclusive or of all elements. -/
def xorAll (hashes : Multiset (FixedBytes 32)) : FixedBytes 32 := XorLike.total xorBytes .zero hashes

/-- The fingerprint says what is present. -/
structure Summarises (fp : SporeFingerprint) (hashes : Multiset (FixedBytes 32)) : Prop where
  xorAccumulator : fp.xorAccumulator = xorAll hashes
  count : fp.count.toNat = hashes.card

section Step
variable {overflowChecks : Bool} {hashes : Multiset (FixedBytes 32)} {cidHash : FixedBytes 32}
  {fp fp' : SporeFingerprint}

theorem insert_eq_some : fp.insert overflowChecks cidHash = some fp' ↔
    ¬ (overflowChecks ∧ fp.count.toNat = UInt64.maxNat) ∧
      fp' = ⟨xorBytes fp.xorAccumulator cidHash, fp.count + 1⟩ := by
  unfold SporeFingerprint.insert
  split_ifs with hfull
  · simp [hfull]
  · rw [Option.some.injEq, eq_comm]
    exact (and_iff_right hfull).symm

theorem Summarises.insert (h : Summarises fp hashes) (hinsert : fp.insert true cidHash = some fp') :
    Summarises fp' (cidHash ::ₘ hashes) := by
  obtain ⟨hfull, rfl⟩ := insert_eq_some.mp hinsert
  have hle := fp.count.toNat_le_maxNat
  have hroom : fp.count.toNat + 1 < 2 ^ 64 := by
    rw [UInt64.maxNat] at hle hfull
    simp only [true_and] at hfull
    omega
  constructor
  · rw [xorAll, XorLike.total_cons, ← xorAll, ← h.xorAccumulator]
  · rw [UInt64.toNat_add, Multiset.card_cons, ← h.count]
    exact Nat.mod_eq_of_lt hroom

theorem Summarises.remove (h : Summarises fp hashes) (hmem : cidHash ∈ hashes) :
    Summarises (fp.remove cidHash) (hashes.erase cidHash) := by
  constructor
  · rw [xorAll, XorLike.total_erase hmem, ← xorAll, ← h.xorAccumulator]
    rfl
  · show (fp.count.saturatingSub 1).toNat = _
    rw [UInt64.toNat_saturatingSub, Multiset.card_erase_of_mem hmem, ← h.count]
    rfl

end Step

section Run
variable {overflowChecks : Bool} {calls : List SporeCall} {call : SporeCall} {hashes : Multiset (FixedBytes 32)}
  {cidHash : FixedBytes 32} {fp : SporeFingerprint}

theorem fingerprintOf_append : fingerprintOf overflowChecks (calls ++ [call]) =
    (fingerprintOf overflowChecks calls).bind fun fp => call.run overflowChecks fp := by
  rw [fingerprintOf, List.foldlM_append, ← fingerprintOf]
  simp [Option.bind_eq_bind]

theorem fingerprintOf_append_eq_some : fingerprintOf overflowChecks (calls ++ [call]) = some fp ↔
    ∃ fp₀, fingerprintOf overflowChecks calls = some fp₀ ∧ call.run overflowChecks fp₀ = some fp := by
  rw [fingerprintOf_append, Option.bind_eq_some_iff]

/-- Where the count does not overflow it makes no difference whether that is checked. -/
theorem summarises_of_present (h : Present calls hashes) (hrun : fingerprintOf true calls = some fp) :
    Summarises fp hashes ∧ fingerprintOf false calls = some fp := by
  induction h generalizing fp with
  | new =>
    cases hrun
    exact ⟨⟨rfl, rfl⟩, rfl⟩
  | insert cidHash _ ih =>
    obtain ⟨fp₀, hrun₀, hinsert⟩ := fingerprintOf_append_eq_some.mp hrun
    obtain ⟨hsum, hunchecked⟩ := ih hrun₀
    refine ⟨hsum.insert hinsert, fingerprintOf_append_eq_some.mpr ⟨fp₀, hunchecked, ?_⟩⟩
    exact insert_eq_some.mpr ⟨fun hchecked => Bool.noConfusion hchecked.1, (insert_eq_some.mp hinsert).2⟩
  | remove _ hmem ih =>
    obtain ⟨fp₀, hrun₀, hremove⟩ := fingerprintOf_append_eq_some.mp hrun
    obtain ⟨hsum, hunchecked⟩ := ih hrun₀
    cases hremove
    exact ⟨hsum.remove hmem, fingerprintOf_append_eq_some.mpr ⟨fp₀, hunchecked, rfl⟩⟩

/-- The exclusive or is right whether the count overflows or not. -/
theorem xorAccumulator_of_present (h : Present calls hashes) (hrun : fingerprintOf overflowChecks calls = some fp) :
    fp.xorAccumulator = xorAll hashes := by
  induction h generalizing fp with
  | new =>
    cases hrun
    rfl
  | insert cidHash _ ih =>
    obtain ⟨fp₀, hrun₀, hinsert⟩ := fingerprintOf_append_eq_some.mp hrun
    obtain ⟨-, rfl⟩ := insert_eq_some.mp hinsert
    rw [xorAll, XorLike.total_cons, ← xorAll, ← ih hrun₀]
  | remove _ hmem ih =>
    obtain ⟨fp₀, hrun₀, hremove⟩ := fingerprintOf_append_eq_some.mp hrun
    cases hremove
    rw [xorAll, XorLike.total_erase hmem, ← xorAll, ← ih hrun₀]
    rfl

theorem count_of_insert_eq_none (h : fp.insert overflowChecks cidHash = none) : fp.count.toNat = UInt64.maxNat := by
  unfold SporeFingerprint.insert at h
  rw [ite_eq_left_iff] at h
  by_contra hne
  exact Option.some_ne_none _ (h fun hfull => hne hfull.2)

/-- A run fails only where an insertion meets as many hashes as a `usize` can count. -/
theorem full_of_fingerprintOf_eq_none (h : Present calls hashes) (hrun : fingerprintOf true calls = none) :
    ∃ front cidHash present, front ++ [.insert cidHash] <+: calls ∧ Present front present ∧
      present.card = UInt64.maxNat := by
  induction h with
  | new => cases hrun
  | @insert calls hashes cidHash h ih =>
    cases hfront : fingerprintOf true calls with
    | none =>
      obtain ⟨front, cidHash', present, hprefix, hrest⟩ := ih hfront
      exact ⟨front, cidHash', present, hprefix.trans (List.prefix_append ..), hrest⟩
    | some fp =>
      rw [fingerprintOf_append, hfront] at hrun
      have hcount := count_of_insert_eq_none hrun
      exact ⟨calls, cidHash, hashes, List.prefix_rfl, h, (summarises_of_present h hfront).1.count ▸ hcount⟩
  | @remove calls hashes cidHash h hmem ih =>
    cases hfront : fingerprintOf true calls with
    | none =>
      obtain ⟨front, cidHash', present, hprefix, hrest⟩ := ih hfront
      exact ⟨front, cidHash', present, hprefix.trans (List.prefix_append ..), hrest⟩
    | some fp =>
      rw [fingerprintOf_append, hfront] at hrun
      cases hrun

end Run

/-! ### Sets -/

section Sets
variable {overflowChecks : Bool} {hashes : List (FixedBytes 32)} {fp other : SporeFingerprint}

/-- Every element inserted once. -/
def fingerprintOfSet (overflowChecks : Bool) (hashes : List (FixedBytes 32)) : Option SporeFingerprint :=
  fingerprintOf overflowChecks (hashes.map .insert)

theorem present_insert (hashes : List (FixedBytes 32)) : Present (hashes.map .insert) hashes := by
  induction hashes using List.reverseRecOn with
  | nil => exact .new
  | append_singleton hashes cidHash ih =>
    rw [List.map_append, ← Multiset.coe_eq_coe.mpr (List.perm_append_singleton cidHash hashes).symm]
    exact .insert cidHash ih

theorem count_fingerprintOfSet (h : fingerprintOfSet overflowChecks hashes = some fp) :
    fp.count = .ofNat hashes.length := by
  induction hashes using List.reverseRecOn generalizing fp with
  | nil =>
    cases h
    rfl
  | append_singleton hashes cidHash ih =>
    rw [fingerprintOfSet, List.map_append] at h
    obtain ⟨fp₀, hrun₀, hinsert⟩ := fingerprintOf_append_eq_some.mp h
    obtain ⟨-, rfl⟩ := insert_eq_some.mp hinsert
    rw [List.length_append, UInt64.ofNat_add, ih hrun₀]
    rfl

theorem difference_fingerprintOfSet {a b : List (FixedBytes 32)} (ha : a.Nodup) (hb : b.Nodup)
    (hfp : fingerprintOfSet overflowChecks a = some fp) (hother : fingerprintOfSet overflowChecks b = some other) :
    fp.difference other = xorAll (symmDiff a.toFinset b.toFinset).val := by
  have hvals : ∀ {l : List (FixedBytes 32)}, l.Nodup → (l : Multiset (FixedBytes 32)) = l.toFinset.val := by
    intro l hl
    rw [List.toFinset_val, hl.dedup]
  rw [SporeFingerprint.difference, xorAccumulator_of_present (present_insert a) hfp,
    xorAccumulator_of_present (present_insert b) hother, hvals ha, hvals hb]
  exact XorLike.op_total _ _

/-- Two fingerprints are synced if they have the same count and nothing is different. -/
theorem isSyncedWith_iff : fp.isSyncedWith other ↔ fp.difference other = .zero ∧ fp.count = other.count := by
  rw [SporeFingerprint.isSyncedWith, decide_eq_true_iff, SporeFingerprint.difference, XorLike.op_eq_zero_iff]
  cases fp
  cases other
  rw [SporeFingerprint.mk.injEq]

end Sets

/-- A fingerprint says what was put in and not taken out, in whatever order, and two of sets say what the sets do not
share. -/
theorem spore_fingerprints_summarise :
    (∀ calls hashes, Present calls hashes →
      (∀ overflowChecks fp, fingerprintOf overflowChecks calls = some fp → fp.xorAccumulator = xorAll hashes) ∧
      (∀ fp, fingerprintOf true calls = some fp → fp.count.toNat = hashes.card ∧ fingerprintOf false calls = some fp) ∧
      (fingerprintOf true calls = none → ∃ front cidHash present, front ++ [.insert cidHash] <+: calls ∧
        Present front present ∧ present.card = UInt64.maxNat)) ∧
    ∀ overflowChecks (a b : List (FixedBytes 32)) fp other, a.Nodup → b.Nodup →
      fingerprintOfSet overflowChecks a = some fp → fingerprintOfSet overflowChecks b = some other →
      fp.difference other = xorAll (symmDiff a.toFinset b.toFinset).val ∧
      (a.toFinset = b.toFinset → fp.difference other = .zero ∧ fp.count = other.count) := by
  constructor
  · intro calls hashes h
    refine ⟨fun _ _ hrun => xorAccumulator_of_present h hrun, fun fp hrun => ?_, full_of_fingerprintOf_eq_none h⟩
    obtain ⟨hsum, hunchecked⟩ := summarises_of_present h hrun
    exact ⟨hsum.count, hunchecked⟩
  · intro overflowChecks a b fp other ha hb hfp hother
    have hdifference := difference_fingerprintOfSet ha hb hfp hother
    refine ⟨hdifference, fun heq => ⟨?_, ?_⟩⟩
    · rw [hdifference, heq, symmDiff_self]
      rfl
    · rw [count_fingerprintOfSet hfp, count_fingerprintOfSet hother, ← List.toFinset_card_of_nodup ha, heq,
        List.toFinset_card_of_nodup hb]

/-- A history in which one hash is taken out and one comes twice, and three sets. -/
theorem spore_fingerprints_summarise_history :
    let h (b : UInt8) : FixedBytes 32 := .repeatByte b
    (∃ fp, fingerprintOf true [.insert (h 1), .insert (h 2), .insert (h 4), .remove (h 2), .insert (h 1)] = some fp ∧
      fp.xorAccumulator = xorAll {h 1, h 4, h 1} ∧ fp.count.toNat = 3) ∧
    ∃ fp other reordered, fingerprintOfSet true [h 1, h 2] = some fp ∧ fingerprintOfSet true [h 2, h 4] = some other ∧
      fingerprintOfSet true [h 2, h 1] = some reordered ∧
      fp.difference other = xorAll (symmDiff [h 1, h 2].toFinset [h 2, h 4].toFinset).val ∧
      fp.difference reordered = .zero ∧ fp.count = reordered.count := by
  intro h
  obtain ⟨hhistories, hsets⟩ := spore_fingerprints_summarise
  constructor
  · have hpresent : Present [.insert (h 1), .insert (h 2), .insert (h 4), .remove (h 2), .insert (h 1)]
        (h 1 ::ₘ (h 4 ::ₘ h 2 ::ₘ h 1 ::ₘ 0).erase (h 2)) :=
      .insert (h 1) (.remove (.insert (h 4) (.insert (h 2) (.insert (h 1) .new))) (by simp))
    have hleft : h 1 ::ₘ (h 4 ::ₘ h 2 ::ₘ h 1 ::ₘ 0).erase (h 2) = {h 1, h 4, h 1} := by decide
    rw [hleft] at hpresent
    obtain ⟨hxor, hcount, -⟩ := hhistories _ _ hpresent
    exact ⟨_, rfl, hxor true _ rfl, (hcount _ rfl).1⟩
  · have hfirst : [h 1, h 2].Nodup := by decide
    refine ⟨_, _, _, rfl, rfl, rfl, (hsets true _ [h 2, h 4] _ _ hfirst (by decide) rfl rfl).1, ?_⟩
    exact (hsets true _ [h 2, h 1] _ _ hfirst (by decide) rfl rfl).2 (by decide)

end SporeSync
end Eth2077
