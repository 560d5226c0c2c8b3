import Eth2077.Node.FailedRun
import Eth2077.Node.Numbers
import Eth2077.Node.Queries

/-!
# Blocks by number and by hash

The hash of a block is its height plus one, in the first 8 of 32 bytes. `eth_getBlockByHash` decodes those and looks
at nothing else of the text; `eth_getBlockByNumber` builds a block for any number. `blocks_agree_iff` says where the
two views are one all the same.
-/

namespace Eth2077

namespace BlockLookup

/-! ### Hashes -/

theorem toList_blockHash (n : UInt64) : (blockHash n).toList =
    '0' :: 'x' :: ((hexEncode (toBeBytes (n.saturatingAdd 1))).toList ++ List.replicate 48 '0') := by
  have hzeros : (hexEncode (List.replicate 24 0)).toList = List.replicate 48 '0' := by decide
  rw [blockHash, bytesToHex, String.toList_append, ← hzeros]
  simp only [hexEncode, List.flatMap_append, String.toList_ofList]
  rfl

section Decode
variable {s : String} {k n : UInt64}

theorem blockNumberFromHash_eq_some_iff : blockNumberFromHash s = some k ↔
    (strip0x s.toList).length = 64 ∧ (∀ c ∈ strip0x s.toList, isAsciiHexdigit c = true) ∧
      digitsValue 16 ((strip0x s.toList).take 16) = k.toNat + 1 := by
  unfold blockNumberFromHash
  generalize strip0x s.toList = raw
  dsimp only
  split_ifs with hbad
  · refine iff_of_false nofun ?_
    rintro ⟨hlen, hhex, -⟩
    rcases hbad with hbad | hbad
    · exact hbad hlen
    · simp [List.all_eq_true.mpr hhex] at hbad
  · obtain ⟨hlen, hhex⟩ := not_or.mp hbad
    have hlen : raw.length = 64 := not_not.mp hlen
    have hhex : ∀ c ∈ raw, isAsciiHexdigit c = true := by simpa using hhex
    have htake : ∀ c ∈ raw.take 16, isAsciiHexdigit c = true := fun c hc => hhex c (List.mem_of_mem_take hc)
    have hshort : (raw.take 16).length = 16 := by
      rw [List.length_take]
      omega
    have hnox : 'x' ∉ raw.take 16 := fun hx => absurd (htake 'x' hx) (by decide)
    have hne : raw.take 16 ≠ [] := List.ne_nil_of_length_pos (by omega)
    have hlt : digitsValue 16 (raw.take 16) < 2 ^ 64 := by
      have := digitsValue_lt htake
      rwa [hshort] at this
    have hparse : parseHexU64 (String.ofList (raw.take 16)) =
        some (UInt64.ofNat (digitsValue 16 (raw.take 16))) := by
      rw [parseHexU64, String.toList_ofList, strip0x_of_notMem hnox, fromStrRadix_digits hne htake, if_pos hlt]
      rfl
    rw [hparse, Option.bind_some]
    generalize digitsValue 16 (raw.take 16) = v at hlt
    have hv : (UInt64.ofNat v).toNat = v := UInt64.toNat_ofNat_of_lt' hlt
    have hzero : UInt64.ofNat v = 0 ↔ v = 0 := by
      rw [← UInt64.toNat_inj, hv]
      rfl
    have hk := k.toNat_lt
    constructor
    · intro h
      split_ifs at h with h0
      obtain rfl := Option.some_inj.mp h
      have hpos : v ≠ 0 := fun h => h0 (hzero.mpr h)
      have hle : (1 : UInt64) ≤ UInt64.ofNat v := by
        rw [UInt64.le_iff_toNat_le, hv]
        exact Nat.one_le_iff_ne_zero.mpr hpos
      rw [UInt64.toNat_sub_of_le _ _ hle, hv]
      exact ⟨hlen, hhex, (Nat.succ_pred_eq_of_ne_zero hpos).symm⟩
    · rintro ⟨-, -, rfl⟩
      rw [if_neg fun h => Nat.succ_ne_zero _ (hzero.mp h), Option.some_inj]
      apply UInt64.toNat_inj.mp
      have hle : (1 : UInt64) ≤ UInt64.ofNat (k.toNat + 1) := by
        rw [UInt64.le_iff_toNat_le, hv]
        exact Nat.le_add_left 1 _
      rw [UInt64.toNat_sub_of_le _ _ hle, hv]
      rfl

theorem blockNumberFromHash_blockHash :
    blockNumberFromHash (blockHash n) = some k ↔ (n.saturatingAdd 1).toNat = k.toNat + 1 := by
  have hdigits : ∀ c ∈ (hexEncode (toBeBytes (n.saturatingAdd 1))).toList ++ List.replicate 48 '0',
      isAsciiHexdigit c = true := by
    intro c hc
    rcases List.mem_append.mp hc with hc | hc
    · exact (isLowerHex_of_mem_hexEncode c hc).spec.1
    · rw [List.eq_of_mem_replicate hc]
      decide
  have hshort : (hexEncode (toBeBytes (n.saturatingAdd 1))).toList.length = 16 := by
    rw [length_toList_hexEncode, toBeBytes, length_beBytes]
  have hvalue : digitsValue 16 (hexEncode (toBeBytes (n.saturatingAdd 1))).toList = (n.saturatingAdd 1).toNat := by
    rw [digitsValue_hexEncode, toBeBytes, ofBe_beBytes]
    exact Nat.mod_eq_of_lt (n.saturatingAdd 1).toNat_lt
  rw [blockNumberFromHash_eq_some_iff, toList_blockHash, strip0x, List.length_append, hshort, List.length_replicate,
    List.take_left' hshort, hvalue]
  constructor
  · exact fun h => h.2.2
  · exact fun h => ⟨rfl, hdigits, h⟩

theorem toNat_saturatingAdd_one (n : UInt64) : (n.saturatingAdd 1).toNat = min (n.toNat + 1) UInt64.maxNat := by
  rw [UInt64.toNat_saturatingAdd]
  rfl

/-- The last height has the hash of the one before it. -/
theorem blockNumberFromHash_blockHash_self :
    blockNumberFromHash (blockHash n) = some n ↔ n.toNat < UInt64.maxNat := by
  rw [blockNumberFromHash_blockHash, toNat_saturatingAdd_one]
  omega

theorem blockHash_eq_iff {m : UInt64} :
    blockHash n = blockHash m ↔ (n.saturatingAdd 1).toNat = (m.saturatingAdd 1).toNat := by
  constructor
  · intro h
    -- the block both hashes decode to
    have hpos : 0 < (n.saturatingAdd 1).toNat := by
      rw [toNat_saturatingAdd_one, UInt64.maxNat]
      omega
    have hn : (n.saturatingAdd 1).toNat = (UInt64.ofNat ((n.saturatingAdd 1).toNat - 1)).toNat + 1 := by
      rw [UInt64.toNat_ofNat_of_lt' (lt_of_le_of_lt (Nat.sub_le _ _) (n.saturatingAdd 1).toNat_lt)]
      omega
    rw [hn, ← blockNumberFromHash_blockHash.mp (h ▸ blockNumberFromHash_blockHash.mpr hn)]
  · intro h
    rw [blockHash, blockHash, UInt64.toNat_inj.mp h]

/-- The text has its `0x`, and zeros after the first 16 digits. -/
def Canonical (s : String) : Prop := ∃ digits, s.toList = '0' :: 'x' :: digits ∧ ∀ c ∈ digits.drop 16, c = '0'

/-- The 64 digits of a text against those of a hash. -/
theorem map_toLower_eq_iff {digits : List Char} {m : UInt64} (hlen : digits.length = 64)
    (hhex : ∀ c ∈ digits, isAsciiHexdigit c = true) (hvalue : digitsValue 16 (digits.take 16) = m.toNat) :
    digits.map Char.toLower = (hexEncode (toBeBytes m)).toList ++ List.replicate 48 '0' ↔
      ∀ c ∈ digits.drop 16, c = '0' := by
  have htake : ∀ c ∈ digits.take 16, isAsciiHexdigit c = true := fun c hc => hhex c (List.mem_of_mem_take hc)
  have hshort : ((digits.take 16).map Char.toLower).length = (hexEncode (toBeBytes m)).toList.length := by
    rw [List.length_map, List.length_take, hlen, length_toList_hexEncode, toBeBytes, length_beBytes]
    rfl
  have hhead : (digits.take 16).map Char.toLower = (hexEncode (toBeBytes m)).toList := by
    refine eq_of_digitsValue_eq hshort ?_ isLowerHex_of_mem_hexEncode ?_
    · intro c hc
      obtain ⟨d, hd, rfl⟩ := List.mem_map.mp hc
      exact ⟨d, htake d hd, rfl⟩
    · rw [digitsValue_map_toLower htake, hvalue, digitsValue_hexEncode, toBeBytes, ofBe_beBytes]
      exact (Nat.mod_eq_of_lt m.toNat_lt).symm
  have hrest : (digits.drop 16).length = 48 := by
    rw [List.length_drop, hlen]
  rw [← List.take_append_drop 16 digits, List.map_append, hhead, List.append_cancel_left_eq, List.eq_replicate_iff,
    List.length_map, hrest, List.forall_mem_map, List.take_append_drop]
  refine (and_iff_right rfl).trans (forall₂_congr fun c hc => ?_)
  exact of_isAsciiHexdigit (P := fun c => c.toLower = '0' ↔ c = '0') (by decide) (hhex c (List.mem_of_mem_drop hc))

/-- Among the texts that decode to a block, the hashes are the canonical ones. -/
theorem lowercase_eq_blockHash_iff (hs : blockNumberFromHash s = some k) :
    asciiLowercase s = blockHash k ↔ Canonical s := by
  obtain ⟨hlen, hhex, hvalue⟩ := blockNumberFromHash_eq_some_iff.mp hs
  have hbound : k.toNat + 1 < 2 ^ 64 := by
    have := digitsValue_lt fun c hc => hhex c (List.mem_of_mem_take (i := 16) hc)
    rw [hvalue, List.length_take, hlen] at this
    exact this
  have hheight : (k.saturatingAdd 1).toNat = k.toNat + 1 := by
    rw [toNat_saturatingAdd_one, UInt64.maxNat]
    omega
  rw [← String.toList_inj, asciiLowercase, String.toList_ofList, toList_blockHash]
  by_cases hprefix : ∃ digits, s.toList = '0' :: 'x' :: digits
  · obtain ⟨digits, hdigits⟩ := hprefix
    rw [hdigits, strip0x] at hlen hhex hvalue
    have hcons : (('0' :: 'x' :: digits).map Char.toLower =
        '0' :: 'x' :: ((hexEncode (toBeBytes (k.saturatingAdd 1))).toList ++ List.replicate 48 '0')) ↔
          digits.map Char.toLower =
            (hexEncode (toBeBytes (k.saturatingAdd 1))).toList ++ List.replicate 48 '0' := by
      have h0 : '0'.toLower = '0' := by decide
      have hx : 'x'.toLower = 'x' := by decide
      rw [List.map_cons, List.map_cons, h0, hx, List.cons_inj_right, List.cons_inj_right]
    rw [hdigits, hcons, map_toLower_eq_iff hlen hhex (hvalue.trans hheight.symm)]
    constructor
    · exact fun h => ⟨digits, hdigits, h⟩
    · rintro ⟨digits', hdigits', h⟩
      obtain rfl : digits = digits' := by simpa using hdigits.symm.trans hdigits'
      exact h
  · -- without a prefix to strip, the text is two characters short of a hash
    rw [strip0x_of_not_exists hprefix] at hlen
    refine iff_of_false ?_ ?_
    · intro h
      have := congrArg List.length h
      rw [List.length_map, hlen, List.length_cons, List.length_cons, List.length_append, length_toList_hexEncode,
        toBeBytes, length_beBytes, List.length_replicate] at this
      omega
    · rintro ⟨digits, hdigits, -⟩
      exact hprefix ⟨digits, hdigits⟩

/-- Letter case does not matter to the decoder. -/
theorem blockNumberFromHash_lowercase (hs : blockNumberFromHash s = some k) :
    blockNumberFromHash (asciiLowercase s) = some k := by
  obtain ⟨hlen, hhex, hvalue⟩ := blockNumberFromHash_eq_some_iff.mp hs
  have hlower : ∀ c, isAsciiHexdigit c = true → isAsciiHexdigit c.toLower = true ∧ c.toLower ≠ 'x' := fun c hc =>
    of_isAsciiHexdigit (P := fun c => isAsciiHexdigit c.toLower = true ∧ c.toLower ≠ 'x') (by decide) hc
  have hstrip : strip0x (s.toList.map Char.toLower) = (strip0x s.toList).map Char.toLower := by
    by_cases hprefix : ∃ digits, s.toList = '0' :: 'x' :: digits
    · obtain ⟨digits, hdigits⟩ := hprefix
      rw [hdigits]
      rfl
    · rw [strip0x_of_not_exists hprefix] at hhex ⊢
      refine strip0x_of_notMem fun hx => ?_
      obtain ⟨c, hc, hcx⟩ := List.mem_map.mp hx
      exact (hlower c (hhex c hc)).2 hcx
  rw [blockNumberFromHash_eq_some_iff, asciiLowercase, String.toList_ofList, hstrip, List.length_map, ← List.map_take,
    digitsValue_map_toLower fun c hc => hhex c (List.mem_of_mem_take hc)]
  refine ⟨hlen, ?_, hvalue⟩
  intro c hc
  obtain ⟨d, hd, rfl⟩ := List.mem_map.mp hc
  exact (hlower d (hhex d hd)).1

theorem blockHash_of_lowercase {n : UInt64} (hs : blockNumberFromHash s = some k) (h : asciiLowercase s = blockHash n) :
    blockHash n = blockHash k := by
  have hn := blockNumberFromHash_blockHash.mp (h ▸ blockNumberFromHash_lowercase hs)
  rw [blockHash_eq_iff, hn, toNat_saturatingAdd_one]
  have := (n.saturatingAdd 1).toNat_le_maxNat
  omega

end Decode

/-! ### Lookups -/

section Lookup
variable {Db : Type} (state : NodeState Db) (overflowChecks : Bool) (rest : List Json)

/-- `eth_getBlockByNumber` with `n` as a client writes it. -/
def byNumber (n : UInt64) : Except Panic Json :=
  ethGetBlockByNumber state overflowChecks (.array (.string (hexNat n.toNat) :: rest))

def byHash (s : String) : Except Panic Json := ethGetBlockByHash state overflowChecks (.array (.string s :: rest))

/-- The two views of the blocks are one, at the numbers `n` and `m` and at the text `s`. -/
structure BlocksAgree (n m : UInt64) (s : String) : Prop where
  same : byNumber state overflowChecks rest n = byHash state overflowChecks rest (blockHash n)
  above : state.currentHeight < n → byNumber state overflowChecks rest n = .ok .null
  decodes : blockNumberFromHash (blockHash n) = some n
  injective : blockHash n = blockHash m → n = m
  others : (¬ ∃ k ≤ state.currentHeight, asciiLowercase s = blockHash k) →
    byHash state overflowChecks rest s = .ok .null

variable {state} {overflowChecks} {rest} {n m k : UInt64} {s : String}

theorem blockNumberByTag_hexNat (n : UInt64) : blockNumberByTag state (hexNat n.toNat) = some n := by
  have hne : ∀ tag : String, tag.toList.head? ≠ some '0' → hexNat n.toNat ≠ tag := by
    rintro tag htag rfl
    rw [toList_hexNat] at htag
    exact htag rfl
  unfold blockNumberByTag
  rw [if_neg (not_or.mpr ⟨hne _ (by decide), hne _ (by decide)⟩), if_neg (hne _ (by decide)),
    if_neg (hne _ (by decide)), parseHexU64, fromStrRadix_hexNat, if_pos n.toNat_lt, Option.map_some, UInt64.ofNat_toNat]

theorem byNumber_eq (n : UInt64) : byNumber state overflowChecks rest n =
    buildBlockResponse state overflowChecks n (fullTxs (.array (.string (hexNat n.toNat) :: rest))) := by
  have htag : tagParam (.array (.string (hexNat n.toNat) :: rest)) = hexNat n.toNat := rfl
  rw [byNumber, ethGetBlockByNumber, htag, blockNumberByTag_hexNat]

theorem byHash_of_some (hs : blockNumberFromHash s = some k) (hk : k ≤ state.currentHeight) :
    byHash state overflowChecks rest s =
      buildBlockResponse state overflowChecks k (fullTxs (.array (.string s :: rest))) := by
  have hparam : (strParam (.array (.string s :: rest)) 0).getD "" = s := rfl
  rw [byHash, ethGetBlockByHash, hparam, hs]
  exact if_pos hk

/-- A block is no `null`. -/
theorem buildBlockResponse_ne_null (number : UInt64) (full : Bool) :
    buildBlockResponse state overflowChecks number full ≠ .ok .null := by
  intro h
  obtain ⟨gasUsed, -, h⟩ := except_bind_eq_ok.mp h
  obtain ⟨perTx, -, h⟩ := except_bind_eq_ok.mp h
  obtain ⟨size, -, h⟩ := except_bind_eq_ok.mp h
  cases h

theorem byHash_eq_null_iff : byHash state overflowChecks rest s = .ok .null ↔
    ∀ k ≤ state.currentHeight, blockNumberFromHash s ≠ some k := by
  cases hs : blockNumberFromHash s with
  | none =>
    have hparam : (strParam (.array (.string s :: rest)) 0).getD "" = s := rfl
    refine iff_of_true ?_ fun _ _ => nofun
    rw [byHash, ethGetBlockByHash, hparam, hs]
  | some k =>
    by_cases hk : k ≤ state.currentHeight
    · rw [byHash_of_some hs hk]
      exact iff_of_false (buildBlockResponse_ne_null _ _) fun h => h k hk rfl
    · have hparam : (strParam (.array (.string s :: rest)) 0).getD "" = s := rfl
      refine iff_of_true ?_ ?_
      · rw [byHash, ethGetBlockByHash, hparam, hs]
        exact if_neg hk
      · rintro k' hk' hkk'
        exact hk (Option.some_inj.mp hkk' ▸ hk')

theorem others_iff : ((¬ ∃ k ≤ state.currentHeight, asciiLowercase s = blockHash k) →
      byHash state overflowChecks rest s = .ok .null) ↔
    ∀ k ≤ state.currentHeight, blockNumberFromHash s = some k → Canonical s := by
  rw [byHash_eq_null_iff]
  constructor
  · intro h k hk hs
    by_contra hcanonical
    refine h ?_ k hk hs
    rintro ⟨n, -, hn⟩
    exact hcanonical ((lowercase_eq_blockHash_iff hs).mp (hn.trans (blockHash_of_lowercase hs hn)))
  · intro h hnone k hk hs
    exact hnone ⟨k, hk, (lowercase_eq_blockHash_iff hs).mpr (h k hk hs)⟩

/-- The views agree on a block up to the head, unless it is at one of the last two heights there are, and on a text
that is no block of the chain or has both its prefix and its zeros. -/
theorem blocks_agree_iff (state : NodeState Db) (overflowChecks : Bool) (rest : List Json) (n m : UInt64) (s : String) :
    BlocksAgree state overflowChecks rest n m s ↔
      n ≤ state.currentHeight ∧ n.toNat < UInt64.maxNat ∧
      ¬ (n.toNat + 1 = UInt64.maxNat ∧ m.toNat = UInt64.maxNat) ∧
      ∀ k ≤ state.currentHeight, blockNumberFromHash s = some k → Canonical s := by
  constructor
  · rintro ⟨-, habove, hdecodes, hinjective, hothers⟩
    refine ⟨?_, blockNumberFromHash_blockHash_self.mp hdecodes, ?_, others_iff.mp hothers⟩
    · by_contra hheight
      have hnull := habove (UInt64.not_le.mp hheight)
      rw [byNumber_eq] at hnull
      exact buildBlockResponse_ne_null _ _ hnull
    · rintro ⟨hn, hm⟩
      have hsame : blockHash n = blockHash m := by
        rw [blockHash_eq_iff, toNat_saturatingAdd_one, toNat_saturatingAdd_one]
        omega
      have := congrArg UInt64.toNat (hinjective hsame)
      omega
  · rintro ⟨hheight, hlast, hpair, hs⟩
    have hdecodes := blockNumberFromHash_blockHash_self.mpr hlast
    refine ⟨?_, fun h => absurd hheight (UInt64.not_le.mpr h), hdecodes, fun h => ?_, others_iff.mpr hs⟩
    · rw [byNumber_eq, byHash_of_some hdecodes hheight]
      rfl
    · rw [blockHash_eq_iff, toNat_saturatingAdd_one, toNat_saturatingAdd_one] at h
      have := m.toNat_le_maxNat
      exact UInt64.toNat_inj.mp (by omega)

/-- A node at its genesis block gives out block 1. -/
theorem block_above_head_served :
    byNumber (buildState accountsOnly 2077001 1772409600) false [] 1 ≠ .ok .null ∧
      byHash (buildState accountsOnly 2077001 1772409600) false [] (blockHash 1) = .ok .null ∧
      ¬ BlocksAgree (buildState accountsOnly 2077001 1772409600) false [] 1 0 "" := by
  have hserved : byNumber (buildState accountsOnly 2077001 1772409600) false [] 1 ≠ .ok .null := by
    rw [byNumber_eq]
    exact buildBlockResponse_ne_null _ _
  refine ⟨hserved, byHash_eq_null_iff.mpr fun k hk hs => ?_, fun h => hserved (h.above (by decide))⟩
  have hone := blockNumberFromHash_blockHash.mp hs
  have hzero : k.toNat ≤ 0 := hk
  rw [toNat_saturatingAdd_one] at hone
  have : (1 : UInt64).toNat = 1 := rfl
  simp only [UInt64.maxNat] at hone
  omega

end Lookup

end BlockLookup

end Eth2077
