import Eth2077.Lib.PrefixCode
import Eth2077.Lib.Seen
import Eth2077.Prim

/-!
# Authorization lists (`execution/src/eip7702.rs`)

An authorization is for any chain or the expected one, with a y parity of 0 or 1, an address, and a signature in the
lower half of the curve order; no address is authorized twice. The signature bounds are compared byte by byte, which
is the comparison of the numbers the bytes spell.
-/

namespace Eth2077
namespace Eip7702

structure AuthorizationEntry where
  chainId : UInt64
  address : Address
  nonce : UInt64
  yParity : UInt8
  r : B256
  s : B256

inductive AuthorizationError where
  | emptyAuthorizationList
  | invalidChainId (index : ℕ) (chainId expected : UInt64)
  | invalidYParity (index : ℕ) (value : UInt8)
  | zeroAddress (index : ℕ)
  | duplicateAuthorization (index : ℕ) (address : Address)
  | signatureRTooLarge (index : ℕ)
  | signatureSInUpperHalf (index : ℕ)
deriving DecidableEq

/-- The secp256k1 curve order n -/
def SECP256K1_N : B256 :=
  ⟨[0xFF, 0xFF, 0xFF, 0xFF, 0xFF, 0xFF, 0xFF, 0xFF, 0xFF, 0xFF, 0xFF, 0xFF, 0xFF, 0xFF, 0xFF, 0xFE,
    0xBA, 0xAE, 0xDC, 0xE6, 0xAF, 0x48, 0xA0, 0x3B, 0xBF, 0xD2, 0x5E, 0x8C, 0xD0, 0x36, 0x41, 0x41], rfl⟩

/-- Half of secp256k1 curve order (for low-s check) -/
def SECP256K1_N_DIV_2 : B256 :=
  ⟨[0x7F, 0xFF, 0xFF, 0xFF, 0xFF, 0xFF, 0xFF, 0xFF, 0xFF, 0xFF, 0xFF, 0xFF, 0xFF, 0xFF, 0xFF, 0xFF,
    0x5D, 0x57, 0x6E, 0x73, 0x57, 0xA4, 0x50, 0x1D, 0xDF, 0xE9, 0x2F, 0x46, 0x68, 0x1B, 0x20, 0xA0], rfl⟩

/-- The loop of `bytes32_less_than`. -/
def lessThan : List (UInt8 × UInt8) → Bool
  | [] => false
  | (left, right) :: rest => if left < right then true else if right < left then false else lessThan rest

def bytes32LessThan (a b : B256) : Bool := lessThan (a.toList.zip b.toList)

def bytes32LessThanOrEqual (a b : B256) : Bool := a = b ∨ bytes32LessThan a b

/-- The body of the loop over the authorizations. -/
def authorizationErrors (expectedChainId : UInt64) (seen : Bool) : AuthorizationEntry × ℕ → List AuthorizationError
  | (authorization, index) =>
    (if authorization.chainId ≠ 0 ∧ authorization.chainId ≠ expectedChainId then
      [.invalidChainId index authorization.chainId expectedChainId] else []) ++
    (if authorization.yParity ≠ 0 ∧ authorization.yParity ≠ 1 then
      [.invalidYParity index authorization.yParity] else []) ++
    (if authorization.address = FixedBytes.zero then [.zeroAddress index] else []) ++
    (if seen then [.duplicateAuthorization index authorization.address] else []) ++
    (if ¬ bytes32LessThan authorization.r SECP256K1_N then [.signatureRTooLarge index] else []) ++
    (if ¬ bytes32LessThanOrEqual authorization.s SECP256K1_N_DIV_2 then [.signatureSInUpperHalf index] else [])

def validateAuthorizationList (authorizations : List AuthorizationEntry) (expectedChainId : UInt64) :
    Except (List AuthorizationError) Unit :=
  Seen.report
    ((if authorizations = [] then [.emptyAuthorizationList] else []) ++
      Seen.collect (fun x => x.1.address) (authorizationErrors expectedChainId) ∅ authorizations.zipIdx)

/-! ### Comparing numbers -/

theorem lessThan_iff {as bs : List UInt8} (h : as.length = bs.length) :
    lessThan (as.zip bs) = true ↔ ofBe as < ofBe bs := by
  induction as generalizing bs with
  | nil =>
    obtain rfl := List.length_eq_zero_iff.mp h.symm
    simp [lessThan]
  | cons a as ih =>
    cases bs with
    | nil => cases h
    | cons b bs =>
      have hlen := Nat.succ.inj h
      rw [ofBe_cons_lt_cons hlen, ← ih hlen, List.zip_cons_cons, lessThan]
      split_ifs with hlt hgt
      · simp [hlt]
      · have hne : a ≠ b := fun heq => UInt8.lt_irrefl b (heq ▸ hgt)
        simp [hlt, hne]
      · simp [UInt8.le_antisymm (UInt8.not_lt.mp hgt) (UInt8.not_lt.mp hlt)]

theorem bytes32LessThan_iff (a b : B256) : bytes32LessThan a b = true ↔ ofBe a.toList < ofBe b.toList :=
  lessThan_iff (by rw [a.toList_length, b.toList_length])

theorem bytes32LessThanOrEqual_iff (a b : B256) :
    bytes32LessThanOrEqual a b = true ↔ ofBe a.toList ≤ ofBe b.toList := by
  have heq : a = b ↔ ofBe a.toList = ofBe b.toList :=
    ⟨fun h => by rw [h], fun h => List.Vector.toList_injective
      (ofBe_inj (by rw [a.toList_length, b.toList_length]) h)⟩
  unfold bytes32LessThanOrEqual
  rw [decide_eq_true_eq, bytes32LessThan_iff, heq, or_comm, Nat.le_iff_lt_or_eq]

/-- n -/
def secp256k1Order : ℕ := 0xFFFFFFFFFFFFFFFFFFFFFFFFFFFFFFFEBAAEDCE6AF48A03BBFD25E8CD0364141

theorem ofBe_SECP256K1_N : ofBe SECP256K1_N.toList = secp256k1Order := by decide

theorem ofBe_SECP256K1_N_DIV_2 : ofBe SECP256K1_N_DIV_2.toList = secp256k1Order / 2 := by decide

/-! ### Lists -/

/-- What an authorization must be by itself. -/
structure WellFormed (expectedChainId : UInt64) (authorization : AuthorizationEntry) : Prop where
  chainId : authorization.chainId = 0 ∨ authorization.chainId = expectedChainId
  yParity : authorization.yParity = 0 ∨ authorization.yParity = 1
  address : authorization.address ≠ FixedBytes.zero
  r : ofBe authorization.r.toList < secp256k1Order
  s : ofBe authorization.s.toList ≤ secp256k1Order / 2

theorem authorizationErrors_eq_nil {c : UInt64} {x : AuthorizationEntry × ℕ} :
    authorizationErrors c false x = [] ↔ WellFormed c x.1 := by
  obtain ⟨authorization, index⟩ := x
  simp only [authorizationErrors, bytes32LessThan_iff, bytes32LessThanOrEqual_iff, ofBe_SECP256K1_N,
    ofBe_SECP256K1_N_DIV_2, List.append_eq_nil_iff, ite_eq_right_iff, List.cons_ne_nil, imp_false, not_not,
    Bool.false_eq_true, not_and_or, not_false_eq_true, and_true, and_assoc]
  constructor
  · rintro ⟨hchain, hparity, haddress, hr, hs⟩
    exact ⟨hchain, hparity, haddress, hr, hs⟩
  · rintro ⟨hchain, hparity, haddress, hr, hs⟩
    exact ⟨hchain, hparity, haddress, hr, hs⟩

/-- A list is valid if and only if it has authorizations, each well formed and for an address of its own; and bytes
compare as the numbers they spell. -/
theorem authorization_list_iff (authorizations : List AuthorizationEntry) (expectedChainId : UInt64) :
    (validateAuthorizationList authorizations expectedChainId = .ok () ↔
      authorizations ≠ [] ∧ (∀ authorization ∈ authorizations, WellFormed expectedChainId authorization) ∧
        (authorizations.map AuthorizationEntry.address).Nodup) ∧
    ∀ a b : B256, bytes32LessThan a b = true ↔ ofBe a.toList < ofBe b.toList := by
  refine ⟨?_, bytes32LessThan_iff⟩
  have hentries : authorizations.zipIdx.map Prod.fst = authorizations := List.zipIdx_map_fst 0 authorizations
  have haddresses : authorizations.zipIdx.map (fun x => x.1.address) = authorizations.map AuthorizationEntry.address := by
    show authorizations.zipIdx.map (AuthorizationEntry.address ∘ Prod.fst) = _
    rw [← List.map_map, hentries]
  have hforall : (∀ x ∈ authorizations.zipIdx, WellFormed expectedChainId x.1) ↔
      ∀ authorization ∈ authorizations, WellFormed expectedChainId authorization := by
    rw [← List.forall_mem_map (f := Prod.fst), hentries]
  unfold validateAuthorizationList
  rw [Seen.report_eq_ok, List.append_eq_nil_iff, Seen.collect_empty_eq_nil (fun x => by simp [authorizationErrors]),
    haddresses]
  simp only [authorizationErrors_eq_nil, hforall]
  rw [and_comm (a := (authorizations.map AuthorizationEntry.address).Nodup)]
  refine and_congr ?_ Iff.rfl
  simp

end Eip7702
end Eth2077
