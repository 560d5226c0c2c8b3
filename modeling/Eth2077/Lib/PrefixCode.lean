import Mathlib.Algebra.Group.Nat.Defs
import Mathlib.Data.List.Basic
import Mathlib.Tactic.Common

/-!
# Prefix codes

Encoders whose output can be cut off the front of a string in one way only. Records written field by
field, length-prefixed strings and concatenated sequences of records inherit the property, which is
all that is needed to read a hand-written serialisation back.
-/

namespace PrefixCode

variable {α β γ σ : Type*}

/-- From `enc a` followed by anything, `a` and what follows can be told. -/
def IsPrefixCode (enc : α → List σ) : Prop :=
  ∀ ⦃a b : α⦄ ⦃xs ys : List σ⦄, enc a ++ xs = enc b ++ ys → a = b ∧ xs = ys

variable {enc : α → List σ} {f : β → List σ} {g : γ → List σ}

theorem of_length {n : ℕ} (hlen : ∀ a, (enc a).length = n) (hinj : Function.Injective enc) :
    IsPrefixCode enc := by
  intro a b xs ys hab
  obtain ⟨h1, h2⟩ := List.append_inj hab (by rw [hlen, hlen])
  exact ⟨hinj h1, h2⟩

theorem IsPrefixCode.append {p : α → β} {q : α → γ} (hf : IsPrefixCode f) (hg : IsPrefixCode g)
    (hpq : ∀ a b, p a = p b → q a = q b → a = b) : IsPrefixCode fun a => f (p a) ++ g (q a) := by
  intro a b xs ys hab
  simp only [List.append_assoc] at hab
  obtain ⟨h1, h2⟩ := hf hab
  obtain ⟨h3, h4⟩ := hg h2
  exact ⟨hpq a b h1 h3, h4⟩

theorem IsPrefixCode.comp {p : β → α} (h : IsPrefixCode enc) (hp : Function.Injective p) :
    IsPrefixCode fun b => enc (p b) := by
  intro a b xs ys hab
  obtain ⟨h1, h2⟩ := h hab
  exact ⟨hp h1, h2⟩

theorem lengthPrefixed {bound : ℕ} {len : ℕ → List σ}
    (hlen : IsPrefixCode fun n : { n // n < bound } => len n.1) :
    IsPrefixCode fun s : { s : List σ // s.length < bound } => len s.1.length ++ s.1 := by
  intro a b xs ys hab
  simp only [List.append_assoc] at hab
  obtain ⟨h1, h2⟩ := hlen (show (fun n : { n // n < bound } => len n.1) ⟨a.1.length, a.2⟩ ++ _ =
    (fun n : { n // n < bound } => len n.1) ⟨b.1.length, b.2⟩ ++ _ from hab)
  obtain ⟨h3, h4⟩ := List.append_inj h2 (Subtype.mk.inj h1)
  exact ⟨Subtype.ext h3, h4⟩

/-- What ends with an item that does not come in it. -/
theorem terminated (stop : σ) : IsPrefixCode fun s : { s : List σ // stop ∉ s } => s.1 ++ [stop] := by
  rintro ⟨a, ha⟩ ⟨b, hb⟩ xs ys hab
  simp only [List.append_assoc, List.singleton_append] at hab
  induction a generalizing b with
  | nil =>
    cases b with
    | nil => exact ⟨rfl, (List.cons.inj hab).2⟩
    | cons y b => exact absurd List.mem_cons_self ((List.cons.inj hab).1 ▸ hb)
  | cons x a ih =>
    cases b with
    | nil => exact absurd List.mem_cons_self ((List.cons.inj hab).1 ▸ ha)
    | cons y b =>
      obtain ⟨rfl, hrest⟩ := List.cons.inj hab
      obtain ⟨hs, hxs⟩ := ih (fun h => ha (List.mem_cons_of_mem _ h)) b (fun h => hb (List.mem_cons_of_mem _ h)) hrest
      exact ⟨Subtype.ext (congrArg (x :: ·) (Subtype.mk.inj hs)), hxs⟩

/-- As many records one after the other: what they are and what follows them. -/
theorem IsPrefixCode.flatMap_append {p : α → Prop} (h : IsPrefixCode fun a : { a // p a } => enc a.1) {l l' : List α}
    (hl : ∀ a ∈ l, p a) (hl' : ∀ a ∈ l', p a) (hlen : l.length = l'.length) {xs ys : List σ}
    (hab : l.flatMap enc ++ xs = l'.flatMap enc ++ ys) : l = l' ∧ xs = ys := by
  induction l generalizing l' with
  | nil =>
    obtain rfl := List.length_eq_zero_iff.mp hlen.symm
    exact ⟨rfl, hab⟩
  | cons a l ih =>
    cases l' with
    | nil => cases hlen
    | cons b l' =>
      simp only [List.flatMap_cons, List.append_assoc] at hab
      obtain ⟨h1, h2⟩ := h (a := ⟨a, hl a List.mem_cons_self⟩) (b := ⟨b, hl' b List.mem_cons_self⟩) hab
      obtain ⟨h3, h4⟩ := ih (fun c hc => hl c (List.mem_cons_of_mem a hc))
        (fun c hc => hl' c (List.mem_cons_of_mem b hc)) (Nat.succ.inj hlen) h2
      exact ⟨by rw [Subtype.mk.inj h1, h3], h4⟩

/-- A number of records, and then the records. -/
theorem IsPrefixCode.counted {bound : ℕ} {len : ℕ → List σ} {p : α → Prop}
    (h : IsPrefixCode fun a : { a // p a } => enc a.1) (hlen : IsPrefixCode fun n : { n // n < bound } => len n.1)
    {l l' : List α} (hl : l.length < bound ∧ ∀ a ∈ l, p a) (hl' : l'.length < bound ∧ ∀ a ∈ l', p a) {xs ys : List σ}
    (hab : len l.length ++ (l.flatMap enc ++ xs) = len l'.length ++ (l'.flatMap enc ++ ys)) : l = l' ∧ xs = ys := by
  obtain ⟨h1, h2⟩ := hlen (a := ⟨l.length, hl.1⟩) (b := ⟨l'.length, hl'.1⟩) hab
  exact h.flatMap_append hl.2 hl'.2 (Subtype.mk.inj h1) h2

/-- A concatenation of non-empty records is read back record by record. -/
theorem IsPrefixCode.flatMap_injective (h : IsPrefixCode enc) (hne : ∀ a, enc a ≠ []) :
    Function.Injective fun l : List α => l.flatMap enc := by
  intro l l' hl
  induction l generalizing l' with
  | nil =>
    cases l' with
    | nil => rfl
    | cons b l' => exact absurd (List.append_eq_nil_iff.mp hl.symm).1 (hne b)
  | cons a l ih =>
    cases l' with
    | nil => exact absurd (List.append_eq_nil_iff.mp hl).1 (hne a)
    | cons b l' =>
      obtain ⟨rfl, htail⟩ := h (show enc a ++ l.flatMap enc = enc b ++ l'.flatMap enc from hl)
      rw [ih htail]

/-- A value behind a one, and a zero where there is none. -/
def option {α : Type*} (enc : α → List UInt8) : Option α → List UInt8
  | some a => 1 :: enc a
  | none => [0]

theorem IsPrefixCode.option {enc : α → List UInt8} (h : IsPrefixCode enc) : IsPrefixCode (option enc) := by
  intro a b xs ys hab
  cases a with
  | none =>
    cases b with
    | none => exact ⟨rfl, (List.cons.inj hab).2⟩
    | some b => exact absurd (List.cons.inj hab).1 (by decide)
  | some a =>
    cases b with
    | none => exact absurd (List.cons.inj hab).1 (by decide)
    | some b =>
      obtain ⟨h1, h2⟩ := h (List.cons.inj hab).2
      exact ⟨congrArg some h1, h2⟩

end PrefixCode

/-! ### Big-endian numbers -/

/-- The `w` low bytes of `n`, most significant first. -/
def beBytes : ℕ → ℕ → List UInt8
  | 0, _ => []
  | w + 1, n => UInt8.ofNat (n / 256 ^ w) :: beBytes w n

@[simp] theorem length_beBytes (w n : ℕ) : (beBytes w n).length = w := by
  induction w with
  | zero => rfl
  | succ w ih => rw [beBytes, List.length_cons, ih]

theorem beBytes_inj {w n m : ℕ} (h : beBytes w n = beBytes w m) : n % 256 ^ w = m % 256 ^ w := by
  induction w with
  | zero => simp [Nat.mod_one]
  | succ w ih =>
    obtain ⟨hhead, htail⟩ := List.cons.inj h
    have hd : n / 256 ^ w % 256 = m / 256 ^ w % 256 := by simpa using congrArg UInt8.toNat hhead
    rw [Nat.pow_succ, Nat.mod_mul, Nat.mod_mul, hd, ih htail]

theorem isPrefixCode_beBytes (w : ℕ) : PrefixCode.IsPrefixCode fun n : { n // n < 256 ^ w } => beBytes w n.1 := by
  refine PrefixCode.of_length (fun n => length_beBytes w n.1) fun n m h => Subtype.ext ?_
  have := beBytes_inj h
  rwa [Nat.mod_eq_of_lt n.2, Nat.mod_eq_of_lt m.2] at this

theorem isPrefixCode_bitVec (w : ℕ) : PrefixCode.IsPrefixCode fun n : BitVec (8 * w) => beBytes w n.toNat := by
  have hlt : ∀ n : BitVec (8 * w), n.toNat < 256 ^ w := fun n => by
    rw [show 256 = 2 ^ 8 from rfl, ← Nat.pow_mul]
    exact n.isLt
  refine (isPrefixCode_beBytes w).comp (p := fun n => ⟨n.toNat, hlt n⟩) ?_
  intro a b h
  exact BitVec.eq_of_toNat_eq (Subtype.mk.inj h)

/-- The number that big-endian bytes spell. -/
def ofBe : List UInt8 → ℕ
  | [] => 0
  | b :: bs => b.toNat * 256 ^ bs.length + ofBe bs

theorem ofBe_beBytes (w n : ℕ) : ofBe (beBytes w n) = n % 256 ^ w := by
  induction w with
  | zero => simp [beBytes, ofBe, Nat.mod_one]
  | succ w ih =>
    rw [beBytes, ofBe, ih, length_beBytes, Nat.pow_succ, Nat.mod_mul]
    simp only [UInt8.toNat_ofNat']
    rw [Nat.add_comm, Nat.mul_comm]

theorem ofBe_lt (bs : List UInt8) : ofBe bs < 256 ^ bs.length := by
  induction bs with
  | nil => exact Nat.one_pos
  | cons b bs ih =>
    have hb : b.toNat * 256 ^ bs.length ≤ 255 * 256 ^ bs.length :=
      Nat.mul_le_mul_right _ (Nat.le_of_lt_succ b.toNat_lt)
    rw [ofBe, List.length_cons, Nat.pow_succ]
    omega

/-- The first byte decides, and the rest where it does not. -/
theorem ofBe_cons_lt_cons {a b : UInt8} {as bs : List UInt8} (h : as.length = bs.length) :
    ofBe (a :: as) < ofBe (b :: bs) ↔ a < b ∨ (a = b ∧ ofBe as < ofBe bs) := by
  have has := ofBe_lt as
  have hbs := ofBe_lt bs
  rw [ofBe, ofBe, h, UInt8.lt_iff_toNat_lt, ← UInt8.toNat_inj]
  rw [h] at has
  rcases Nat.lt_trichotomy a.toNat b.toNat with hlt | heq | hgt
  · have := Nat.mul_le_mul_right (256 ^ bs.length) (Nat.succ_le_of_lt hlt)
    rw [Nat.succ_mul] at this
    omega
  · rw [heq]
    omega
  · have := Nat.mul_le_mul_right (256 ^ bs.length) (Nat.succ_le_of_lt hgt)
    rw [Nat.succ_mul] at this
    omega

theorem ofBe_inj {as bs : List UInt8} (h : as.length = bs.length) (heq : ofBe as = ofBe bs) : as = bs := by
  induction as generalizing bs with
  | nil => exact (List.length_eq_zero_iff.mp h.symm).symm
  | cons a as ih =>
    cases bs with
    | nil => cases h
    | cons b bs =>
      have hlen := Nat.succ.inj h
      have hlt := mt (ofBe_cons_lt_cons (a := a) (b := b) hlen).mpr (Nat.not_lt.mpr (Nat.le_of_eq heq.symm))
      have hgt := mt (ofBe_cons_lt_cons (a := b) (b := a) hlen.symm).mpr (Nat.not_lt.mpr (Nat.le_of_eq heq))
      have hab : a = b :=
        UInt8.le_antisymm (UInt8.not_lt.mp fun h' => hgt (.inl h')) (UInt8.not_lt.mp fun h' => hlt (.inl h'))
      subst hab
      rw [ih hlen (Nat.le_antisymm (Nat.not_lt.mp fun h' => hgt (.inr ⟨rfl, h'⟩))
        (Nat.not_lt.mp fun h' => hlt (.inr ⟨rfl, h'⟩)))]
