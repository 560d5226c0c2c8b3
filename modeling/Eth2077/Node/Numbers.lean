import Eth2077.Lib.Numeral
import Eth2077.Node.Parse

/-!
# Numbers in requests (`node/src/bin/eth2077-devnetd.rs`, `parse_u64_value` and its siblings)

What a text of digits is worth, whichever of the parsers reads it. A text is tried as hexadecimal first, so a
decimal numeral of two digits or more is read as the wrong number unless it is too long for the type it is read
into. `quantity_texts_iff` says which numbers have one meaning in every form a client may choose.
-/

namespace Eth2077

/-! ### The value of digits -/

def digitsValue (radix : ℕ) (digits : List Char) : ℕ :=
  digits.foldl (fun n c => n * radix + (toDigit radix c).getD 0) 0

variable {radix b n bits : ℕ} {digits : List Char}

@[simp] theorem digitsValue_nil : digitsValue radix [] = 0 := rfl

theorem digitsValue_concat (digits : List Char) (c : Char) :
    digitsValue radix (digits ++ [c]) = digitsValue radix digits * radix + (toDigit radix c).getD 0 := by
  simp [digitsValue]

theorem digitsValue_append (digits rest : List Char) : digitsValue radix (digits ++ rest) =
    digitsValue radix digits * radix ^ rest.length + digitsValue radix rest := by
  induction rest using List.reverseRecOn with
  | nil => simp
  | append_singleton rest c ih =>
    rw [← List.append_assoc, digitsValue_concat, ih, digitsValue_concat, List.length_append, List.length_singleton]
    ring

theorem digitsValue_cons (c : Char) (digits : List Char) : digitsValue radix (c :: digits) =
    (toDigit radix c).getD 0 * radix ^ digits.length + digitsValue radix digits := by
  have hone : digitsValue radix [c] = (toDigit radix c).getD 0 := by simp [digitsValue]
  rw [← List.singleton_append, digitsValue_append, hone]

theorem toDigit_lt {c : Char} {d : ℕ} (h : toDigit radix c = some d) : d < radix := by
  simp only [toDigit, Option.filter_eq_some_iff, decide_eq_true_eq] at h
  exact h.2

theorem digitsValue_lt (hd : ∀ c ∈ digits, (toDigit radix c).isSome) :
    digitsValue radix digits < radix ^ digits.length := by
  induction digits with
  | nil => simp
  | cons c digits ih =>
    have hrest := ih fun d hd' => hd d (List.mem_cons_of_mem _ hd')
    obtain ⟨v, hv⟩ := Option.isSome_iff_exists.mp (hd c (List.mem_cons_self ..))
    have hlt : v < radix := toDigit_lt hv
    rw [digitsValue_cons, hv, Option.getD_some, List.length_cons, pow_succ']
    calc v * radix ^ digits.length + digitsValue radix digits
        < v * radix ^ digits.length + radix ^ digits.length := by omega
      _ = (v + 1) * radix ^ digits.length := by ring
      _ ≤ radix * radix ^ digits.length := Nat.mul_le_mul_right _ hlt

theorem mapM_toDigit (hd : ∀ c ∈ digits, (toDigit radix c).isSome) :
    digits.mapM (toDigit radix) = some (digits.map fun c => (toDigit radix c).getD 0) := by
  induction digits with
  | nil => rfl
  | cons c digits ih =>
    obtain ⟨v, hv⟩ := Option.isSome_iff_exists.mp (hd c (List.mem_cons_self ..))
    rw [List.mapM_cons, hv, ih fun d hd' => hd d (List.mem_cons_of_mem _ hd')]
    simp [hv]

/-- A text of digits is read as its value if that fits. -/
theorem fromStrRadix_digits (hne : digits ≠ []) (hd : ∀ c ∈ digits, (toDigit radix c).isSome) :
    fromStrRadix radix bits digits =
      if digitsValue radix digits < 2 ^ bits then some (digitsValue radix digits) else none := by
  unfold fromStrRadix
  dsimp only
  split
  · rename_i rest
    have hplus : (toDigit radix '+').isSome := hd '+' (List.mem_cons_self ..)
    simp [toDigit] at hplus
  · simp only [hne, if_false, mapM_toDigit hd, Option.bind_eq_bind, Option.bind_some, digitsValue, List.foldl_map]
    rfl

/-! ### Numerals -/

theorem toDigit_digitChar {d : ℕ} (hd : d < radix) (hr : radix ≤ 16) : toDigit radix (Nat.digitChar d) = some d := by
  have key : ∀ r : Fin 17, ∀ d : Fin 16, d.val < r.val → toDigit r (Nat.digitChar d) = some d.val := by decide
  exact key ⟨radix, by omega⟩ ⟨d, by omega⟩ hd

/-- The characters of a numeral. -/
theorem exists_of_mem_toDigits (hb : 1 < b) {c : Char} (h : c ∈ Nat.toDigits b n) : ∃ d < b, c = Nat.digitChar d := by
  induction n using Nat.strong_induction_on with
  | _ n ih =>
    rw [Nat.toDigits_eq_if hb] at h
    split_ifs at h with hlt
    · exact ⟨n, hlt, List.mem_singleton.mp h⟩
    · rcases List.mem_append.mp h with h | h
      · exact ih (n / b) (Nat.div_lt_self (by omega) hb) h
      · exact ⟨n % b, Nat.mod_lt n (by omega), List.mem_singleton.mp h⟩

theorem digitsValue_toDigits (hb : 1 < b) (hbr : b ≤ radix) (hr : radix ≤ 16) :
    digitsValue radix (Nat.toDigits b n) = Numeral.reread radix b n := by
  induction n using Nat.strong_induction_on with
  | _ n ih =>
    rw [Nat.toDigits_eq_if hb]
    split_ifs with hlt
    · rw [Numeral.reread_of_lt hlt, ← List.nil_append [Nat.digitChar n], digitsValue_concat,
        toDigit_digitChar (hlt.trans_le hbr) hr]
      simp
    · have hdigit : n % b < radix := (Nat.mod_lt n (by omega)).trans_le hbr
      rw [Numeral.reread_of_le hb (not_lt.mp hlt), digitsValue_concat, toDigit_digitChar hdigit hr,
        ih (n / b) (Nat.div_lt_self (by omega) hb), Option.getD_some]

theorem fromStrRadix_toDigits (hb : 1 < b) (hbr : b ≤ radix) (hr : radix ≤ 16) :
    fromStrRadix radix bits (Nat.toDigits b n) =
      if Numeral.reread radix b n < 2 ^ bits then some (Numeral.reread radix b n) else none := by
  rw [← digitsValue_toDigits hb hbr hr]
  refine fromStrRadix_digits Nat.toDigits_ne_nil fun c hc => ?_
  obtain ⟨d, hd, rfl⟩ := exists_of_mem_toDigits hb hc
  rw [toDigit_digitChar (hd.trans_le hbr) hr, Option.isSome_some]

theorem isLowerHex_of_mem_toDigits (hb : 1 < b) (hr : b ≤ 16) : ∀ c ∈ Nat.toDigits b n, IsLowerHex c := by
  intro c hc
  obtain ⟨d, hd, rfl⟩ := exists_of_mem_toDigits hb hc
  exact isLowerHex_digitChar (by omega)

/-! ### Texts -/

theorem strip0x_of_not_exists {text : List Char} (h : ¬ ∃ digits, text = '0' :: 'x' :: digits) :
    strip0x text = text := by
  unfold strip0x
  split
  · rename_i digits
    exact absurd ⟨digits, rfl⟩ h
  · rfl

theorem strip0x_of_notMem {text : List Char} (h : 'x' ∉ text) : strip0x text = text := by
  refine strip0x_of_not_exists ?_
  rintro ⟨digits, rfl⟩
  simp at h

theorem strip0x_digits (h : ∀ c ∈ digits, IsLowerHex c) : strip0x digits = digits :=
  strip0x_of_notMem fun hx => (h 'x' hx).spec.2.2.2.1 rfl

theorem toList_hexNat (n : ℕ) : (hexNat n).toList = '0' :: 'x' :: Nat.toDigits 16 n := by
  rw [hexNat, String.toList_append]
  exact congrArg (fun digits => '0' :: 'x' :: digits) String.toList_ofList

theorem strip0x_hexNat (n : ℕ) : strip0x (hexNat n).toList = Nat.toDigits 16 n := by
  rw [toList_hexNat, strip0x]

theorem hexNat_injective : Function.Injective hexNat := by
  intro m n h
  have hvalue : ∀ k, digitsValue 16 (strip0x (hexNat k).toList) = k := by
    intro k
    rw [strip0x_hexNat, digitsValue_toDigits (by decide) le_rfl le_rfl, Numeral.reread_self]
  rw [← hvalue m, h, hvalue n]

theorem strip0x_toString (n : ℕ) : strip0x (toString n).toList = Nat.toDigits 10 n := by
  rw [toList_toString, strip0x_digits (isLowerHex_of_mem_toDigits (by decide) (by decide))]

theorem fromStrRadix_hexNat (n bits : ℕ) :
    fromStrRadix 16 bits (strip0x (hexNat n).toList) = if n < 2 ^ bits then some n else none := by
  rw [strip0x_hexNat, fromStrRadix_toDigits (by decide) (by decide) (by decide), Numeral.reread_self]

theorem fromStrRadix_toString (n bits : ℕ) :
    fromStrRadix 10 bits (toString n).toList = if n < 2 ^ bits then some n else none := by
  rw [toList_toString, fromStrRadix_toDigits (by decide) (by decide) (by decide), Numeral.reread_self]

/-- A decimal numeral read as hexadecimal. -/
theorem fromStrRadix_hex_toString (n bits : ℕ) : fromStrRadix 16 bits (strip0x (toString n).toList) =
    if Numeral.reread 16 10 n < 2 ^ bits then some (Numeral.reread 16 10 n) else none := by
  rw [strip0x_toString, fromStrRadix_toDigits (by decide) (by decide) (by decide)]

/-! ### Bytes -/

theorem ofBe_hexDecode : ∀ {digits : List Char}, digits.length % 2 = 0 → (∀ c ∈ digits, isAsciiHexdigit c = true) →
    ofBe (hexDecode digits) = digitsValue 16 digits
  | [], _, _ => rfl
  | [_], hlen, _ => by simp at hlen
  | a :: b :: rest, hlen, hdigits => by
    have hrest : rest.length % 2 = 0 := by
      simp only [List.length_cons] at hlen
      omega
    have hhalf : (hexDecode rest).length = rest.length / 2 := length_hexDecode rest
    obtain ⟨x, hx⟩ := Option.isSome_iff_exists.mp (hdigits a (by simp))
    obtain ⟨y, hy⟩ := Option.isSome_iff_exists.mp (hdigits b (by simp))
    have hxlt : x < 16 := toDigit_lt hx
    have hylt : y < 16 := toDigit_lt hy
    have hpow : 256 ^ (rest.length / 2) = 16 ^ rest.length := by
      rw [show 256 = 16 ^ 2 by rfl, ← pow_mul, Nat.mul_div_cancel' (Nat.dvd_of_mod_eq_zero hrest)]
    rw [hexDecode, ofBe, ofBe_hexDecode hrest fun c hc => hdigits c (by simp [hc]), hhalf, hpow,
      UInt8.toNat_ofNat_of_lt' (by simp [hx, hy, UInt8.size]; omega), digitsValue_cons, digitsValue_cons, hx, hy,
      List.length_cons, pow_succ]
    simp only [Option.getD_some]
    ring

@[simp] theorem length_toList_hexEncode (bs : List UInt8) : (hexEncode bs).toList.length = 2 * bs.length := by
  simp [hexEncode, Nat.mul_comm]

theorem digitsValue_hexEncode (bs : List UInt8) : digitsValue 16 (hexEncode bs).toList = ofBe bs := by
  have hlower : ∀ c ∈ (hexEncode bs).toList, IsLowerHex c := isLowerHex_of_mem_hexEncode
  have heven : (hexEncode bs).toList.length % 2 = 0 := by
    rw [length_toList_hexEncode]
    omega
  have hback : hexDecode (hexEncode bs).toList = bs :=
    hexEncode_injective (String.toList_inj.mp (hexEncode_hexDecode heven hlower))
  rw [← ofBe_hexDecode heven fun c hc => (hlower c hc).spec.1, hback]

/-- Lower-case digits can be told from their value and their number. -/
theorem eq_of_digitsValue_eq {digits' : List Char} (hlen : digits.length = digits'.length)
    (hd : ∀ c ∈ digits, IsLowerHex c) (hd' : ∀ c ∈ digits', IsLowerHex c)
    (h : digitsValue 16 digits = digitsValue 16 digits') : digits = digits' := by
  induction digits generalizing digits' with
  | nil => exact (List.eq_nil_of_length_eq_zero hlen.symm).symm
  | cons c digits ih =>
    obtain ⟨c', rest, rfl⟩ := List.exists_of_length_succ digits' hlen.symm
    simp only [List.length_cons, Nat.add_right_cancel_iff] at hlen
    obtain ⟨hc, hdigits⟩ := List.forall_mem_cons.mp hd
    obtain ⟨hc', hrest⟩ := List.forall_mem_cons.mp hd'
    have hlt := digitsValue_lt fun d hd => (hdigits d hd).spec.1
    have hlt' := digitsValue_lt fun d hd => (hrest d hd).spec.1
    rw [digitsValue_cons, digitsValue_cons, ← hlen] at h
    rw [← hlen] at hlt'
    have hpos : 0 < 16 ^ digits.length := by positivity
    have hhead : (toDigit 16 c).getD 0 = (toDigit 16 c').getD 0 := by
      have := congrArg (· / 16 ^ digits.length) h
      simpa [Nat.mul_add_div, Nat.add_comm, Nat.add_mul_div_right _ _ hpos, Nat.div_eq_of_lt hlt,
        Nat.div_eq_of_lt hlt'] using this
    have hcc : c = c' := by
      rw [← hc.spec.2.2.2.2.2, hhead, hc'.spec.2.2.2.2.2]
    rw [hcc, ih hlen hdigits hrest (by rw [hhead] at h; omega)]

theorem digitsValue_map_toLower (hd : ∀ c ∈ digits, isAsciiHexdigit c = true) :
    digitsValue 16 (digits.map Char.toLower) = digitsValue 16 digits := by
  induction digits with
  | nil => rfl
  | cons c digits ih =>
    obtain ⟨hc, hdigits⟩ := List.forall_mem_cons.mp hd
    have hsame : toDigit 16 c.toLower = toDigit 16 c :=
      of_isAsciiHexdigit (P := fun c => toDigit 16 c.toLower = toDigit 16 c) (by decide) hc
    rw [List.map_cons, digitsValue_cons, digitsValue_cons, ih hdigits, List.length_map, hsame]

/-- A text of at most 64 digits is read as its value; an odd number of them is made even by a zero. -/
theorem parseHexU256_digits {s : String} (hraw : strip0x (trim s.toList) = digits)
    (hd : ∀ c ∈ digits, isAsciiHexdigit c = true) (hlen : digits.length ≤ 64) :
    parseHexU256 s = .ok (some (BitVec.ofNat 256 (digitsValue 16 digits))) := by
  have hall : digits.all isAsciiHexdigit = true := List.all_eq_true.mpr hd
  have hbytes : ∃ even : List Char, parseHexBytes s = some (hexDecode even) ∧ even.length % 2 = 0 ∧
      even.length ≤ 64 ∧ (∀ c ∈ even, isAsciiHexdigit c = true) ∧ digitsValue 16 even = digitsValue 16 digits := by
    unfold parseHexBytes
    simp only [hraw, hall, Bool.not_true, Bool.false_eq_true, if_false]
    split_ifs with hodd
    · refine ⟨'0' :: digits, rfl, ?_, ?_, ?_, ?_⟩
      · rw [List.length_cons]
        omega
      · rw [List.length_cons]
        omega
      · exact List.forall_mem_cons.mpr ⟨by decide, hd⟩
      · have hzero : toDigit 16 '0' = some 0 := by decide
        rw [digitsValue_cons, hzero, Option.getD_some, Nat.zero_mul, Nat.zero_add]
    · exact ⟨digits, rfl, by omega, hlen, hd, rfl⟩
  obtain ⟨even, hparse, heven, hshort, hhex, hvalue⟩ := hbytes
  unfold parseHexU256
  rw [hparse]
  have hfits : ¬ 32 < (hexDecode even).length := by
    rw [length_hexDecode]
    omega
  simp only [hfits, if_false, ofBe_hexDecode heven hhex, hvalue]

theorem trim_hexNat (n : ℕ) : trim (hexNat n).toList = (hexNat n).toList := by
  rw [toList_hexNat]
  exact trim_canonical (isLowerHex_of_mem_toDigits (by decide) (by decide))

theorem trim_toString (n : ℕ) : trim (toString n).toList = (toString n).toList := by
  rw [toList_toString]
  exact trim_of_forall fun c hc => (isLowerHex_of_mem_toDigits (by decide) (by decide) c hc).spec.2.2.1

theorem parseHexU256_numeral {s : String} (hb : 1 < b) (hr : b ≤ 16)
    (hs : strip0x (trim s.toList) = Nat.toDigits b n) (hn : n < b ^ 64) :
    parseHexU256 s = .ok (some (BitVec.ofNat 256 (Numeral.reread 16 b n))) := by
  have hlen := (Nat.length_toDigits_le_iff hb (by decide : 0 < 64)).mpr hn
  rw [parseHexU256_digits hs (fun c hc => (isLowerHex_of_mem_toDigits hb hr c hc).spec.1) hlen,
    digitsValue_toDigits hb hr le_rfl]

/-! ### Quantities -/

/-- The number `n` as the JSON parser hands it over: an integer of 64 bits, or else a float. -/
def Json.ofNat (n : ℕ) : Json := if n < 2 ^ 64 then .number n else .float (toString n)

/-- A number, its hexadecimal text and its decimal text are all read as `n`. -/
def SameInAllForms {α : Type} (parse : Json → α) (n : ℕ) (value : α) : Prop :=
  parse (.ofNat n) = value ∧ parse (.string (hexNat n)) = value ∧ parse (.string (toString n)) = value

theorem asU64_ofNat (n : ℕ) : (Json.ofNat n).asU64 = if n < 2 ^ 64 then some (UInt64.ofNat n) else none := by
  unfold Json.ofNat
  split_ifs with h
  · have hfits : (0 : ℤ) ≤ (n : ℤ) ∧ (n : ℤ) < 2 ^ 64 := ⟨Int.natCast_nonneg n, by exact_mod_cast h⟩
    simp only [Json.asU64, hfits, and_self, if_true, Int.toNat_natCast]
  · rfl

theorem asStr_ofNat (n : ℕ) : (Json.ofNat n).asStr = none := by
  unfold Json.ofNat
  split_ifs <;> rfl

/-- What a text is worth to a type of `bits` bits: hexadecimal if it can be, decimal otherwise. -/
def hexOrDecimal (bits : ℕ) (s : String) : Option ℕ :=
  (fromStrRadix 16 bits (strip0x s.toList)).or (fromStrRadix 10 bits s.toList)

theorem hexOrDecimal_hexNat (hn : n < 2 ^ bits) : hexOrDecimal bits (hexNat n) = some n := by
  rw [hexOrDecimal, fromStrRadix_hexNat, if_pos hn, Option.some_or]

/-- A decimal text is right if it has one digit, or so many that it is no hexadecimal number of the type. -/
theorem hexOrDecimal_toString_iff {k : ℕ} (hbits : 2 ^ bits = 16 ^ k) (hn : n < 2 ^ bits) :
    hexOrDecimal bits (toString n) = some n ↔ n < 10 ∨ 10 ^ k ≤ n := by
  have hpow : Numeral.reread 16 10 n < 2 ^ bits ↔ n < 10 ^ k := by
    rw [hbits]
    exact Numeral.reread_lt_pow_iff (by decide) (by decide)
  rw [hexOrDecimal, fromStrRadix_hex_toString, fromStrRadix_toString, if_pos hn]
  split_ifs with hhex
  · rw [Option.some_or, Option.some_inj, Numeral.reread_eq_self_iff (by decide) (by decide)]
    exact ⟨.inl, fun h => h.resolve_right (not_le.mpr (hpow.mp hhex))⟩
  · rw [Option.none_or]
    exact iff_of_true rfl (.inr (not_lt.mp fun h => hhex (hpow.mpr h)))

theorem hexOrDecimal_lt {s : String} {v : ℕ} (h : hexOrDecimal bits s = some v) : v < 2 ^ bits := by
  rcases Option.or_eq_some_iff.mp h with h | ⟨-, h⟩
  · exact fromStrRadix_lt h
  · exact fromStrRadix_lt h

/-- Texts are read into a type that holds the numbers below `2 ^ bits`. -/
theorem map_hexOrDecimal {α : Type} {f : ℕ → α} (hf : ∀ m < 2 ^ bits, ∀ n < 2 ^ bits, f m = f n → m = n)
    (hn : n < 2 ^ bits) (s : String) : (hexOrDecimal bits s).map f = some (f n) ↔ hexOrDecimal bits s = some n := by
  rw [Option.map_eq_some_iff]
  constructor
  · rintro ⟨v, hv, hfv⟩
    rw [hv, hf v (hexOrDecimal_lt hv) n hn hfv]
  · intro h
    exact ⟨n, h, rfl⟩

theorem parseU64Value_string (s : String) :
    parseU64Value (.string s) = (hexOrDecimal 64 s).map UInt64.ofNat := by
  simp only [parseU64Value, Json.asU64, Json.asStr, Option.none_or, Option.bind_some, parseHexU64, hexOrDecimal,
    Option.map_or]

theorem parseU128Value_string (s : String) :
    parseU128Value (.string s) = (hexOrDecimal 128 s).map (BitVec.ofNat 128) := by
  simp only [parseU128Value, Json.asU64, Json.asStr, Option.map_none, Option.none_or, Option.bind_some, parseHexU128,
    hexOrDecimal, Option.map_or]

theorem parseU64Value_forms (n : UInt64) :
    SameInAllForms parseU64Value n.toNat (some n) ↔ n.toNat < 10 ∨ 10 ^ 16 ≤ n.toNat := by
  have hn : n.toNat < 2 ^ 64 := n.toNat_lt
  have hof : ∀ m < 2 ^ 64, ∀ n < 2 ^ 64, UInt64.ofNat m = UInt64.ofNat n → m = n := by
    intro m hm n hn h
    have := congrArg UInt64.toNat h
    rwa [UInt64.toNat_ofNat_of_lt' hm, UInt64.toNat_ofNat_of_lt' hn] at this
  have hnumber : parseU64Value (.ofNat n.toNat) = some n := by
    rw [parseU64Value, asU64_ofNat, if_pos hn, Option.some_or, UInt64.ofNat_toNat]
  have htext : ∀ s, parseU64Value (.string s) = some n ↔ hexOrDecimal 64 s = some n.toNat := by
    intro s
    rw [parseU64Value_string, ← map_hexOrDecimal hof hn, UInt64.ofNat_toNat]
  rw [SameInAllForms, htext, htext, hexOrDecimal_toString_iff (k := 16) (by decide) hn]
  simp only [hnumber, hexOrDecimal_hexNat hn, true_and]

/-- A number beyond 64 bits is not read at all. -/
theorem parseU128Value_forms (n : BitVec 128) :
    SameInAllForms parseU128Value n.toNat (some n) ↔ n.toNat < 10 := by
  have hn : n.toNat < 2 ^ 128 := n.isLt
  have hof : ∀ m < 2 ^ 128, ∀ n < 2 ^ 128, BitVec.ofNat 128 m = BitVec.ofNat 128 n → m = n := by
    intro m hm n hn h
    have := congrArg BitVec.toNat h
    rwa [BitVec.toNat_ofNat, BitVec.toNat_ofNat, Nat.mod_eq_of_lt hm, Nat.mod_eq_of_lt hn] at this
  have hnumber : parseU128Value (.ofNat n.toNat) = some n ↔ n.toNat < 2 ^ 64 := by
    rw [parseU128Value, asU64_ofNat, asStr_ofNat]
    split_ifs with hsmall
    · rw [Option.map_some, Option.some_or, UInt64.toNat_ofNat_of_lt' hsmall, BitVec.ofNat_toNat, BitVec.setWidth_eq]
      exact iff_of_true rfl hsmall
    · exact iff_of_false nofun hsmall
  have htext : ∀ s, parseU128Value (.string s) = some n ↔ hexOrDecimal 128 s = some n.toNat := by
    intro s
    rw [parseU128Value_string, ← map_hexOrDecimal hof hn, BitVec.ofNat_toNat, BitVec.setWidth_eq]
  rw [SameInAllForms, htext, htext, hnumber, hexOrDecimal_toString_iff (k := 32) (by decide) hn]
  simp only [hexOrDecimal_hexNat hn, true_and]
  omega

/-- Every decimal text of a number below `2 ^ 128` is a hexadecimal number of 256 bits, so the decimal reading is
never tried. -/
theorem parseU256Value_texts (n : BitVec 128) :
    (parseU256Value (.string (hexNat n.toNat)) = .ok (some (n.setWidth 256)) ∧
      parseU256Value (.string (toString n.toNat)) = .ok (some (n.setWidth 256))) ↔ n.toNat < 10 := by
  have hn : n.toNat < 2 ^ 128 := n.isLt
  have hhex : parseHexU256 (hexNat n.toNat) = .ok (some (BitVec.ofNat 256 n.toNat)) := by
    rw [parseHexU256_numeral (b := 16) (by decide) (by decide) (by rw [trim_hexNat, strip0x_hexNat])
      (hn.trans (by decide)), Numeral.reread_self]
  have hdecimal : parseHexU256 (toString n.toNat) = .ok (some (BitVec.ofNat 256 (Numeral.reread 16 10 n.toNat))) :=
    parseHexU256_numeral (by decide) (by decide) (by rw [trim_toString, strip0x_toString]) (hn.trans (by decide))
  have hfits : Numeral.reread 16 10 n.toNat < 2 ^ 256 :=
    (Numeral.reread_lt_pow_iff (k := 64) (by decide) (by decide)).mpr (hn.trans (by decide))
  have hvalue : n.setWidth 256 = BitVec.ofNat 256 n.toNat := by
    rw [BitVec.ofNat_toNat]
  simp only [parseU256Value, Json.asU64, Json.asStr, hhex, hdecimal, hvalue, bind, Except.bind, pure, Except.pure,
    Option.some_or, true_and, Except.ok.injEq, Option.some_inj]
  rw [← Numeral.reread_eq_self_iff (r := 16) (b := 10) (by decide) (by decide)]
  constructor
  · intro h
    have := congrArg BitVec.toNat h
    rwa [BitVec.toNat_ofNat, BitVec.toNat_ofNat, Nat.mod_eq_of_lt hfits, Nat.mod_eq_of_lt (hn.trans (by decide))] at this
  · intro h
    rw [h]

/-- Which quantities are read as themselves in every form a client may write them in. -/
theorem quantity_texts_iff (n : UInt64) (m : BitVec 128) :
    (SameInAllForms parseU64Value n.toNat (some n) ↔ n.toNat < 10 ∨ 10 ^ 16 ≤ n.toNat) ∧
    (SameInAllForms parseU128Value m.toNat (some m) ↔ m.toNat < 10) ∧
    ((parseU256Value (.string (hexNat m.toNat)) = .ok (some (m.setWidth 256)) ∧
      parseU256Value (.string (toString m.toNat)) = .ok (some (m.setWidth 256))) ↔ m.toNat < 10) :=
  ⟨parseU64Value_forms n, parseU128Value_forms m, parseU256Value_texts m⟩

/-- Slot `"10"` is slot 16. -/
theorem decimal_ten_misread : parseU64Value (.string (toString 10)) = some 16 ∧
    ¬ SameInAllForms parseU64Value (10 : UInt64).toNat (some 10) := by
  refine ⟨by decide, fun h => ?_⟩
  exact absurd h.2.2 (by decide)

end Eth2077
