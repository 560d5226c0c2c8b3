import Mathlib.Data.List.DropRight
import Mathlib.Data.Nat.Notation
import Mathlib.Data.String.Basic

/-!
# Texts

What the Rust standard library does with characters and strings, as far as the model needs it. A `String` is a list of
Unicode scalar values here as there; functions on texts are written over lists of characters.
-/

namespace Eth2077

/-! ### Characters -/

/-- `char::is_whitespace`. -/
def isWhitespace (c : Char) : Bool :=
  let n := c.toNat
  (9 ≤ n && n ≤ 13) || n == 0x20 || n == 0x85 || n == 0xa0 || n == 0x1680 || (0x2000 ≤ n && n ≤ 0x200a) ||
    n == 0x2028 || n == 0x2029 || n == 0x202f || n == 0x205f || n == 0x3000

def trim (s : List Char) : List Char := (s.dropWhile isWhitespace).rdropWhile isWhitespace

/-- `str::trim`, and `to_string` on it. -/
def trimmed (s : String) : String := String.ofList (trim s.toList)

theorem trim_trim (s : List Char) : trim (trim s) = trim s := by
  have hhead : (trim s).dropWhile isWhitespace = trim s := by
    refine List.dropWhile_eq_self_iff.mpr fun hlen => ?_
    -- what is left begins as what was left after the first half
    have hprefix : trim s <+: s.dropWhile isWhitespace := List.rdropWhile_prefix _ _
    have hlen' : 0 < (s.dropWhile isWhitespace).length := hlen.trans_le hprefix.length_le
    have hget : (trim s)[0] = (s.dropWhile isWhitespace)[0] := hprefix.getElem hlen
    rw [hget]
    exact List.dropWhile_get_zero_not _ _ hlen'
  unfold trim at hhead ⊢
  rw [hhead, List.rdropWhile_idempotent]

theorem mem_of_mem_trim {c : Char} {s : List Char} (h : c ∈ trim s) : c ∈ s :=
  (List.dropWhile_suffix _).subset ((List.rdropWhile_prefix _ _).subset h)

theorem trimmed_eq_empty_iff {s : String} : trimmed s = "" ↔ ∀ c ∈ s.toList, isWhitespace c := by
  have hempty : trimmed s = "" ↔ trim s.toList = [] := by
    rw [← String.toList_inj, trimmed, String.toList_ofList]
    rfl
  rw [hempty, trim, List.rdropWhile_eq_nil_iff]
  constructor
  · intro h
    have hnil : s.toList.dropWhile isWhitespace = [] := by
      by_contra hne
      have hhead := List.head_dropWhile_not isWhitespace hne
      rw [h _ (List.head_mem hne)] at hhead
      cases hhead
    exact List.dropWhile_eq_nil_iff.mp hnil
  · exact fun h c hc => h c ((List.dropWhile_suffix _).subset hc)

/-- `char::to_digit`. -/
def toDigit (radix : ℕ) (c : Char) : Option ℕ :=
  let value :=
    if '0' ≤ c ∧ c ≤ '9' then some (c.toNat - '0'.toNat)
    else if 'a' ≤ c ∧ c ≤ 'z' then some (c.toNat - 'a'.toNat + 10)
    else if 'A' ≤ c ∧ c ≤ 'Z' then some (c.toNat - 'A'.toNat + 10)
    else none
  value.filter (· < radix)

def isAsciiHexdigit (c : Char) : Bool := (toDigit 16 c).isSome

/-- `from_str_radix` of an unsigned type of `bits` bits: a sign `+` is allowed, no digits are not. -/
def fromStrRadix (radix bits : ℕ) (s : List Char) : Option ℕ := do
  let digits := match s with
    | '+' :: rest => rest
    | s => s
  if digits = [] then none
  else
    let values ← digits.mapM (toDigit radix)
    let n := values.foldl (fun n d => n * radix + d) 0
    if n < 2 ^ bits then some n else none

theorem fromStrRadix_lt {radix bits v : ℕ} {text : List Char} (h : fromStrRadix radix bits text = some v) :
    v < 2 ^ bits := by
  simp only [fromStrRadix, Option.bind_eq_bind] at h
  split_ifs at h with hnil
  obtain ⟨values, -, h⟩ := Option.bind_eq_some_iff.mp h
  split_ifs at h with hlt
  exact Option.some_inj.mp h ▸ hlt

theorem toList_toString (n : ℕ) : (toString n).toList = Nat.toDigits 10 n := by
  rw [Nat.toString_eq_repr, Nat.toList_repr]

theorem isDigit_of_mem_toString {n : ℕ} {c : Char} (h : c ∈ (toString n).toList) : c.isDigit := by
  rw [toList_toString] at h
  exact Nat.isDigit_of_mem_toDigits (by decide) (by decide) h

theorem toString_injective {m n : ℕ} (h : (toString m).toList = (toString n).toList) : m = n := by
  rw [toList_toString, toList_toString] at h
  rw [← Nat.ofDigitChars_ten_toDigits (n := m), h, Nat.ofDigitChars_ten_toDigits]

/-! ### Bytes and numbers -/

/-- `str::as_bytes`. -/
def asBytes (s : String) : List UInt8 := s.toUTF8.data.toList

theorem asBytes_injective : Function.Injective asBytes := by
  intro s t h
  exact String.toByteArray_inj.mp (ByteArray.ext (Array.toList_inj.mp h))

@[simp] theorem asBytes_append (s t : String) : asBytes (s ++ t) = asBytes s ++ asBytes t := by
  simp [asBytes]

theorem asBytes_eq (s : String) : asBytes s = s.toList.flatMap String.utf8EncodeChar := by
  obtain ⟨cs, rfl⟩ : ∃ cs, s = String.ofList cs := ⟨s.toList, String.ofList_toList.symm⟩
  simp [asBytes, List.utf8Encode]

/-- No byte of a text is as large as `0xF8`. -/
theorem lt_of_mem_asBytes {s : String} {b : UInt8} (h : b ∈ asBytes s) : b.toNat < 0xF8 := by
  rw [asBytes_eq] at h
  obtain ⟨c, -, hc⟩ := List.mem_flatMap.mp h
  simp only [String.utf8EncodeChar] at hc
  -- from one byte, which is the scalar value, to four, the first of which carries three bits
  split_ifs at hc <;> simp only [List.mem_cons, List.not_mem_nil, or_false] at hc
  · rw [hc, UInt8.toNat_ofNat']
    omega
  · rcases hc with rfl | rfl <;> rw [UInt8.toNat_ofNat'] <;> omega
  · rcases hc with rfl | rfl | rfl <;> rw [UInt8.toNat_ofNat'] <;> omega
  · rcases hc with rfl | rfl | rfl | rfl <;> rw [UInt8.toNat_ofNat'] <;> omega

/-- A `String` where its length matters: no allocation is longer than `isize::MAX`. -/
abbrev Text := { s : String // (asBytes s).length < 2 ^ 63 }

instance : Ord Text := ⟨compareOn Subtype.val⟩

instance : Std.TransOrd Text := inferInstanceAs (Std.TransCmp (compareOn Subtype.val))

instance : Std.LawfulEqOrd Text where
  eq_of_compare h := Subtype.ext (Std.LawfulEqOrd.eq_of_compare h)

/-- `hex::encode`. -/
def hexEncode (bs : List UInt8) : String :=
  String.ofList (bs.flatMap fun b => [Nat.digitChar (b.toNat / 16), Nat.digitChar (b.toNat % 16)])

/-! ### Letters -/

/-- `str::to_ascii_lowercase`. -/
def asciiLowercase (s : String) : String := String.ofList (s.toList.map Char.toLower)

/-- Capital letters are moved by 32. -/
theorem toNat_toLower {c : Char} (h : c.val ≥ 'A'.val ∧ c.val ≤ 'Z'.val) :
    65 ≤ c.toNat ∧ c.toNat ≤ 90 ∧ c.toLower.toNat = c.toNat + 32 := by
  have hA : 'A'.val.toNat = 65 := rfl
  have hZ : 'Z'.val.toNat = 90 := rfl
  have hlow := UInt32.le_iff_toNat_le.mp h.1
  have hhigh := UInt32.le_iff_toNat_le.mp h.2
  have hlower : c.toLower.val = c.val + ('a'.val - 'A'.val) := congrArg Char.val (dif_pos h)
  have hval : c.toLower.val.toNat = c.val.toNat + 32 := by
    rw [hlower, UInt32.toNat_add]
    exact Nat.mod_eq_of_lt (Nat.lt_of_le_of_lt (Nat.add_le_add_right hhigh _) (by decide))
  rw [hA] at hlow
  rw [hZ] at hhigh
  exact ⟨hlow, hhigh, hval⟩

theorem toLower_toLower (c : Char) : c.toLower.toLower = c.toLower := by
  by_cases h : c.val ≥ 'A'.val ∧ c.val ≤ 'Z'.val
  · obtain ⟨hlow, -, hval⟩ := toNat_toLower h
    have hnot : ¬ (c.toLower.val ≥ 'A'.val ∧ c.toLower.val ≤ 'Z'.val) := by
      intro h'
      obtain ⟨-, hhigh, -⟩ := toNat_toLower h'
      omega
    exact dif_neg hnot
  · have hsame : c.toLower = c := dif_neg h
    rw [hsame, hsame]

theorem isWhitespace_of_visible {c : Char} (hlow : 0x20 < c.toNat) (hhigh : c.toNat < 0x85) : isWhitespace c = false := by
  simp only [isWhitespace, Bool.or_eq_false_iff, Bool.and_eq_false_iff, beq_eq_false_iff_ne, decide_eq_false_iff_not]
  omega

theorem isWhitespace_toLower (c : Char) : isWhitespace c.toLower = isWhitespace c := by
  by_cases h : c.val ≥ 'A'.val ∧ c.val ≤ 'Z'.val
  · obtain ⟨hlow, hhigh, hval⟩ := toNat_toLower h
    rw [isWhitespace_of_visible (c := c.toLower) (by omega) (by omega), isWhitespace_of_visible (by omega) (by omega)]
  · have hsame : c.toLower = c := dif_neg h
    rw [hsame]

theorem trim_map_toLower (s : List Char) : trim (s.map Char.toLower) = (trim s).map Char.toLower := by
  have hspace : isWhitespace ∘ Char.toLower = isWhitespace := funext isWhitespace_toLower
  simp only [trim, List.rdropWhile, List.dropWhile_map, hspace, ← List.map_reverse]

theorem asciiLowercase_append (a b : String) : asciiLowercase (a ++ b) = asciiLowercase a ++ asciiLowercase b := by
  rw [asciiLowercase, String.toList_append, List.map_append, String.ofList_append]
  rfl

theorem asciiLowercase_asciiLowercase (s : String) : asciiLowercase (asciiLowercase s) = asciiLowercase s := by
  rw [asciiLowercase, asciiLowercase, String.toList_ofList, List.map_map]
  refine congrArg String.ofList (List.map_congr_left fun c _ => ?_)
  exact toLower_toLower c

end Eth2077
