import Eth2077.Node.Devnetd

/-!
# Reading requests (`node/src/bin/eth2077-devnetd.rs`)

The functions that turn the strings and numbers of a request into values. Texts are read as lists of
characters. `U256::from_be_slice` panics on more than 32 bytes, so what reads a 256-bit number can panic.
-/

namespace Eth2077

/-- A panic of the library, with its message. -/
structure Panic where
  message : String

theorem except_ok_bind {ε α β : Type} (a : α) (f : α → Except ε β) : (Except.ok a >>= f) = f a := rfl

theorem except_bind_eq_ok {ε α β : Type} {x : Except ε α} {f : α → Except ε β} {b : β} :
    (x >>= f) = .ok b ↔ ∃ a, x = .ok a ∧ f a = .ok b := by
  cases x with
  | error e => simp [bind, Except.bind]
  | ok a => simp [bind, Except.bind]

theorem toOption_map_snd {ε α β : Type} {x : Except ε (α × β)} {b : β} :
    x.toOption.map Prod.snd = some b ↔ ∃ a, x = .ok (a, b) := by
  cases x with
  | error e => simp [Except.toOption]
  | ok r => simp [Except.toOption, Prod.ext_iff]

theorem exists_of_mem_mapM {ε α β : Type} {f : α → Except ε β} {items : List α} {results : List β}
    (h : items.mapM f = .ok results) {b : β} (hb : b ∈ results) : ∃ a ∈ items, f a = .ok b := by
  induction items generalizing results with
  | nil =>
    cases h
    cases hb
  | cons a items ih =>
    rw [List.mapM_cons] at h
    obtain ⟨b', hb', h⟩ := except_bind_eq_ok.mp h
    obtain ⟨rest, hrest, h⟩ := except_bind_eq_ok.mp h
    cases h
    rcases List.mem_cons.mp hb with rfl | hb
    · exact ⟨a, List.mem_cons_self .., hb'⟩
    · obtain ⟨a', ha', hfa'⟩ := ih hrest hb
      exact ⟨a', List.mem_cons_of_mem _ ha', hfa'⟩

/-! ### Prefixes -/

/-- `s.strip_prefix("0x").unwrap_or(s)`. -/
def strip0x : List Char → List Char
  | '0' :: 'x' :: rest => rest
  | s => s

/-- `s.trim_start_matches("0x")`. -/
def trimStart0x : List Char → List Char
  | '0' :: 'x' :: rest => trimStart0x rest
  | s => s

/-! ### Numbers -/

def parseHexU64 (input : String) : Option UInt64 :=
  (fromStrRadix 16 64 (strip0x input.toList)).map UInt64.ofNat

def parseHexU128 (input : String) : Option (BitVec 128) :=
  (fromStrRadix 16 128 (strip0x input.toList)).map (BitVec.ofNat 128)

/-- `hex::decode` of an even number of digits. -/
def hexDecode : List Char → List UInt8
  | a :: b :: rest => UInt8.ofNat ((toDigit 16 a).getD 0 * 16 + (toDigit 16 b).getD 0) :: hexDecode rest
  | _ => []

def parseHexBytes (input : String) : Option (List UInt8) :=
  let raw := strip0x (trim input.toList)
  if !raw.all isAsciiHexdigit then none
  else some (hexDecode (if raw.length % 2 = 1 then '0' :: raw else raw))

def parseHexU256 (input : String) : Except Panic (Option U256) :=
  match parseHexBytes input with
  | none => .ok none
  | some bytes =>
    if 32 < bytes.length then .error ⟨"Value too large for Uint"⟩
    else .ok (some (BitVec.ofNat 256 (ofBe bytes)))

def canonicalAddress (input : String) : Option String :=
  let raw := trimStart0x (trim input.toList)
  if raw.length ≠ 40 ∨ !raw.all isAsciiHexdigit then none
  else some (String.ofList ('0' :: 'x' :: raw.map Char.toLower))

def addressFromHex (input : String) : Option Address := do
  let canonical ← canonicalAddress input
  let bytes ← parseHexBytes canonical
  if h : bytes.length = 20 then some ⟨bytes, h⟩ else none

def normalizeHash32 (input : String) : Option String :=
  let raw := strip0x (trim input.toList)
  if raw.length ≠ 64 ∨ !raw.all isAsciiHexdigit then none
  else some (String.ofList ('0' :: 'x' :: raw.map Char.toLower))

/-! ### Values -/

def parseU64Value (input : Json) : Option UInt64 :=
  input.asU64.or <| input.asStr.bind fun s =>
    (parseHexU64 s).or ((fromStrRadix 10 64 s.toList).map UInt64.ofNat)

def parseU128Value (input : Json) : Option (BitVec 128) :=
  (input.asU64.map fun n => BitVec.ofNat 128 n.toNat).or <| input.asStr.bind fun s =>
    (parseHexU128 s).or ((fromStrRadix 10 128 s.toList).map (BitVec.ofNat 128))

def parseU256Value (input : Json) : Except Panic (Option U256) :=
  match input.asU64, input.asStr with
  | some n, _ => .ok (some (BitVec.ofNat 256 n.toNat))
  | none, some s => do
    let value ← parseHexU256 s
    return value.or ((fromStrRadix 10 128 s.toList).map (BitVec.ofNat 256))
  | none, none => .ok none

def normalizeHash32Value (value : Option Json) : Option String :=
  (value.bind Json.asStr).bind normalizeHash32

def u64Json (n : UInt64) : Json := .number n.toNat

def hexU64 (n : UInt64) : Json := .string (hexNat n.toNat)

/-! ### What the texts look like -/

theorem digitChar_inj {m n : ℕ} (hm : m < 16) (hn : n < 16) (h : Nat.digitChar m = Nat.digitChar n) : m = n := by
  have key : ∀ a b : Fin 16, Nat.digitChar a = Nat.digitChar b → a = b := by decide
  exact congrArg Fin.val (key ⟨m, hm⟩ ⟨n, hn⟩ h)

theorem hexEncode_injective : Function.Injective hexEncode := by
  intro bs bs' h
  have hcode : PrefixCode.IsPrefixCode fun b : UInt8 =>
      [Nat.digitChar (b.toNat / 16), Nat.digitChar (b.toNat % 16)] := by
    refine PrefixCode.of_length (n := 2) (fun _ => rfl) ?_
    intro a b hab
    simp only [List.cons.injEq, and_true] at hab
    have ha := a.toNat_lt
    have hb := b.toNat_lt
    have hhigh := digitChar_inj (by omega) (by omega) hab.1
    have hlow := digitChar_inj (by omega) (by omega) hab.2
    exact UInt8.toNat_inj.mp (by omega)
  exact hcode.flatMap_injective (fun _ => List.cons_ne_nil _ _) (String.ofList_injective h)

theorem bytesToHex_injective : Function.Injective bytesToHex := by
  intro bs bs' h
  exact hexEncode_injective ((String.append_right_inj "0x").mp h)

/-- What holds of the ASCII characters among the hexadecimal digits holds of all of them. -/
theorem of_isAsciiHexdigit {P : Char → Prop}
    (h : ∀ n : Fin 128, isAsciiHexdigit (Char.ofNat n) = true → P (Char.ofNat n)) {c : Char}
    (hc : isAsciiHexdigit c = true) : P c := by
  have hascii : c.toNat < 128 := by
    by_contra hbig
    have hbeyond : ∀ d : Char, d.toNat < 128 → ¬ c ≤ d := fun d hd hle =>
      hbig (lt_of_le_of_lt (show c.toNat ≤ d.toNat from hle) hd)
    have hnine := hbeyond '9' (by decide)
    have hz := hbeyond 'z' (by decide)
    have hZ := hbeyond 'Z' (by decide)
    simp [isAsciiHexdigit, toDigit, hz, hnine, hZ] at hc
  have hP := h ⟨c.toNat, hascii⟩
  rw [Char.ofNat_toNat] at hP
  exact hP hc

theorem toLower_ne_comma {c : Char} (h : isAsciiHexdigit c = true) : c.toLower ≠ ',' :=
  of_isAsciiHexdigit (P := fun c => c.toLower ≠ ',') (by decide) h

/-- A text in the form `normalize_hash32` gives. -/
def IsHash32 (hash : String) : Prop := ∃ input, normalizeHash32 input = some hash

theorem IsHash32.toList {hash : String} (h : IsHash32 hash) :
    ∃ raw : List Char, hash.toList = '0' :: 'x' :: raw.map Char.toLower ∧ raw.all isAsciiHexdigit = true := by
  obtain ⟨input, h⟩ := h
  simp only [normalizeHash32] at h
  split_ifs at h with hraw
  obtain rfl := Option.some_inj.mp h
  refine ⟨strip0x (trim input.toList), by rw [String.toList_ofList], ?_⟩
  simpa using (not_or.mp hraw).2

theorem IsHash32.comma_not_mem {hash : String} (h : IsHash32 hash) : ',' ∉ hash.toList := by
  obtain ⟨raw, hlist, hraw⟩ := h.toList
  rw [hlist]
  intro hmem
  simp only [List.mem_cons, List.mem_map] at hmem
  rcases hmem with h0 | hx | ⟨c, hc, hcomma⟩
  · exact absurd h0 (by decide)
  · exact absurd hx (by decide)
  · exact toLower_ne_comma (List.all_eq_true.mp hraw c hc) hcomma

/-- A list of hashes can be told from its members joined by commas. -/
theorem eq_of_joined_eq {l l' : List String} (hl : ∀ h ∈ l, IsHash32 h) (hl' : ∀ h ∈ l', IsHash32 h)
    (h : String.intercalate "," l = String.intercalate "," l') : l = l' := by
  have hsplit : ∀ m : List String, (∀ h ∈ m, IsHash32 h) → m ≠ [] →
      (String.intercalate "," m).toList.splitOn ',' = m.map String.toList := by
    intro m hm hne
    rw [String.toList_intercalate]
    refine List.splitOn_intercalate ',' ?_ (by simpa using hne)
    intro cs hcs
    obtain ⟨hash, hhash, rfl⟩ := List.mem_map.mp hcs
    exact (hm hash hhash).comma_not_mem
  have hnil : ∀ m : List String, (∀ h ∈ m, IsHash32 h) → String.intercalate "," m = "" → m = [] := by
    intro m hm hempty
    by_contra hne
    have hmap := hsplit m hm hne
    rw [hempty] at hmap
    cases m with
    | nil => exact hne rfl
    | cons hash rest =>
      obtain ⟨raw, hlist, -⟩ := (hm hash (List.mem_cons_self ..)).toList
      rw [List.map_cons, hlist] at hmap
      simp at hmap
  by_cases hne : l = []
  · subst hne
    exact (hnil l' hl' h.symm).symm
  · have hne' : l' ≠ [] := by
      rintro rfl
      exact hne (hnil l hl h)
    have hlists := (hsplit l hl hne).symm.trans ((congrArg (fun s => s.toList.splitOn ',') h).trans (hsplit l' hl' hne'))
    exact List.map_injective_iff.mpr (fun _ _ => String.toList_inj.mp) hlists

/-! ### Addresses -/

/-- Digits that `to_ascii_lowercase` has gone over. -/
def IsLowerHex (c : Char) : Prop := ∃ d, isAsciiHexdigit d = true ∧ d.toLower = c

theorem IsLowerHex.spec {c : Char} (h : IsLowerHex c) :
    isAsciiHexdigit c = true ∧ c.toLower = c ∧ isWhitespace c = false ∧ c ≠ 'x' ∧ (toDigit 16 c).getD 0 < 16 ∧
      Nat.digitChar ((toDigit 16 c).getD 0) = c := by
  obtain ⟨d, hd, rfl⟩ := h
  exact of_isAsciiHexdigit (P := fun d => isAsciiHexdigit d.toLower = true ∧ d.toLower.toLower = d.toLower ∧
    isWhitespace d.toLower = false ∧ d.toLower ≠ 'x' ∧ (toDigit 16 d.toLower).getD 0 < 16 ∧
    Nat.digitChar ((toDigit 16 d.toLower).getD 0) = d.toLower) (by decide) hd

/-- Decoding an even number of lower-case digits and encoding again gives them back. -/
theorem hexEncode_hexDecode : ∀ {digits : List Char}, digits.length % 2 = 0 → (∀ c ∈ digits, IsLowerHex c) →
    (hexEncode (hexDecode digits)).toList = digits
  | [], _, _ => rfl
  | [_], hlen, _ => by simp at hlen
  | a :: b :: rest, hlen, hdigits => by
    obtain ⟨-, -, -, -, ha, ha'⟩ := (hdigits a (by simp)).spec
    obtain ⟨-, -, -, -, hb, hb'⟩ := (hdigits b (by simp)).spec
    have hrest : (hexEncode (hexDecode rest)).toList = rest :=
      hexEncode_hexDecode (by simp only [List.length_cons] at hlen; omega) fun c hc => hdigits c (by simp [hc])
    simp only [hexEncode, String.toList_ofList] at hrest ⊢
    rw [hexDecode, List.flatMap_cons, hrest, UInt8.toNat_ofNat_of_lt' (by simp [UInt8.size]; omega)]
    have hhigh : ((toDigit 16 a).getD 0 * 16 + (toDigit 16 b).getD 0) / 16 = (toDigit 16 a).getD 0 := by omega
    have hlow : ((toDigit 16 a).getD 0 * 16 + (toDigit 16 b).getD 0) % 16 = (toDigit 16 b).getD 0 := by omega
    rw [hhigh, hlow, ha', hb']
    rfl

theorem length_hexDecode : ∀ digits : List Char, (hexDecode digits).length = digits.length / 2
  | [] => rfl
  | [_] => by simp [hexDecode]
  | _ :: _ :: rest => by
    rw [hexDecode, List.length_cons, length_hexDecode rest, List.length_cons, List.length_cons]
    omega

theorem canonicalAddress_toList {input sender : String} (h : canonicalAddress input = some sender) :
    ∃ digits, sender.toList = '0' :: 'x' :: digits ∧ digits.length = 40 ∧ ∀ c ∈ digits, IsLowerHex c := by
  simp only [canonicalAddress] at h
  split_ifs at h with hraw
  obtain rfl := Option.some_inj.mp h
  obtain ⟨hlen, hall⟩ := not_or.mp hraw
  refine ⟨(trimStart0x (trim input.toList)).map Char.toLower, by rw [String.toList_ofList], ?_, ?_⟩
  · simpa using hlen
  · intro c hc
    obtain ⟨d, hd, rfl⟩ := List.mem_map.mp hc
    exact ⟨d, by simpa using List.all_eq_true.mp (by simpa using hall) d hd, rfl⟩

theorem trim_of_forall {text : List Char} (h : ∀ c ∈ text, isWhitespace c = false) : trim text = text := by
  have hstart : text.dropWhile isWhitespace = text := by
    refine List.dropWhile_eq_self_iff.mpr fun hpos => ?_
    rw [h _ (List.getElem_mem hpos)]
    decide
  unfold trim
  rw [hstart]
  refine List.rdropWhile_eq_self_iff.mpr fun hne => ?_
  rw [h _ (List.getLast_mem hne)]
  decide

theorem trim_canonical {digits : List Char} (h : ∀ c ∈ digits, IsLowerHex c) :
    trim ('0' :: 'x' :: digits) = '0' :: 'x' :: digits := by
  refine trim_of_forall fun c hc => ?_
  rcases List.mem_cons.mp hc with rfl | hc
  · decide
  · rcases List.mem_cons.mp hc with rfl | hc
    · decide
    · exact (h c hc).spec.2.2.1

theorem trimStart0x_canonical {digits : List Char} (h : ∀ c ∈ digits, IsLowerHex c) :
    trimStart0x ('0' :: 'x' :: digits) = digits := by
  rw [trimStart0x]
  unfold trimStart0x
  split
  · rename_i rest
    exact absurd rfl (h 'x' (by simp)).spec.2.2.2.1
  · rfl

theorem canonicalAddress_digits {sender : String} {digits : List Char} (hsender : sender.toList = '0' :: 'x' :: digits)
    (hlen : digits.length = 40) (hdigits : ∀ c ∈ digits, IsLowerHex c) : canonicalAddress sender = some sender := by
  have hall : digits.all isAsciiHexdigit = true := List.all_eq_true.mpr fun c hc => (hdigits c hc).spec.1
  have hlower : digits.map Char.toLower = digits := by
    refine (List.map_congr_left fun c hc => ?_).trans (List.map_id digits)
    exact (hdigits c hc).spec.2.1
  simp only [canonicalAddress, hsender, trim_canonical hdigits, trimStart0x_canonical hdigits, hlen, hall, hlower]
  rw [if_neg (by simp), ← hsender, String.ofList_toList]

/-- A sender in canonical form is the text of its address. -/
theorem addressFromHex_canonical {input sender : String} (h : canonicalAddress input = some sender) :
    ∃ address, addressFromHex sender = some address ∧ bytesToHex address.toList = sender := by
  obtain ⟨digits, hsender, hlen, hdigits⟩ := canonicalAddress_toList h
  have hall : digits.all isAsciiHexdigit = true := List.all_eq_true.mpr fun c hc => (hdigits c hc).spec.1
  have hbytes : parseHexBytes sender = some (hexDecode digits) := by
    simp [parseHexBytes, hsender, trim_canonical hdigits, strip0x, hall, hlen]
  have hlength : (hexDecode digits).length = 20 := by
    rw [length_hexDecode, hlen]
  refine ⟨⟨hexDecode digits, hlength⟩, ?_, ?_⟩
  · simp [addressFromHex, canonicalAddress_digits hsender hlen hdigits, hbytes, hlength]
  · have := hexEncode_hexDecode (by omega) hdigits
    apply String.toList_inj.mp
    rw [hsender, bytesToHex, String.toList_append]
    exact congrArg (fun l => '0' :: 'x' :: l) this

theorem isLowerHex_digitChar {n : ℕ} (h : n < 16) : IsLowerHex (Nat.digitChar n) := by
  have key : ∀ a : Fin 16, isAsciiHexdigit (Nat.digitChar a) = true ∧ (Nat.digitChar a).toLower = Nat.digitChar a := by
    decide
  exact ⟨_, key ⟨n, h⟩⟩

theorem isLowerHex_of_mem_hexEncode {bs : List UInt8} : ∀ c ∈ (hexEncode bs).toList, IsLowerHex c := by
  intro c hc
  simp only [hexEncode, String.toList_ofList, List.mem_flatMap, List.mem_cons, List.not_mem_nil, or_false] at hc
  obtain ⟨b, -, rfl | rfl⟩ := hc
  · have := b.toNat_lt
    exact isLowerHex_digitChar (by omega)
  · exact isLowerHex_digitChar (by omega)

theorem addressFromHex_bytesToHex (a : Address) : addressFromHex (bytesToHex a.toList) = some a := by
  have htext : (bytesToHex a.toList).toList = '0' :: 'x' :: (hexEncode a.toList).toList := by
    rw [bytesToHex, String.toList_append]
    rfl
  have hlen : (hexEncode a.toList).toList.length = 40 := by
    simp [hexEncode]
  have hdigits : ∀ c ∈ (hexEncode a.toList).toList, IsLowerHex c := isLowerHex_of_mem_hexEncode
  obtain ⟨address, haddress, hsame⟩ := addressFromHex_canonical (canonicalAddress_digits htext hlen hdigits)
  rw [haddress, List.Vector.toList_injective (bytesToHex_injective hsame)]

end Eth2077
