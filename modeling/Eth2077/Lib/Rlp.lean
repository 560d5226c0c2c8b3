import Eth2077.Lib.PrefixCode

/-!
# Recursive length prefix encoding

The byte format of `alloy_rlp`: strings, numbers without leading zeros, and lists of items. A decoder
takes its item off the front of a buffer and refuses every form the encoder does not write.
-/

namespace Rlp

/-- The bytes of a number without leading zeros; none for zero. -/
def trimmed (w n : ℕ) : List UInt8 := (beBytes w n).dropWhile (· == 0)

/-- The header of a payload: its length follows `short`, or the length of its length follows `long`. -/
def header (short long : UInt8) (len : ℕ) : List UInt8 :=
  if len ≤ 55 then [short + UInt8.ofNat len]
  else (long + UInt8.ofNat (trimmed 8 len).length) :: trimmed 8 len

def encodeString (bs : List UInt8) : List UInt8 :=
  match bs with
  | [b] => if b < 0x80 then [b] else header 0x80 0xb7 1 ++ [b]
  | bs => header 0x80 0xb7 bs.length ++ bs

def encodeNumber (w n : ℕ) : List UInt8 := encodeString (trimmed w n)

def encodeList (items : List (List UInt8)) : List UInt8 :=
  header 0xc0 0xf7 items.flatten.length ++ items.flatten

/-- Trailing optional items: a missing one is written as the empty string if a later one is there. -/
def trailing : List (Option (List UInt8)) → List (List UInt8)
  | [] => []
  | none :: items => if items.all Option.isNone then [] else [0x80] :: trailing items
  | some item :: items => item :: trailing items

/-! ### Decoders -/

abbrev Decoder (α : Type) := StateT (List UInt8) Option α

/-- `static_left_pad`: at most `w` bytes, the first of them not zero. -/
def leftPad (w : ℕ) (bs : List UInt8) : Option ℕ :=
  if w < bs.length ∨ bs.head? = some 0 then none else some (ofBe bs)

/-- The length of a long payload: `n` bytes of it, for a length that has no short form. -/
def decodeLength (n : ℕ) (buf : List UInt8) : Option (ℕ × List UInt8) :=
  if buf.length < n then none
  else do
    let len ← leftPad 8 (buf.take n)
    if len < 56 then none else some (len, buf.drop n)

/-- What a leading byte says: whether a list follows, the length of the payload, and the bytes from its
start on. -/
def decodeLead (b : UInt8) (rest : List UInt8) : Option (Bool × ℕ × List UInt8) :=
  if b < 0x80 then some (false, 1, b :: rest)
  else if b < 0xb8 then
    -- a byte below 0x80 is its own encoding and has no other
    if b = 0x81 ∧ rest.head?.all (· < 0x80) then none
    else some (false, (b - 0x80).toNat, rest)
  else if b < 0xc0 then (decodeLength (b - 0xb7).toNat rest).map (false, ·)
  else if b < 0xf8 then some (true, (b - 0xc0).toNat, rest)
  else (decodeLength (b - 0xf7).toNat rest).map (true, ·)

/-- `Header::decode`. -/
def decodeHeader : Decoder (Bool × ℕ) := fun buf =>
  match buf with
  | [] => none
  | b :: rest => do
    let (list, len, buf) ← decodeLead b rest
    if buf.length < len then none else some ((list, len), buf)

/-- `Header::decode_bytes` of a string. -/
def decodeString : Decoder (List UInt8) := fun buf => do
  let ((list, len), buf) ← decodeHeader buf
  if list then none else some (buf.take len, buf.drop len)

def decodeNumber (w : ℕ) : Decoder ℕ := fun buf => do
  let (bs, buf) ← decodeString buf
  let n ← leftPad w bs
  some (n, buf)

/-- The header of a record; returns how much of the buffer is left after its payload. -/
def decodeRecord : Decoder ℕ := fun buf => do
  let ((list, len), buf) ← decodeHeader buf
  if list then some (buf.length - len, buf) else none

def decodeEnd (ends : ℕ) : Decoder Unit := fun buf =>
  if buf.length = ends then some ((), buf) else none

/-- An optional item of a record whose payload ends where `ends` bytes of the buffer are left. -/
def decodeTrailing {α : Type} (ends : ℕ) (decode : Decoder α) : Decoder (Option α) := fun buf =>
  if ends < buf.length then
    if buf.head? = some 0x80 then some (none, buf.tail)
    else (decode buf).map fun (a, buf) => (some a, buf)
  else some (none, buf)

theorem Decoder.bind_eq {α β : Type} {d : Decoder α} {f : α → Decoder β} {a : α} {buf rest : List UInt8}
    (h : d buf = some (a, rest)) : (d >>= f) buf = f a rest := by
  simp [bind, StateT.bind, h]

/-! ### Numbers without leading zeros -/

theorem ofBe_dropWhile (bs : List UInt8) : ofBe (bs.dropWhile (· == 0)) = ofBe bs := by
  induction bs with
  | nil => rfl
  | cons b bs ih =>
    rw [List.dropWhile_cons]
    split
    · rename_i hb
      rw [ih, ofBe, eq_of_beq hb]
      simp
    · rfl

theorem ofBe_trimmed {w n : ℕ} (hn : n < 256 ^ w) : ofBe (trimmed w n) = n := by
  rw [trimmed, ofBe_dropWhile, ofBe_beBytes, Nat.mod_eq_of_lt hn]

theorem length_trimmed_le (w n : ℕ) : (trimmed w n).length ≤ w := by
  have := (List.dropWhile_suffix (l := beBytes w n) (· == 0)).length_le
  rwa [length_beBytes] at this

theorem head?_trimmed (w n : ℕ) : (trimmed w n).head? ≠ some 0 := by
  intro h
  have := List.head?_dropWhile_not (fun b : UInt8 => b == 0) (beBytes w n)
  rw [← trimmed, h] at this
  simp at this

theorem leftPad_trimmed {w n : ℕ} (hn : n < 256 ^ w) : leftPad w (trimmed w n) = some n := by
  rw [leftPad, if_neg, ofBe_trimmed hn]
  rintro (h | h)
  · exact absurd (length_trimmed_le w n) (by omega)
  · exact head?_trimmed w n h

/-! ### Headers -/

theorem decodeLength_trimmed {len : ℕ} (hlen : 56 ≤ len) (h64 : len < 2 ^ 64) (rest : List UInt8) :
    decodeLength (trimmed 8 len).length (trimmed 8 len ++ rest) = some (len, rest) := by
  rw [decodeLength, if_neg (by simp), List.take_left, List.drop_left, leftPad_trimmed (by omega)]
  simp [Nat.not_lt.mpr hlen]

theorem toNat_add_ofNat {code : UInt8} {n : ℕ} (h : code.toNat + n < 256) :
    (code + UInt8.ofNat n).toNat = code.toNat + n := by
  rw [UInt8.toNat_add, UInt8.toNat_ofNat', Nat.mod_eq_of_lt (show n < 2 ^ 8 by omega), Nat.mod_eq_of_lt h]

theorem toNat_add_ofNat_sub {code : UInt8} {n : ℕ} (h : n < 256) :
    (code + UInt8.ofNat n - code).toNat = n := by
  rw [UInt8.add_comm, UInt8.add_sub_cancel, UInt8.toNat_ofNat', Nat.mod_eq_of_lt h]

theorem decodeLead_short_string {len : ℕ} {rest : List UInt8} (hlen : len ≤ 55)
    (hrest : len = 1 → ¬ rest.head?.all (· < 0x80)) :
    decodeLead (0x80 + UInt8.ofNat len) rest = some (false, len, rest) := by
  have hb : (0x80 + UInt8.ofNat len).toNat = 128 + len := toNat_add_ofNat (show 128 + len < 256 by omega)
  rw [decodeLead, if_neg, if_pos, if_neg, toNat_add_ofNat_sub (by omega)]
  · rintro ⟨h, hall⟩
    have := congrArg UInt8.toNat h
    simp only [hb, UInt8.reduceToNat] at this
    exact hrest (by omega) hall
  all_goals
    simp only [UInt8.lt_iff_toNat_lt, hb, UInt8.reduceToNat]
    omega

theorem decodeLead_long_string {n : ℕ} (hpos : 0 < n) (hn : n ≤ 8) (rest : List UInt8) :
    decodeLead (0xb7 + UInt8.ofNat n) rest = (decodeLength n rest).map (false, ·) := by
  have hb : (0xb7 + UInt8.ofNat n).toNat = 183 + n := toNat_add_ofNat (show 183 + n < 256 by omega)
  rw [decodeLead, if_neg, if_neg, if_pos, toNat_add_ofNat_sub (by omega)]
  all_goals
    simp only [UInt8.lt_iff_toNat_lt, hb, UInt8.reduceToNat]
    omega

theorem decodeLead_short_list {len : ℕ} (hlen : len ≤ 55) (rest : List UInt8) :
    decodeLead (0xc0 + UInt8.ofNat len) rest = some (true, len, rest) := by
  have hb : (0xc0 + UInt8.ofNat len).toNat = 192 + len := toNat_add_ofNat (show 192 + len < 256 by omega)
  rw [decodeLead, if_neg, if_neg, if_neg, if_pos, toNat_add_ofNat_sub (by omega)]
  all_goals
    simp only [UInt8.lt_iff_toNat_lt, hb, UInt8.reduceToNat]
    omega

theorem decodeLead_long_list {n : ℕ} (hpos : 0 < n) (hn : n ≤ 8) (rest : List UInt8) :
    decodeLead (0xf7 + UInt8.ofNat n) rest = (decodeLength n rest).map (true, ·) := by
  have hb : (0xf7 + UInt8.ofNat n).toNat = 247 + n := toNat_add_ofNat (show 247 + n < 256 by omega)
  rw [decodeLead, if_neg, if_neg, if_neg, if_neg, toNat_add_ofNat_sub (by omega)]
  all_goals
    simp only [UInt8.lt_iff_toNat_lt, hb, UInt8.reduceToNat]
    omega

theorem length_trimmed_pos {w n : ℕ} (hn : n < 256 ^ w) (hpos : 0 < n) : 0 < (trimmed w n).length := by
  rw [List.length_pos_iff]
  intro h
  have := ofBe_trimmed hn
  rw [h] at this
  exact absurd this (by simp [ofBe]; omega)

theorem decodeHeader_cons {b : UInt8} {bs payload rest : List UInt8} {list : Bool}
    (h : decodeLead b (bs ++ (payload ++ rest)) = some (list, payload.length, payload ++ rest)) :
    decodeHeader (b :: bs ++ (payload ++ rest)) = some ((list, payload.length), payload ++ rest) := by
  simp [decodeHeader, h]

theorem decodeHeader_list {payload : List UInt8} (hlen : payload.length < 2 ^ 64) (rest : List UInt8) :
    decodeHeader (header 0xc0 0xf7 payload.length ++ (payload ++ rest)) =
      some ((true, payload.length), payload ++ rest) := by
  rw [header]
  split
  · rename_i h
    exact decodeHeader_cons (decodeLead_short_list h _)
  · rename_i h
    refine decodeHeader_cons ?_
    rw [decodeLead_long_list (length_trimmed_pos (by omega) (by omega)) (length_trimmed_le ..),
      decodeLength_trimmed (by omega) hlen]
    rfl

theorem decodeHeader_string {payload : List UInt8} (hlen : payload.length < 2 ^ 64) (rest : List UInt8)
    (hone : payload.length = 1 → ¬ payload.head?.all (· < 0x80)) :
    decodeHeader (header 0x80 0xb7 payload.length ++ (payload ++ rest)) =
      some ((false, payload.length), payload ++ rest) := by
  rw [header]
  split
  · rename_i h
    refine decodeHeader_cons (decodeLead_short_string h fun h1 => ?_)
    obtain ⟨b, rfl⟩ := List.length_eq_one_iff.mp h1
    exact hone h1
  · rename_i h
    refine decodeHeader_cons ?_
    rw [decodeLead_long_string (length_trimmed_pos (by omega) (by omega)) (length_trimmed_le ..),
      decodeLength_trimmed (by omega) hlen]
    rfl

/-! ### Items -/

theorem encodeString_cases (bs : List UInt8) :
    (∃ b, bs = [b] ∧ b < 0x80 ∧ encodeString bs = [b]) ∨
      (bs.length = 1 → ¬ bs.head?.all (· < 0x80)) ∧ encodeString bs = header 0x80 0xb7 bs.length ++ bs := by
  match bs with
  | [] => exact .inr ⟨by simp, rfl⟩
  | [b] =>
    by_cases hb : b < 0x80
    · exact .inl ⟨b, rfl, hb, if_pos hb⟩
    · exact .inr ⟨fun _ => by simpa using hb, if_neg hb⟩
  | _ :: _ :: _ => exact .inr ⟨by simp, rfl⟩

theorem decodeString_encodeString {bs : List UInt8} (hlen : bs.length < 2 ^ 64) (rest : List UInt8) :
    decodeString (encodeString bs ++ rest) = some (bs, rest) := by
  rcases encodeString_cases bs with ⟨b, rfl, hb, henc⟩ | ⟨hone, henc⟩
  · simp [henc, decodeString, decodeHeader, decodeLead, hb]
  · rw [henc, List.append_assoc]
    simp [decodeString, decodeHeader_string hlen rest hone]

theorem decodeNumber_encodeNumber {w n : ℕ} (hw : w < 2 ^ 64) (hn : n < 256 ^ w) (rest : List UInt8) :
    decodeNumber w (encodeNumber w n ++ rest) = some (n, rest) := by
  have hlen : (trimmed w n).length < 2 ^ 64 := Nat.lt_of_le_of_lt (length_trimmed_le w n) hw
  simp [decodeNumber, encodeNumber, decodeString_encodeString hlen, leftPad_trimmed hn]

theorem encodeString_ne_nil (bs : List UInt8) : encodeString bs ≠ [] := by
  rcases encodeString_cases bs with ⟨b, rfl, -, henc⟩ | ⟨-, henc⟩
  · simp [henc]
  · rw [henc, header]
    split <;> simp

theorem length_encodeString_le (bs : List UInt8) : (encodeString bs).length ≤ 9 + bs.length := by
  rcases encodeString_cases bs with ⟨b, rfl, -, henc⟩ | ⟨-, henc⟩
  · simp [henc]
  · have h8 := length_trimmed_le 8 bs.length
    rw [henc, header]
    split
    · rw [List.length_append, List.length_singleton]
      omega
    · rw [List.length_append, List.length_cons]
      omega

theorem length_encodeNumber_le (w n : ℕ) : (encodeNumber w n).length ≤ 9 + w := by
  have hw := length_trimmed_le w n
  have := length_encodeString_le (trimmed w n)
  rw [encodeNumber]
  omega

/-- Only the empty string starts as an absent item does. -/
theorem eq_nil_of_head?_encodeString {bs : List UInt8} (hlen : bs.length < 2 ^ 64)
    (h : (encodeString bs).head? = some 0x80) : bs = [] := by
  rcases encodeString_cases bs with ⟨b, rfl, hb, henc⟩ | ⟨-, henc⟩
  · rw [henc, List.head?_cons, Option.some_inj] at h
    subst h
    exact absurd hb (by decide)
  · rw [henc, header] at h
    split at h
    · simp only [List.cons_append, List.head?_cons, Option.some_inj] at h
      have hb : (0x80 + UInt8.ofNat bs.length).toNat = 128 + bs.length :=
        toNat_add_ofNat (show 128 + bs.length < 256 by omega)
      rw [h] at hb
      simp only [UInt8.reduceToNat] at hb
      exact List.length_eq_zero_iff.mp (by omega)
    · have h8 := length_trimmed_le 8 bs.length
      simp only [List.cons_append, List.head?_cons, Option.some_inj] at h
      have hb : (0xb7 + UInt8.ofNat (trimmed 8 bs.length).length).toNat = 183 + (trimmed 8 bs.length).length :=
        toNat_add_ofNat (show 183 + (trimmed 8 bs.length).length < 256 by omega)
      rw [h] at hb
      simp only [UInt8.reduceToNat] at hb
      omega

theorem decodeRecord_encodeList {items : List (List UInt8)} (hlen : items.flatten.length < 2 ^ 64)
    (rest : List UInt8) :
    decodeRecord (encodeList items ++ rest) = some (rest.length, items.flatten ++ rest) := by
  rw [encodeList, List.append_assoc, decodeRecord, decodeHeader_list hlen rest]
  simp only [Option.bind_eq_bind, Option.bind_some, if_true, List.length_append, Nat.add_sub_cancel_left]

theorem encodeNumber_head {w n : ℕ} (hw : w < 2 ^ 64) (hn : n < 256 ^ w)
    (h : (encodeNumber w n).head? = some 0x80) : n = 0 := by
  have hlen : (trimmed w n).length < 2 ^ 64 := Nat.lt_of_le_of_lt (length_trimmed_le w n) hw
  have := ofBe_trimmed hn
  rw [eq_nil_of_head?_encodeString hlen h] at this
  exact this.symm

theorem trailing_eq_nil {items : List (Option (List UInt8))} (h : items.all Option.isNone) :
    trailing items = [] := by
  cases items with
  | nil => rfl
  | cons o items =>
    rw [List.all_cons, Bool.and_eq_true, Option.isNone_iff_eq_none] at h
    obtain ⟨rfl, h⟩ := h
    exact if_pos h

theorem length_trailing_le (bound : ℕ) {items : List (Option (List UInt8))}
    (h : ∀ item, some item ∈ items → item.length ≤ bound) :
    (trailing items).flatten.length ≤ items.length * (bound + 1) := by
  induction items with
  | nil => simp [trailing]
  | cons o items ih =>
    have ih := ih fun item hitem => h item (List.mem_cons_of_mem _ hitem)
    cases o with
    | none =>
      rw [trailing]
      split
      · simp
      · simp only [List.flatten_cons, List.length_append, List.length_cons, List.length_nil, Nat.succ_mul]
        omega
    | some item =>
      have hitem := h item List.mem_cons_self
      simp only [trailing, List.flatten_cons, List.length_append, List.length_cons, Nat.succ_mul]
      omega

/-- A trailing item is read back unless it was written as the empty string, which reads as absent. -/
theorem decodeTrailing_trailing {α : Type} {decode : Decoder α} {item : α → List UInt8}
    (hdecode : ∀ a rest, decode (item a ++ rest) = some (a, rest)) (hne : ∀ a, item a ≠ [])
    (hhead : ∀ a, (item a).head? = some 0x80 → item a = [0x80])
    (o : Option α) (items : List (Option (List UInt8))) (rest : List UInt8) :
    decodeTrailing rest.length decode ((trailing (o.map item :: items)).flatten ++ rest) =
      some (o.filter fun a => item a ≠ [0x80], (trailing items).flatten ++ rest) := by
  cases o with
  | none =>
    rw [Option.map_none, trailing]
    split
    · rename_i h
      simp [decodeTrailing, trailing_eq_nil h]
    · rw [decodeTrailing, if_pos]
      · simp
      · simp only [List.flatten_cons, List.length_append, List.length_cons, List.length_nil]
        omega
  | some a =>
    have hlen : 0 < (item a).length := List.length_pos_iff.mpr (hne a)
    rw [Option.map_some, trailing, List.flatten_cons, List.append_assoc, decodeTrailing, if_pos]
    · by_cases ha : item a = [0x80]
      · simp [ha, Option.filter]
      · have hh : (item a ++ ((trailing items).flatten ++ rest)).head? ≠ some 0x80 := by
          rw [List.head?_append_of_ne_nil _ (hne a)]
          exact fun h => ha (hhead a h)
        rw [if_neg hh, hdecode]
        simp [Option.filter, ha]
    · simp only [List.length_append]
      omega

/-! ### What trailing items fix -/

/-- An optional value as its trailing item tells it: before a later item, a value written as the empty
string is written as an absent one is. -/
def told {α : Type} (item : α → List UInt8) (later : Bool) (o : Option α) : Option α :=
  if later then o.filter fun a => item a ≠ [0x80] else o

theorem flatten_trailing_eq_nil {items : List (Option (List UInt8))} (hne : some [] ∉ items) :
    (trailing items).flatten = [] ↔ items.any Option.isSome = false := by
  induction items with
  | nil => simp [trailing]
  | cons o items ih =>
    have ih := ih fun h => hne (List.mem_cons_of_mem _ h)
    cases o with
    | none =>
      have hall : items.all Option.isNone ↔ items.any Option.isSome = false := by simp
      rw [trailing]
      split
      · rename_i h
        simpa using hall.mp h
      · rename_i h
        simpa using mt hall.mpr h
    | some item =>
      have : item ≠ [] := by
        rintro rfl
        exact hne List.mem_cons_self
      simp [trailing, this]

theorem flatten_trailing_cons {α : Type} (item : α → List UInt8) (o : Option α) (items : List (Option (List UInt8))) :
    (trailing (o.map item :: items)).flatten =
      ((told item (items.any Option.isSome) o).map item).getD (if items.any Option.isSome then [0x80] else []) ++
        (trailing items).flatten := by
  have hall : items.all Option.isNone = !items.any Option.isSome := by
    rw [List.not_any_eq_all_not]
    simp
  cases o with
  | none =>
    rw [Option.map_none, trailing, hall]
    cases hany : items.any Option.isSome with
    | false => simp [told, trailing_eq_nil (hall.trans (by rw [hany]; rfl))]
    | true => simp [told]
  | some a =>
    rw [Option.map_some, trailing, List.flatten_cons]
    cases items.any Option.isSome with
    | false => rfl
    | true =>
      by_cases ha : item a = [0x80]
      · simp [told, ha, Option.filter]
      · simp [told, ha, Option.filter]

/-- The bytes of the trailing items are the same exactly if the first values are told the same and the
bytes of the later ones are. -/
theorem flatten_trailing_inj {α : Type} {decode : Decoder α} {item : α → List UInt8}
    (hdecode : ∀ a rest, decode (item a ++ rest) = some (a, rest)) (hne : ∀ a, item a ≠ [])
    (hhead : ∀ a, (item a).head? = some 0x80 → item a = [0x80]) {o o' : Option α}
    {items items' : List (Option (List UInt8))} (hitems : some [] ∉ items) (hitems' : some [] ∉ items') :
    (trailing (o.map item :: items)).flatten = (trailing (o'.map item :: items')).flatten ↔
      told item (items.any Option.isSome) o = told item (items'.any Option.isSome) o' ∧
        (trailing items).flatten = (trailing items').flatten := by
  -- the later bytes say whether a later item is there
  have hlater (h : (trailing items).flatten = (trailing items').flatten) :
      items.any Option.isSome = items'.any Option.isSome := by
    have hitems := flatten_trailing_eq_nil hitems
    rw [h, flatten_trailing_eq_nil hitems', ← Bool.not_eq_true, ← Bool.not_eq_true] at hitems
    exact Bool.eq_iff_iff.mpr (not_iff_not.mp hitems).symm
  constructor
  · intro h
    have hdec := decodeTrailing_trailing hdecode hne hhead o items []
    rw [h, decodeTrailing_trailing hdecode hne hhead o' items' [], List.append_nil, List.append_nil] at hdec
    obtain ⟨hfilter, hrest⟩ := Prod.mk.inj (Option.some_inj.mp hdec)
    refine ⟨?_, hrest.symm⟩
    rw [hlater hrest.symm]
    cases hany : items'.any Option.isSome with
    | true => exact hfilter.symm
    | false =>
      rw [flatten_trailing_cons, flatten_trailing_cons, hlater hrest.symm, hany, hrest, List.append_left_inj] at h
      show o = o'
      cases o with
      | none =>
        cases o' with
        | none => rfl
        | some a' => exact absurd h.symm (hne a')
      | some a =>
        cases o' with
        | none => exact absurd h (hne a)
        | some a' =>
          have h : item a = item a' := h
          have hdec := hdecode a []
          rw [h, hdecode a' []] at hdec
          rw [(Prod.mk.inj (Option.some_inj.mp hdec)).1]
  · rintro ⟨ho, hrest⟩
    rw [flatten_trailing_cons, flatten_trailing_cons, hlater hrest, hrest]
    rw [hlater hrest] at ho
    rw [ho]

end Rlp
