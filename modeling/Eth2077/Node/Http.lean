import Eth2077.Node.Queries

/-!
# Reading a request (`node/src/bin/eth2077-devnetd.rs`, `main` and `request_body_from_http`)

The bytes of a connection come in reads of at most 4096. The loop looks for the blank line that ends the header, takes
the length of the body out of it, and stops when the body is there or after two MiB. Where the header ends and how
long the body is are added as they are, whatever the client wrote.
-/

namespace Eth2077

namespace Http

/-! ### Texts -/

/-- `core::str::utf8_char_width`. -/
def utf8CharWidth (first : UInt8) : ℕ :=
  if first < 0x80 then 1
  else if first < 0xc2 then 0
  else if first < 0xe0 then 2
  else if first < 0xf0 then 3
  else if first < 0xf5 then 4
  else 0

def isContinuation (b : UInt8) : Bool := 0x80 ≤ b && b ≤ 0xbf

/-- The bytes that may come second: neither overlong nor a surrogate nor beyond the last character. -/
def isSecond (first second : UInt8) : Bool :=
  if first = 0xe0 then 0xa0 ≤ second && second ≤ 0xbf
  else if first = 0xed then 0x80 ≤ second && second ≤ 0x9f
  else if first = 0xf0 then 0x90 ≤ second && second ≤ 0xbf
  else if first = 0xf4 then 0x80 ≤ second && second ≤ 0x8f
  else isContinuation second

/-- The bytes after the first that go on with its character. -/
def continuations (first : UInt8) : List UInt8 → List UInt8
  | [] => []
  | second :: rest =>
    if 2 ≤ utf8CharWidth first ∧ isSecond first second then
      second :: (rest.take (utf8CharWidth first - 2)).takeWhile isContinuation
    else []

/-- One character of `String::from_utf8_lossy` and how many bytes it stands for. A character that breaks off is
replaced as a whole. -/
def lossyChar (first : UInt8) (rest : List UInt8) : Char × ℕ :=
  let more := continuations first rest
  if more.length + 1 = utf8CharWidth first then
    let lead := if first < 0x80 then first.toNat else first.toNat % 2 ^ (6 - more.length)
    (Char.ofNat (more.foldl (fun n b => n * 64 + b.toNat % 64) lead), more.length + 1)
  else ('\uFFFD', more.length + 1)

def lossyChars : ℕ → List UInt8 → List Char
  | 0, _ => []
  | _, [] => []
  | fuel + 1, first :: rest =>
    let (c, n) := lossyChar first rest
    c :: lossyChars fuel (rest.drop (n - 1))

/-- The text of some bytes, as its characters. Each takes a byte at least, so there are no more of them than bytes. -/
def fromUtf8Lossy (bytes : List UInt8) : List Char := lossyChars bytes.length bytes

example :
    fromUtf8Lossy [0x41, 0xc3, 0xa9, 0xe2, 0x82, 0xac, 0xf0, 0x9f, 0x98, 0x80, 0xe2, 0x82, 0x41, 0xed, 0xa0, 0xff] =
      "Aé€😀\uFFFDA\uFFFD\uFFFD\uFFFD".toList := by decide

/-- `str::lines`: a line ends with `\n` or `\r\n`, and the last one need not end. -/
def lines (text : List Char) : List (List Char) :=
  let pieces := text.splitOn '\n'
  let ended := pieces.dropLast.map fun line => if line.getLast? = some '\r' then line.dropLast else line
  ended ++ (pieces.getLast?.toList.filter fun line => line ≠ [])

/-! ### The header -/

def findSubslice (haystack needle : List UInt8) : Option ℕ :=
  if needle = [] ∨ haystack.length < needle.length then none
  else
    (List.range (haystack.length - needle.length + 1)).find? fun i => (haystack.drop i).take needle.length = needle

/-- The blank line after the header. -/
def blankLine : List UInt8 := [0x0d, 0x0a, 0x0d, 0x0a]

def headerEnd (reqBytes : List UInt8) : Option ℕ := (findSubslice reqBytes blankLine).map (· + 4)

/-- What the first line that is a `Content-Length` says. -/
def contentLength (header : List UInt8) : Option ℕ :=
  ((lines (fromUtf8Lossy header)).find? fun line =>
      "content-length:".toList.isPrefixOf (line.map Char.toLower)).bind fun line =>
    if ':' ∈ line then fromStrRadix 10 64 (trim (line.dropWhile (· ≠ ':')).tail) else none

/-! ### Reading -/

structure ReadState where
  reqBytes : List UInt8
  headerEnd : Option ℕ
  contentLength : Option ℕ

/-- The most the loop reads, up to the read that takes it there. -/
def maxRequest : ℕ := 2 * 1024 * 1024

variable (overflowChecks : Bool)

/-- One turn of the loop after a read, and whether it was the last. -/
def readTurn (st : ReadState) (chunk : List UInt8) : Except Panic (ReadState × Bool) := do
  let reqBytes := st.reqBytes ++ chunk
  let st : ReadState :=
    match st.headerEnd with
    | some _ => { st with reqBytes }
    | none => ⟨reqBytes, headerEnd reqBytes, (headerEnd reqBytes).bind fun hEnd => contentLength (reqBytes.take hEnd)⟩
  match st.headerEnd with
  | some hEnd =>
    let expected ← checkedOp overflowChecks "add" (hEnd + st.contentLength.getD 0)
    return (st, expected.toNat ≤ reqBytes.length || maxRequest < reqBytes.length)
  | none => return (st, maxRequest < reqBytes.length)

/-- The loop over the reads; one that is empty or fails ends it. -/
def readLoop : ReadState → List (List UInt8) → Except Panic ReadState
  | st, [] => .ok st
  | st, chunk :: chunks => do
    let (st, last) ← readTurn overflowChecks st chunk
    if last then return st else readLoop st chunks

/-- `&bytes[start..stop]`. -/
def slice (bytes : List UInt8) (start stop : ℕ) : Except Panic (List UInt8) :=
  if stop < start then .error ⟨s!"slice index starts at {start} but ends at {stop}"⟩
  else if bytes.length < stop then
    .error ⟨s!"range end index {stop} out of range for slice of length {bytes.length}"⟩
  else .ok ((bytes.drop start).take (stop - start))

def requestBodyFromHttp (st : ReadState) : Except Panic (List Char) :=
  match st.headerEnd with
  | none => .ok []
  | some hEnd => do
    let bodyEnd ← checkedOp overflowChecks "add" (hEnd + st.contentLength.getD 0)
    let body ←
      if bodyEnd.toNat ≤ st.reqBytes.length then slice st.reqBytes hEnd bodyEnd.toNat
      else if hEnd ≤ st.reqBytes.length then slice st.reqBytes hEnd st.reqBytes.length
      else .ok []
    return fromUtf8Lossy body

/-- The body of the request that comes in these reads. -/
def requestBody (chunks : List (List UInt8)) : Except Panic (List Char) := do
  let st ← readLoop overflowChecks ⟨[], none, none⟩ chunks
  requestBodyFromHttp overflowChecks st

/-! ### Finding the blank line -/

section Find
variable {sent seen rest needle : List UInt8} {i h : ℕ}

theorem take_drop_eq_iff (happend : seen ++ rest = sent) (hne : needle ≠ []) :
    (seen.drop i).take needle.length = needle ↔
      (sent.drop i).take needle.length = needle ∧ i + needle.length ≤ seen.length := by
  have hpos : 0 < needle.length := List.length_pos_of_ne_nil hne
  subst happend
  constructor
  · intro h
    have hlen := congrArg List.length h
    rw [List.length_take, List.length_drop] at hlen
    refine ⟨?_, by omega⟩
    rw [List.drop_append_of_le_length (by omega), List.take_append_of_le_length (by rw [List.length_drop]; omega)]
    exact h
  · rintro ⟨h, hle⟩
    rwa [List.drop_append_of_le_length (by omega), List.take_append_of_le_length (by rw [List.length_drop]; omega)] at h

/-- The first place where the needle is. -/
theorem findSubslice_eq_some_iff (hne : needle ≠ []) : findSubslice seen needle = some i ↔
    (seen.drop i).take needle.length = needle ∧ ∀ j < i, (seen.drop j).take needle.length ≠ needle := by
  have hpos : 0 < needle.length := List.length_pos_of_ne_nil hne
  have hfits : ∀ k, (seen.drop k).take needle.length = needle → k + needle.length ≤ seen.length := by
    intro k hk
    have hlen := congrArg List.length hk
    rw [List.length_take, List.length_drop] at hlen
    omega
  unfold findSubslice
  split_ifs with hshort
  · refine iff_of_false nofun fun h => ?_
    have := hfits i h.1
    rcases hshort with hnil | hshort
    · exact hne hnil
    · omega
  · rw [List.find?_range_eq_some]
    simp only [decide_eq_true_eq, List.mem_range, Bool.not_eq_true', decide_eq_false_iff_not]
    constructor
    · exact fun h => ⟨h.1, h.2.2⟩
    · intro h
      have := hfits i h.1
      exact ⟨h.1, by omega, h.2⟩

/-- What is found does not depend on what comes after it. -/
theorem headerEnd_append (happend : seen ++ rest = sent) :
    headerEnd seen = some h ↔ headerEnd sent = some h ∧ h ≤ seen.length := by
  have hne : blankLine ≠ [] := by decide
  have hlen : blankLine.length = 4 := rfl
  simp only [headerEnd, Option.map_eq_some_iff, findSubslice_eq_some_iff hne]
  constructor
  · rintro ⟨i, ⟨hi, hfirst⟩, rfl⟩
    obtain ⟨hsent, hle⟩ := (take_drop_eq_iff happend hne).mp hi
    refine ⟨⟨i, ⟨hsent, fun j hj hfound => hfirst j hj ?_⟩, rfl⟩, hle⟩
    exact (take_drop_eq_iff happend hne).mpr ⟨hfound, by omega⟩
  · rintro ⟨⟨i, ⟨hi, hfirst⟩, rfl⟩, hle⟩
    refine ⟨i, ⟨(take_drop_eq_iff happend hne).mpr ⟨hi, hle⟩, fun j hj hfound => hfirst j hj ?_⟩, rfl⟩
    exact ((take_drop_eq_iff happend hne).mp hfound).1

theorem headerEnd_le (hfound : headerEnd seen = some h) : h ≤ seen.length :=
  ((headerEnd_append (List.append_nil seen)).mp hfound).2

end Find

/-! ### The loop -/

/-- The state of the loop when it has read `seen`, however that came. -/
def stateOf (seen : List UInt8) : ReadState :=
  ⟨seen, headerEnd seen, (headerEnd seen).bind fun hEnd => contentLength (seen.take hEnd)⟩

/-- How long the body is that a header announces; nothing announced is no body. -/
def bodyLength (seen : List UInt8) (hEnd : ℕ) : ℕ := (contentLength (seen.take hEnd)).getD 0

section Loop
variable {sent seen rest chunk : List UInt8} {chunks : List (List UInt8)} {h : ℕ}

theorem bodyLength_append (happend : seen ++ rest = sent) (hle : h ≤ seen.length) :
    bodyLength sent h = bodyLength seen h := by
  rw [bodyLength, bodyLength, ← happend, List.take_append_of_le_length hle]

/-- A turn goes on from one such state to another; the header is looked at once, and that is enough. -/
theorem readTurn_stateOf : readTurn overflowChecks (stateOf seen) chunk =
    match headerEnd (seen ++ chunk) with
    | some hEnd => do
      let expected ← checkedOp overflowChecks "add" (hEnd + bodyLength (seen ++ chunk) hEnd)
      return (stateOf (seen ++ chunk),
        expected.toNat ≤ (seen ++ chunk).length || maxRequest < (seen ++ chunk).length)
    | none => .ok (stateOf (seen ++ chunk), maxRequest < (seen ++ chunk).length) := by
  cases hseen : headerEnd seen with
  | none =>
    have hstate : stateOf seen = ⟨seen, none, none⟩ := by
      rw [stateOf, hseen, Option.bind_none]
    rw [hstate]
    cases hfound : headerEnd (seen ++ chunk) with
    | none => simp only [readTurn, hfound, stateOf, pure, Except.pure]
    | some hEnd => simp only [readTurn, hfound, stateOf, Option.bind_some, bodyLength]
  | some hEnd =>
    obtain ⟨hfound, hle⟩ := (headerEnd_append (Eq.refl (seen ++ chunk))).mp hseen
    have htake : (seen ++ chunk).take hEnd = seen.take hEnd := List.take_append_of_le_length hle
    simp only [readTurn, stateOf, hseen, hfound, Option.bind_some, bodyLength, htake]

/-- Where the header and the length do not overflow, a turn ends the loop at the end of the body or past two MiB. -/
theorem readTurn_ok (hfits : ∀ h, headerEnd (seen ++ chunk) = some h → h + bodyLength (seen ++ chunk) h < 2 ^ 64) :
    ∃ last : Bool, readTurn overflowChecks (stateOf seen) chunk = .ok (stateOf (seen ++ chunk), last) ∧
      (last = true ↔ maxRequest < (seen ++ chunk).length ∨
        ∃ h, headerEnd (seen ++ chunk) = some h ∧ h + bodyLength (seen ++ chunk) h ≤ (seen ++ chunk).length) := by
  rw [readTurn_stateOf]
  cases hfound : headerEnd (seen ++ chunk) with
  | none => exact ⟨_, rfl, by simp⟩
  | some hEnd =>
    have hlt := hfits hEnd hfound
    dsimp only
    rw [checkedOp_of_lt overflowChecks "add" hlt]
    refine ⟨_, rfl, ?_⟩
    rw [UInt64.toNat_ofNat_of_lt' hlt, Bool.or_eq_true, decide_eq_true_eq, decide_eq_true_eq, or_comm]
    simp

/-- No end that the loop can come to overflows. -/
def Fits (sent : List UInt8) : Prop :=
  ∀ h, headerEnd sent = some h → h ≤ maxRequest + 4096 → h + bodyLength sent h < 2 ^ 64

/-- What the loop has read when it stops: all of it, more than two MiB, or the body. -/
def Stopped (seen rest : List UInt8) : Prop :=
  rest = [] ∨ maxRequest < seen.length ∨ ∃ h, headerEnd seen = some h ∧ h + bodyLength seen h ≤ seen.length

theorem Fits.of_append (hfits : Fits sent) (happend : seen ++ rest = sent) (hshort : seen.length ≤ maxRequest + 4096)
    (hfound : headerEnd seen = some h) : h + bodyLength seen h < 2 ^ 64 := by
  obtain ⟨hsent, hle⟩ := (headerEnd_append happend).mp hfound
  rw [← bodyLength_append happend hle]
  exact hfits h hsent (hle.trans hshort)

theorem readLoop_spec (hfits : Fits sent) : ∀ (chunks : List (List UInt8)) (seen : List UInt8),
    (∀ chunk ∈ chunks, chunk.length ≤ 4096) → seen.length ≤ maxRequest → seen ++ chunks.flatten = sent →
    ∃ read rest, read ++ rest = sent ∧ read.length ≤ maxRequest + 4096 ∧ Stopped read rest ∧
      readLoop overflowChecks (stateOf seen) chunks = .ok (stateOf read)
  | [], seen, _, hshort, hsent => ⟨seen, [], by simpa using hsent, hshort.trans (Nat.le_add_right ..), .inl rfl, rfl⟩
  | chunk :: chunks, seen, hreads, hshort, hsent => by
    have happend : (seen ++ chunk) ++ chunks.flatten = sent := by
      rw [← hsent, List.flatten_cons, List.append_assoc]
    have hlen : (seen ++ chunk).length ≤ maxRequest + 4096 := by
      have := hreads chunk (List.mem_cons_self ..)
      rw [List.length_append]
      omega
    obtain ⟨last, hturn, hlast⟩ := readTurn_ok overflowChecks
      fun h => hfits.of_append happend hlen (h := h)
    rw [readLoop, hturn, except_ok_bind]
    cases last with
    | true => exact ⟨seen ++ chunk, chunks.flatten, happend, hlen, .inr (hlast.mp rfl), rfl⟩
    | false =>
      have hgoes : ¬ maxRequest < (seen ++ chunk).length := fun h => nomatch hlast.mpr (.inl h)
      exact readLoop_spec hfits chunks (seen ++ chunk) (fun c hc => hreads c (List.mem_cons_of_mem _ hc))
        (Nat.not_lt.mp hgoes) happend

theorem slice_ok {bytes : List UInt8} {start stop : ℕ} (hstart : start ≤ stop) (hstop : stop ≤ bytes.length) :
    slice bytes start stop = .ok ((bytes.drop start).take (stop - start)) := by
  rw [slice, if_neg (by omega), if_neg (by omega)]

/-- The body of what the loop has read: the bytes after the header, up to its length or to the end. -/
theorem requestBodyFromHttp_stateOf (hfits : ∀ h, headerEnd seen = some h → h + bodyLength seen h < 2 ^ 64) :
    requestBodyFromHttp overflowChecks (stateOf seen) = .ok
      (match headerEnd seen with
      | none => []
      | some h => fromUtf8Lossy ((seen.drop h).take (bodyLength seen h))) := by
  cases hfound : headerEnd seen with
  | none => simp only [requestBodyFromHttp, stateOf, hfound]
  | some h =>
    have hlt := hfits h hfound
    have hle := headerEnd_le hfound
    have hbody : (stateOf seen).contentLength.getD 0 = bodyLength seen h := by
      simp only [stateOf, hfound, Option.bind_some, bodyLength]
    have hend : (UInt64.ofNat (h + bodyLength seen h)).toNat = h + bodyLength seen h := UInt64.toNat_ofNat_of_lt' hlt
    have hstate : (stateOf seen).headerEnd = some h := hfound
    have hbytes : (stateOf seen).reqBytes = seen := rfl
    simp only [requestBodyFromHttp, hstate, hbody, hbytes, checkedOp_of_lt overflowChecks "add" hlt, except_ok_bind,
      hend]
    split_ifs with hall
    · rw [slice_ok (Nat.le_add_right ..) hall, except_ok_bind, Nat.add_sub_cancel_left]
      rfl
    · -- the bytes run out before the body does
      rw [slice_ok hle le_rfl, except_ok_bind, List.take_of_length_le (by rw [List.length_drop]),
        List.take_of_length_le (by rw [List.length_drop]; omega)]
      rfl

end Loop

/-! ### Every way the bytes can come -/

/-- The reads a connection gives these bytes in: none is empty, and none is more than the buffer holds. -/
def Splits (chunks : List (List UInt8)) (sent : List UInt8) : Prop :=
  chunks.flatten = sent ∧ ∀ chunk ∈ chunks, chunk ≠ [] ∧ chunk.length ≤ 4096

/-- There is no panic, and a body that arrives within the first two MiB is taken exactly. -/
def ReadsRight (sent : List UInt8) (body : Except Panic (List Char)) : Prop :=
  (∃ text, body = .ok text) ∧
    ∀ h, headerEnd sent = some h → h + bodyLength sent h ≤ maxRequest → h + bodyLength sent h ≤ sent.length →
      body = .ok (fromUtf8Lossy ((sent.drop h).take (bodyLength sent h)))

section Splits
variable {sent seen rest chunk : List UInt8} {chunks : List (List UInt8)} {h : ℕ}

/-- A body that is sent within the limit is read before the loop stops. -/
theorem Stopped.body_le (hstop : Stopped seen rest) (happend : seen ++ rest = sent) (hfound : headerEnd sent = some h)
    (hlimit : h + bodyLength sent h ≤ maxRequest) (hsent : h + bodyLength sent h ≤ sent.length) :
    h + bodyLength sent h ≤ seen.length := by
  rcases hstop with rfl | hmore | ⟨h', hseen, hle⟩
  · rw [List.append_nil] at happend
    rwa [happend]
  · omega
  · obtain ⟨hsame, hle'⟩ := (headerEnd_append happend).mp hseen
    cases hfound.symm.trans hsame
    rwa [bodyLength_append happend hle']

theorem requestBody_reads (hfits : Fits sent) (hsplits : Splits chunks sent) :
    ReadsRight sent (requestBody overflowChecks chunks) := by
  obtain ⟨read, rest, happend, hlen, hstop, hloop⟩ := readLoop_spec overflowChecks hfits chunks []
    (fun chunk hmem => (hsplits.2 chunk hmem).2) (Nat.zero_le _) (by rw [List.nil_append, hsplits.1])
  have hbody := requestBodyFromHttp_stateOf overflowChecks
    fun h => hfits.of_append happend hlen (h := h)
  have hrequest : requestBody overflowChecks chunks = requestBodyFromHttp overflowChecks (stateOf read) := by
    have hstart : stateOf [] = ⟨[], none, none⟩ := rfl
    rw [requestBody, ← hstart, hloop, except_ok_bind]
  rw [hrequest, hbody]
  refine ⟨⟨_, rfl⟩, fun h hfound hlimit hsent => ?_⟩
  have hle := hstop.body_le happend hfound hlimit hsent
  have hseen : headerEnd read = some h := (headerEnd_append happend).mpr ⟨hfound, by omega⟩
  have hlength := bodyLength_append happend (h := h) (by omega)
  rw [hseen]
  dsimp only
  rw [← hlength, ← happend, List.drop_append_of_le_length (by omega), List.take_append_of_le_length]
  rw [List.length_drop, happend]
  omega

/-- A turn that finds a header whose length overflows. -/
theorem readTurn_overflow (hfound : headerEnd (seen ++ chunk) = some h)
    (hover : 2 ^ 64 ≤ h + bodyLength (seen ++ chunk) h) :
    readTurn true (stateOf seen) chunk = .error ⟨"attempt to add with overflow"⟩ := by
  rw [readTurn_stateOf, hfound]
  dsimp only
  rw [checkedOp, if_pos ⟨rfl, hover⟩]
  rfl

theorem Splits.cons (hsplits : Splits chunks rest) (hread : chunk ≠ [] ∧ chunk.length ≤ 4096)
    (hparts : chunk ++ rest = sent) : Splits (chunk :: chunks) sent := by
  refine ⟨by rw [List.flatten_cons, hsplits.1, hparts], fun c hc => ?_⟩
  rcases List.mem_cons.mp hc with rfl | hc
  · exact hread
  · exact hsplits.2 c hc

/-- Bytes may come one by one. -/
theorem splits_singletons : ∀ bytes : List UInt8, Splits (bytes.map ([·])) bytes
  | [] => ⟨rfl, nofun⟩
  | _ :: bytes => (splits_singletons bytes).cons ⟨nofun, Nat.le_add_left ..⟩ rfl

/-- Read a full buffer at a time, the loop comes to every header that ends up to a buffer past two MiB. -/
theorem exists_reads_panic (hfound : headerEnd sent = some h) (hnear : h ≤ maxRequest + 4096)
    (hover : 2 ^ 64 ≤ h + bodyLength sent h) (happend : seen ++ rest = sent) (hbefore : seen.length < h)
    (hfull : 4096 ∣ seen.length) :
    ∃ chunks, Splits chunks rest ∧
      readLoop true (stateOf seen) chunks = .error ⟨"attempt to add with overflow"⟩ := by
  induction hn : rest.length using Nat.strong_induction_on generalizing seen rest with
  | _ n ih =>
    have hle := headerEnd_le hfound
    have hlength : seen.length + rest.length = sent.length := by rw [← happend, List.length_append]
    have hparts : rest.take 4096 ++ rest.drop 4096 = rest := List.take_append_drop 4096 rest
    have happend' : (seen ++ rest.take 4096) ++ rest.drop 4096 = sent := by rw [List.append_assoc, hparts, happend]
    have htake : (rest.take 4096).length = min 4096 rest.length := List.length_take ..
    have hread : rest.take 4096 ≠ [] ∧ (rest.take 4096).length ≤ 4096 := by
      refine ⟨fun hnil => ?_, by omega⟩
      rw [hnil, List.length_nil] at htake
      omega
    by_cases hcomes : h ≤ (seen ++ rest.take 4096).length
    · -- the blank line ends in this read; how the bytes after it come is all one
      refine ⟨rest.take 4096 :: (rest.drop 4096).map ([·]), (splits_singletons _).cons hread hparts, ?_⟩
      rw [bodyLength_append happend' hcomes] at hover
      rw [readLoop, readTurn_overflow ((headerEnd_append happend').mpr ⟨hfound, hcomes⟩) hover]
      rfl
    · -- the whole buffer was header, so the loop goes on from a multiple of its size
      have hlen : (seen ++ rest.take 4096).length = seen.length + (rest.take 4096).length := List.length_append
      have hfilled : (rest.take 4096).length = 4096 := by omega
      have hlimit : maxRequest = 4096 * 512 := rfl
      obtain ⟨k, hk⟩ := hfull
      obtain ⟨chunks, hsplits, hloop⟩ := ih (rest.drop 4096).length (by rw [List.length_drop]; omega) happend'
        (by omega) (by rw [hlen, hfilled, hk]; exact ⟨k + 1, rfl⟩) rfl
      refine ⟨rest.take 4096 :: chunks, hsplits.cons hread hparts, ?_⟩
      have hnone : headerEnd (seen ++ rest.take 4096) = none := by
        rw [Option.eq_none_iff_forall_ne_some]
        intro h' hseen
        obtain ⟨hsame, hle'⟩ := (headerEnd_append happend').mp hseen
        cases hfound.symm.trans hsame
        exact hcomes hle'
      have hgoes : decide (maxRequest < (seen ++ rest.take 4096).length) = false := by
        rw [decide_eq_false_iff_not]
        omega
      rw [readLoop, readTurn_stateOf, hnone]
      dsimp only
      rw [hgoes, except_ok_bind]
      exact hloop

end Splits

/-- However its bytes are split, a request is read right exactly when no end the loop can come to overflows: the length
that the header announces, added to where the header ends, is below 2⁶⁴, or the header ends too far out to be found. -/
theorem request_reading_iff (sent : List UInt8) :
    (∀ chunks, Splits chunks sent → ∀ overflowChecks, ReadsRight sent (requestBody overflowChecks chunks)) ↔
      ∀ h, headerEnd sent = some h → h ≤ maxRequest + 4096 → h + bodyLength sent h < 2 ^ 64 := by
  constructor
  · intro hreads h hfound hnear
    by_contra hover
    have hpos : 0 < h := by
      obtain ⟨i, -, rfl⟩ := Option.map_eq_some_iff.mp hfound
      exact Nat.succ_pos _
    obtain ⟨chunks, hsplits, hloop⟩ := exists_reads_panic hfound hnear (Nat.not_lt.mp hover) (List.nil_append sent)
      hpos (Nat.dvd_zero 4096)
    obtain ⟨⟨text, hok⟩, -⟩ := hreads chunks hsplits true
    have hstart : stateOf [] = ⟨[], none, none⟩ := rfl
    rw [requestBody, ← hstart, hloop] at hok
    cases hok
  · exact fun hfits chunks hsplits overflowChecks => requestBody_reads overflowChecks hfits hsplits

/-- A request that announces the largest length there is. -/
def hugeLength : List UInt8 :=
  "POST / HTTP/1.1\r\nContent-Length: 18446744073709551615\r\n\r\n\x7b\x7d".toList.map (UInt8.ofNat ·.toNat)

/-- It stops a build that checks its sums in the loop, and any other at the slice. -/
theorem huge_length_panics : Splits [hugeLength] hugeLength ∧
    requestBody true [hugeLength] = .error ⟨"attempt to add with overflow"⟩ ∧
    requestBody false [hugeLength] = .error ⟨"slice index starts at 57 but ends at 56"⟩ ∧
    ¬ ∀ chunks, Splits chunks hugeLength →
      ∀ overflowChecks, ReadsRight hugeLength (requestBody overflowChecks chunks) := by
  have hsplits : Splits [hugeLength] hugeLength := ⟨by decide +kernel, by decide +kernel⟩
  have hpanic : requestBody true [hugeLength] = .error ⟨"attempt to add with overflow"⟩ := by rfl
  refine ⟨hsplits, hpanic, by rfl, fun hreads => ?_⟩
  obtain ⟨⟨text, hok⟩, -⟩ := hreads _ hsplits true
  cases hpanic.symm.trans hok

end Http

end Eth2077
