import Eth2077.Prim
import Eth2077.Lib.Framing
import Eth2077.Lib.PrefixCode

/-!
# Wire messages (`p2p/src/codec.rs`)

A message is sent as its JSON after the length of it. The JSON of a single message is a parameter.
-/

namespace Eth2077

namespace P2p

def MAX_MESSAGE_SIZE : ℕ := 16 * 1024 * 1024

inductive WireMessage where
  | hello (peerId chainId bestHeight : UInt64) (bestHash : B256)
  | newBlock (height : UInt64) (blockData : List UInt8)
  | newTransaction (txData : List UInt8)
  | consensusMsg (msgData : List UInt8)
  | getBlocks (fromHeight : UInt64) (count : UInt32)
  | blocks (blocks : List (List UInt8))
  | ping (nonce : UInt64)
  | pong (nonce : UInt64)
deriving DecidableEq

inductive IoError where
  | invalidData (message : String)
deriving DecidableEq

/-- `serde_json::to_vec` and `serde_json::from_slice` of a message. -/
structure MessageJson where
  toVec : WireMessage → Except String (List UInt8)
  fromSlice : List UInt8 → Except String WireMessage

namespace MessageCodec

variable (json : MessageJson)

/-- Returns what came out and what is left in the buffer. -/
def decode (src : List UInt8) : Except IoError (Option WireMessage) × List UInt8 :=
  if src.length < 4 then (.ok none, src)
  else
    let len := ofBe (src.take 4)
    if MAX_MESSAGE_SIZE < len then (.error (.invalidData s!"message too large: {len} bytes"), src)
    else if src.length < 4 + len then (.ok none, src)
    else
      let payload := (src.drop 4).take len
      let src := (src.drop 4).drop len
      match json.fromSlice payload with
      | .error err => (.error (.invalidData s!"invalid message json: {err}"), src)
      | .ok msg => (.ok (some msg), src)

/-- Returns whether the message was written, and the destination buffer. -/
def encode (item : WireMessage) (dst : List UInt8) : Except IoError Unit × List UInt8 :=
  match json.toVec item with
  | .error err => (.error (.invalidData s!"encode failed: {err}"), dst)
  | .ok payload =>
    let len := payload.length
    if MAX_MESSAGE_SIZE < len then (.error (.invalidData s!"message too large: {len} bytes"), dst)
    else (.ok (), dst ++ (beBytes 4 len ++ payload))

variable {json} {src rest dst dst' : List UInt8} {msg : WireMessage}

theorem decode_none (h : decode json src = (.ok none, rest)) : rest = src := by
  unfold decode at h
  split at h
  · exact (Prod.mk.inj h).2.symm
  · dsimp only at h
    split_ifs at h
    · cases h
    · exact (Prod.mk.inj h).2.symm
    · split at h <;> cases h

theorem decode_some (h : decode json src = (.ok (some msg), rest)) : rest.length < src.length := by
  unfold decode at h
  split at h
  · cases h
  · dsimp only at h
    split_ifs at h
    · cases h
    · cases h
    · split at h
      · cases h
      · cases h
        simp only [List.length_drop]
        omega

theorem encode_error {err : IoError} (h : encode json msg dst = (.error err, dst')) : dst' = dst := by
  unfold encode at h
  split at h
  · exact (Prod.mk.inj h).2.symm
  · dsimp only at h
    split_ifs at h
    · exact (Prod.mk.inj h).2.symm
    · cases h

def decoder (json : MessageJson) : StreamDecoder UInt8 WireMessage IoError where
  decode := decode json
  shrinks := decode_some

/-! ### Frames -/

/-- The message has a JSON text of admissible size that reads back as the message. -/
def Sendable (json : MessageJson) (msg : WireMessage) : Prop :=
  ∃ payload, json.toVec msg = .ok payload ∧ payload.length ≤ MAX_MESSAGE_SIZE ∧ json.fromSlice payload = .ok msg

theorem ofBe_length {payload : List UInt8} (h : payload.length ≤ MAX_MESSAGE_SIZE) :
    ofBe (beBytes 4 payload.length) = payload.length := by
  rw [ofBe_beBytes]
  exact Nat.mod_eq_of_lt (lt_of_le_of_lt h (by decide))

theorem frames_encode (h : Sendable json msg) : (decoder json).Frames msg (encode json msg []).2 := by
  obtain ⟨payload, hvec, hlen, hread⟩ := h
  have henc : (encode json msg []).2 = beBytes 4 payload.length ++ payload := by
    simp [encode, hvec, Nat.not_lt.mpr hlen]
  have hof := ofBe_length hlen
  rw [henc]
  constructor
  · intro rest
    have hlength : (beBytes 4 payload.length ++ payload ++ rest).length = 4 + payload.length + rest.length := by
      simp [Nat.add_assoc]
    show decode json (beBytes 4 payload.length ++ payload ++ rest) = (.ok (some msg), rest)
    unfold decode
    rw [if_neg (by omega)]
    simp only [List.append_assoc, List.take_left' (length_beBytes 4 _), List.drop_left' (length_beBytes 4 _), hof]
    rw [if_neg (Nat.not_lt.mpr hlen), if_neg (by rw [← List.append_assoc]; omega), List.take_left, hread, List.drop_left]
  · intro part more hmore hpart
    show decode json part = (.ok none, part)
    unfold decode
    split
    · rfl
    · -- the length is there, some of the payload is not
      rename_i h4
      have htake : part.take 4 = beBytes 4 payload.length := by
        have := congrArg (List.take 4) hpart
        rwa [List.take_append_of_le_length (by omega), List.take_left' (by simp)] at this
      have hshort : part.length < 4 + payload.length := by
        have hlengths := congrArg List.length hpart
        have := List.length_pos_iff.mpr hmore
        simp only [List.length_append, length_beBytes] at hlengths
        omega
      simp [htake, hof, Nat.not_lt.mpr hlen, hshort]

/-- The stream of encoded messages is decoded as it was written, however it is cut into chunks; the
decoder leaves the buffer alone while it waits, and the encoder leaves it alone when it fails. -/
theorem wire_framing_lossless (json : MessageJson) :
    (∀ (msgs : List WireMessage) (chunks : List (List UInt8)), (∀ msg ∈ msgs, Sendable json msg) →
      chunks.flatten = msgs.flatMap (fun msg => (encode json msg []).2) →
      (decoder json).feed [] chunks = (msgs, .ok (), [])) ∧
    (∀ src rest, decode json src = (.ok none, rest) → rest = src) ∧
    (∀ msg dst dst' err, encode json msg dst = (.error err, dst') → dst' = dst) := by
  refine ⟨fun msgs chunks hmsgs h => ?_, fun _ _ => decode_none, fun _ _ _ _ => encode_error⟩
  exact StreamDecoder.feed_frames rfl (fun msg hmsg => frames_encode (hmsgs msg hmsg)) h

/-- The text `{"Ping":{"nonce":7}}`. -/
def pingText : List UInt8 :=
  [0x7b, 0x22, 0x50, 0x69, 0x6e, 0x67, 0x22, 0x3a, 0x7b, 0x22, 0x6e, 0x6f, 0x6e, 0x63, 0x65, 0x22, 0x3a, 0x37, 0x7d, 0x7d]

/-- The JSON of one ping. -/
def pingJson : MessageJson where
  toVec msg := if msg = .ping 7 then .ok pingText else .error "not this ping"
  fromSlice bs := if bs = pingText then .ok (.ping 7) else .error "not this ping"

theorem wire_framing_lossless_pings :
    let frame := (encode pingJson (.ping 7) []).2
    (decoder pingJson).feed [] [frame.take 3, frame.drop 3 ++ frame.take 10, frame.drop 10] =
      ([.ping 7, .ping 7], .ok (), []) := by
  refine (wire_framing_lossless pingJson).1 [.ping 7, .ping 7] _ ?_ ?_
  · intro msg hmsg
    obtain rfl : msg = .ping 7 := by simpa using hmsg
    exact ⟨pingText, by simp [pingJson], by decide, by simp [pingJson]⟩
  · decide

end MessageCodec

end P2p

end Eth2077
