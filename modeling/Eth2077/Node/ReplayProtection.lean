import Mathlib.Tactic.Ring
import Eth2077.Node.DaemonRuns

/-!
# Transactions of other chains (`node/src/bin/eth2077-devnetd.rs`, `eth_sendRawTransaction`)

A signed transaction commits to a chain: a typed one in its first field, a legacy one in `v` (EIP-155). The decoder
reads the first field of a typed transaction and never looks at `v`, so a legacy transaction is run on any chain.
-/

namespace Eth2077

open Fallible Rpc

/-! ### Numbers -/

theorem toNat_shift_or {out : UInt64} (b : UInt8) (h : out.toNat < 2 ^ 56) :
    ((out <<< 8) ||| b.toUInt64).toNat = out.toNat * 256 + b.toNat := by
  have hb := b.toNat_lt
  rw [UInt64.toNat_or, UInt64.toNat_shiftLeft, UInt8.toNat_toUInt64]
  have hshift : out.toNat <<< ((8 : UInt64).toNat % 64) % 2 ^ 64 = 2 ^ 8 * out.toNat := by
    rw [Nat.shiftLeft_eq, Nat.mod_eq_of_lt]
    · exact Nat.mul_comm _ _
    · show out.toNat * 2 ^ 8 < 2 ^ 64
      omega
  rw [hshift, ← Nat.two_pow_add_eq_or_of_lt hb]
  omega

/-- The bytes are shifted in from the right, so as long as there are no more than eight nothing is lost. -/
theorem toNat_foldl_be (bytes : List UInt8) (out : UInt64) (h : (out.toNat + 1) * 256 ^ bytes.length ≤ 2 ^ 64) :
    (bytes.foldl (fun (out : UInt64) b => (out <<< 8) ||| b.toUInt64) out).toNat =
      out.toNat * 256 ^ bytes.length + ofBe bytes := by
  induction bytes generalizing out with
  | nil => simp [ofBe]
  | cons b bytes ih =>
    have hb := b.toNat_lt
    have hpos : 0 < 256 ^ bytes.length := Nat.pow_pos (by decide)
    rw [List.length_cons, Nat.pow_succ] at h
    have hsmall : out.toNat < 2 ^ 56 := by
      have : (out.toNat + 1) * 256 ≤ 2 ^ 64 :=
        Nat.le_trans (Nat.mul_le_mul_left _ (Nat.le_mul_of_pos_left 256 hpos)) h
      omega
    have hstep := toNat_shift_or b hsmall
    rw [List.foldl_cons, ih, hstep, ofBe, List.length_cons, Nat.pow_succ]
    · ring
    · rw [hstep]
      calc (out.toNat * 256 + b.toNat + 1) * 256 ^ bytes.length
        _ ≤ (out.toNat + 1) * 256 * 256 ^ bytes.length := Nat.mul_le_mul_right _ (by omega)
        _ ≤ 2 ^ 64 := by rwa [Nat.mul_assoc, Nat.mul_comm 256]

theorem toNat_beU64 {bytes : List UInt8} (h : bytes.length ≤ 8) : (beU64 bytes).toNat = ofBe bytes := by
  rw [beU64, toNat_foldl_be]
  · simp
  · rw [UInt64.toNat_zero, Nat.zero_add, Nat.one_mul]
    exact Nat.pow_le_pow_right (by decide) h

namespace RlpCrate
variable (rlp : RlpCrate)

/-! ### What a transaction commits to -/

/-- The chain id the signature covers. -/
def committed : List UInt8 → Option ℕ
  | [] => none
  | first :: payload =>
    if 0xc0 ≤ first then
      -- EIP-155: `v` is twice the chain id, plus 35 or 36
      match rlp.valAt (first :: payload) 6 with
      | .ok v => if 35 ≤ ofBe v then some ((ofBe v - 35) / 2) else none
      | .error _ => none
    else if 1 ≤ first ∧ first ≤ 4 then
      match rlp.valAt payload 0 with
      | .ok id => some (ofBe id)
      | .error _ => none
    else none

/-- The fields of a legacy transaction can be read. -/
def LegacyReads (item : List UInt8) : Prop :=
  rlp.isList item = true ∧ rlp.Numbers item [8, 16, 8] ∧ rlp.HasRecipient item 3 ∧ rlp.Short item 4 32 ∧
    ∃ data, rlp.valAt item 5 = .ok data

variable {rlp} {item payload : List UInt8} {first : UInt8}

theorem succeeds_decodeLegacy (hlist : rlp.isList item = true) :
    Succeeds (rlp.decodeLegacy item) ↔ rlp.LegacyReads item := by
  rw [decodeLegacy, succeeds_bind_const fun _ => succeeds_bind_const fun _ => succeeds_bind_const fun _ =>
    succeeds_bind_const fun _ => succeeds_bind_const fun _ => succeeds_bind_const fun _ =>
      iff_true_intro (succeeds_pure _)]
  simp [LegacyReads, Numbers, hlist, succeeds_rlpU64, succeeds_rlpU128, succeeds_rlpU256, succeeds_rlpBytes,
    succeeds_rlpOptionalAddress, and_assoc]

theorem yields_decodeLegacy : Yields (rlp.decodeLegacy item) fun tx => tx.chainId = none :=
  yields_bind fun _ => yields_bind fun _ => yields_bind fun _ => yields_bind fun _ => yields_bind fun _ =>
    yields_bind fun _ => yields_pure rfl

theorem yields_typed {f : UInt64 → Decode DecodedRawTx} {id : List UInt8} (hid : rlp.valAt item 0 = .ok id)
    (hf : ∀ chainId, Yields (f chainId) fun tx => tx.chainId = some chainId) :
    Yields (rlp.rlpU64 item 0 >>= f) fun tx => tx.chainId.map UInt64.toNat = some (ofBe id) := by
  intro tx htx
  obtain ⟨chainId, hchainId, htx⟩ := returns_bind.mp htx
  obtain ⟨raw, hraw, hlen, rfl⟩ := returns_number.mp hchainId
  obtain rfl := Except.ok.inj (hraw.symm.trans hid)
  rw [hf _ tx htx, Option.map_some, toNat_beU64 hlen]

/-- A typed transaction that can be decoded carries the chain id of its first field. -/
theorem yields_decodeTyped {id : List UInt8} (hid : rlp.valAt payload 0 = .ok id) :
    Yields (rlp.decodeTyped first payload) fun tx => tx.chainId.map UInt64.toNat = some (ofBe id) := by
  refine yields_ite yields_throw (yields_ite ?_ (yields_ite ?_ (yields_ite ?_ (yields_ite ?_ yields_throw))))
  · refine yields_typed hid fun chainId => ?_
    exact yields_bind fun _ => yields_bind fun _ => yields_bind fun _ => yields_bind fun _ => yields_bind fun _ =>
      yields_bind fun _ => yields_pure rfl
  · refine yields_typed hid fun chainId => ?_
    exact yields_bind fun _ => yields_bind fun _ => yields_bind fun _ => yields_bind fun _ => yields_bind fun _ =>
      yields_bind fun _ => yields_bind fun _ => yields_pure rfl
  · refine yields_typed hid fun chainId => ?_
    exact yields_bind fun _ => yields_bind fun _ => yields_bind fun _ => yields_bind fun _ => yields_bind fun _ =>
      yields_bind fun _ => yields_bind fun _ => yields_bind fun _ => yields_ite yields_throw
        (yields_bind fun _ => yields_bind fun _ => yields_pure rfl)
  · refine yields_typed hid fun chainId => ?_
    exact yields_bind fun _ => yields_bind fun _ => yields_bind fun _ => yields_bind fun _ => yields_bind fun _ =>
      yields_ite yields_throw (yields_bind fun _ => yields_bind fun _ => yields_bind fun _ => yields_ite yields_throw
        (yields_bind fun _ => yields_ite yields_throw (yields_pure rfl)))

end RlpCrate

namespace ReplayProtection

/-! ### Refusals -/

section Request
variable (R : Revm) (env : RpcEnv) (node : DaemonState R.Db) (req params : Json)

/-- The bytes of the transaction a request carries. -/
def rawBytes : Option (List UInt8) := parseHexBytes ((strParam params 0).getD "0x")

/-- The request is answered with an error, the transaction is not run, and the node is as it was. -/
def Refused : Prop :=
  (∃ response, prepare R (decoders env) node.toNodeState params .ethSendRawTransaction = .inl response) ∧
    ∃ code message, respond R env node req params (.evm .ethSendRawTransaction) = .ok (.error code message, node)

/-- The sender of the next raw transaction is known. -/
def SenderKnown : Prop := (node.pendingNonceAddressHint.bind addressFromHex).isSome

variable {R env node req params}

theorem exists_error_of_prepare {D : Decoders} {s : NodeState R.Db} {response : Response}
    (h : prepare R D s params .ethSendRawTransaction = .inl response) :
    ∃ code message, response = .error code message := by
  unfold prepare at h
  dsimp only at h
  split at h
  · cases h
    exact ⟨_, _, rfl⟩
  split_ifs at h
  · cases h
    exact ⟨_, _, rfl⟩
  split at h
  · cases h
    exact ⟨_, _, rfl⟩
  split at h
  · cases h
    exact ⟨_, _, rfl⟩
  · cases h

theorem refused_iff : Refused R env node req params ↔
    (∀ bytes, rawBytes params = some bytes → env.rlp.BytesFit bytes) ∧
      ∃ response, prepare R (decoders env) node.toNodeState params .ethSendRawTransaction = .inl response := by
  have hreads : Completes (evmReads env params .ethSendRawTransaction) ↔
      MethodFits R env node req params (.evm .ethSendRawTransaction) := completes_evmReads
  show _ ↔ MethodFits R env node req params (.evm .ethSendRawTransaction) ∧ _
  rw [← hreads]
  constructor
  · rintro ⟨hprepare, code, message, hrespond⟩
    obtain ⟨reads, hreads, -⟩ := except_bind_eq_ok.mp hrespond
    exact ⟨⟨reads, hreads⟩, hprepare⟩
  · rintro ⟨⟨reads, hreads⟩, response, hprepare⟩
    obtain ⟨code, message, rfl⟩ := exists_error_of_prepare hprepare
    refine ⟨⟨_, hprepare⟩, code, message, ?_⟩
    rw [respond, hreads, handleJsonrpc, hprepare]
    rfl

theorem prepare_of_error {err : String}
    (h : (decoders env).decodeRawTx ((strParam params 0).getD "0x") = .error err) :
    ∃ response, prepare R (decoders env) node.toNodeState params .ethSendRawTransaction = .inl response := by
  refine ⟨.error (-32602) ("invalid raw tx: " ++ err), ?_⟩
  rw [strParam] at h
  rw [prepare, h]

/-- A decoded transaction is not run if it carries another chain id, or there is no sender for it. -/
theorem prepare_of_ok {tx : DecodedRawTx} (h : (decoders env).decodeRawTx ((strParam params 0).getD "0x") = .ok tx) :
    (∃ response, prepare R (decoders env) node.toNodeState params .ethSendRawTransaction = .inl response) ↔
      (tx.chainId.any fun id => id ≠ node.chainId) = true ∨ ¬ SenderKnown R node := by
  rw [strParam] at h
  rw [prepare, h]
  dsimp only
  split_ifs with hchain
  · exact iff_of_true ⟨_, rfl⟩ (.inl hchain)
  · rw [or_iff_right hchain, SenderKnown]
    cases node.pendingNonceAddressHint with
    | none => simp
    | some hint =>
      rw [Option.bind_some]
      cases hcaller : addressFromHex hint with
      | none => simp [decoders, hcaller]
      | some caller => simp [decoders, hcaller]

variable {first : UInt8} {payload : List UInt8}

/-- Without a panic the transaction is decoded, or refused with an error. -/
theorem exists_decoded {bytes : List UInt8} (hbytes : rawBytes params = some bytes) (hfits : env.rlp.BytesFit bytes) :
    ∃ decoded, (env.rlp.decodeRawTx ((strParam params 0).getD "0x")).run = .ok decoded ∧
      (decoders env).decodeRawTx ((strParam params 0).getD "0x") = decoded := by
  have hsafe : Safe (env.rlp.decodeRawTx ((strParam params 0).getD "0x")) := by
    refine RlpCrate.safe_decodeRawTx.mpr fun bytes' hbytes' => ?_
    obtain rfl := Option.some_inj.mp (hbytes.symm.trans hbytes')
    exact hfits
  obtain ⟨decoded, hdecoded⟩ := hsafe
  exact ⟨decoded, hdecoded, by simp only [decoders, hdecoded]⟩

theorem decodeRawTx_eq (hbytes : rawBytes params = some (first :: payload)) :
    env.rlp.decodeRawTx ((strParam params 0).getD "0x") =
      if 0xc0 ≤ first then
        if !env.rlp.isList (first :: payload) then throw "legacy transaction is not an RLP list"
        else env.rlp.decodeLegacy (first :: payload)
      else env.rlp.decodeTyped first payload := by
  have hparse : parseHexBytes ((strParam params 0).getD "0x") = some (first :: payload) := hbytes
  rw [RlpCrate.decodeRawTx, hparse]

/-- A legacy transaction is run if it can be read and there is a sender, whatever chain it is for. -/
theorem prepare_legacy (hbytes : rawBytes params = some (first :: payload)) (hlegacy : 0xc0 ≤ first)
    (hfits : env.rlp.BytesFit (first :: payload)) :
    (∃ response, prepare R (decoders env) node.toNodeState params .ethSendRawTransaction = .inl response) ↔
      ¬ (env.rlp.LegacyReads (first :: payload) ∧ SenderKnown R node) := by
  have hreads : env.rlp.LegacyReads (first :: payload) ↔
      Succeeds (env.rlp.decodeRawTx ((strParam params 0).getD "0x")) := by
    rw [decodeRawTx_eq hbytes, if_pos hlegacy]
    cases hlist : env.rlp.isList (first :: payload) with
    | false => exact iff_of_false (fun h => absurd h.1 (by simp [hlist])) (fun ⟨_, h⟩ => nomatch h)
    | true => exact (RlpCrate.succeeds_decodeLegacy hlist).symm
  have hchain : Yields (env.rlp.decodeRawTx ((strParam params 0).getD "0x")) fun tx => tx.chainId = none := by
    rw [decodeRawTx_eq hbytes, if_pos hlegacy]
    exact yields_ite yields_throw RlpCrate.yields_decodeLegacy
  obtain ⟨decoded, hrun, hdecodes⟩ := exists_decoded hbytes hfits
  cases decoded with
  | error err =>
    refine iff_of_true (prepare_of_error hdecodes) fun h => ?_
    obtain ⟨tx, htx⟩ := hreads.mp h.1
    cases hrun.symm.trans htx
  | ok tx =>
    rw [prepare_of_ok hdecodes, hchain tx hrun, not_and]
    simp only [Option.any_none, Bool.false_eq_true, false_or]
    exact ⟨fun h _ => h, fun h => h (hreads.mpr ⟨tx, hrun⟩)⟩

theorem prepare_typed {id : List UInt8} (hbytes : rawBytes params = some (first :: payload)) (htyped : ¬ 0xc0 ≤ first)
    (hid : env.rlp.valAt payload 0 = .ok id) (hother : ofBe id ≠ node.chainId.toNat)
    (hfits : env.rlp.BytesFit (first :: payload)) :
    ∃ response, prepare R (decoders env) node.toNodeState params .ethSendRawTransaction = .inl response := by
  have hchain : Yields (env.rlp.decodeRawTx ((strParam params 0).getD "0x")) fun tx =>
      tx.chainId.map UInt64.toNat = some (ofBe id) := by
    rw [decodeRawTx_eq hbytes, if_neg htyped]
    exact RlpCrate.yields_decodeTyped hid
  obtain ⟨decoded, hrun, hdecodes⟩ := exists_decoded hbytes hfits
  cases decoded with
  | error err => exact prepare_of_error hdecodes
  | ok tx =>
    obtain ⟨chainId, hchainId, heq⟩ := Option.map_eq_some_iff.mp (hchain tx hrun)
    refine (prepare_of_ok hdecodes).mpr (.inl ?_)
    rw [hchainId, Option.any_some, decide_eq_true_eq]
    rintro rfl
    exact hother heq.symm

end Request

/-- The encoding starts with the type of the transaction. -/
def Typed (bytes : List UInt8) : Prop := ∃ first payload, bytes = first :: payload ∧ first < 0xc0

/-- A transaction of another chain is refused if and only if its numbers do not make the node panic, and it is a typed
one, or a legacy one that would not be run whatever its chain. -/
theorem replay_refused_iff (R : Revm) (env : RpcEnv) (node : DaemonState R.Db) (req params : Json)
    {bytes : List UInt8} {id : ℕ} (hbytes : rawBytes params = some bytes) (hid : env.rlp.committed bytes = some id)
    (hother : id ≠ node.chainId.toNat) :
    Refused R env node req params ↔
      env.rlp.BytesFit bytes ∧ (Typed bytes ∨ ¬ (env.rlp.LegacyReads bytes ∧ SenderKnown R node)) := by
  rw [refused_iff, hbytes]
  simp only [Option.some_inj, forall_eq']
  refine and_congr_right fun hfits => ?_
  obtain _ | ⟨first, payload⟩ := bytes
  · cases hid
  by_cases hlegacy : 0xc0 ≤ first
  · have hnot : ¬ Typed (first :: payload) := by
      rintro ⟨first', payload', heq, hlt⟩
      obtain ⟨rfl, -⟩ := List.cons.inj heq
      exact UInt8.not_lt.mpr hlegacy hlt
    rw [prepare_legacy hbytes hlegacy hfits, or_iff_right hnot]
  · refine iff_of_true ?_ (.inl ⟨first, payload, rfl, UInt8.not_le.mp hlegacy⟩)
    rw [RlpCrate.committed, if_neg hlegacy] at hid
    split_ifs at hid
    split at hid
    · rename_i idBytes hfield
      obtain rfl := Option.some_inj.mp hid
      exact prepare_typed hbytes hlegacy hfield hother hfits
    · cases hid

/-- The node after it was asked for the nonce of `poorSender`. -/
def askedNode : DaemonState Inclusion.transfersOnly.Db :=
  { Daemon.startedNode Inclusion.transfersOnly with
    toNodeState := { buildState Inclusion.transfersOnly 2077001 1772409600 with
      pendingNonceAddressHint := some poorSender } }

/-- A transfer of type 2 for chain 1. -/
def typedTx : Json := .array [.string "0x02e2018080808252089433333333333333333333333333333333333333338080c0800101"]

/-- A legacy transfer for chain 1: `v` is 37. -/
def legacyTx : Json := .array [.string "0xdf80808252089433333333333333333333333333333333333333338080250101"]

def legacyEnv : RpcEnv :=
  { Daemon.walletEnv with
    engine := { Engine7732.namedRootEnv with
      keccak256 := fun _ => .ofNat 32 0x8f7df525c0bdf551ec5e0a918e27cf778cd7fe661cb142a8bf0fbba539a8f9a2 } }

theorem typed_replay_refused : Refused Inclusion.transfersOnly Daemon.walletEnv askedNode .null typedTx := by
  have hsafe : Safe (RlpCrate.shortLists.decodeRawTx ((strParam typedTx 0).getD "0x")) := ⟨_, rfl⟩
  have hfits := RlpCrate.safe_decodeRawTx.mp hsafe _ rfl
  exact (replay_refused_iff Inclusion.transfersOnly Daemon.walletEnv askedNode .null typedTx rfl
    (show RlpCrate.shortLists.committed _ = some 1 from rfl) (by decide)).mpr ⟨hfits, .inl ⟨_, _, rfl, by decide⟩⟩

/-- The legacy transfer is run, although it is for chain 1 and the node for chain 2077001. -/
theorem legacy_replay_run :
    (rawBytes legacyTx).bind legacyEnv.rlp.committed = some 1 ∧ askedNode.chainId = 2077001 ∧
    (∃ hash node', respond Inclusion.transfersOnly legacyEnv askedNode .null legacyTx (.evm .ethSendRawTransaction) =
      .ok (.result (.string hash), node') ∧ node'.pendingTxs = [hash]) ∧
    ¬ Refused Inclusion.transfersOnly legacyEnv askedNode .null legacyTx := by
  refine ⟨rfl, rfl, ⟨_, _, rfl, rfl⟩, ?_⟩
  rintro ⟨-, code, message, hrespond⟩
  cases hrespond

end ReplayProtection

end Eth2077
