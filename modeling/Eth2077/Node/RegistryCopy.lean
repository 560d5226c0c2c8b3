import Eth2077.Node.RootQueries
import Eth2077.Node.Timeliness

/-!
# Copying the registry of payloads

The node answers a query with a header or an envelope in the form in which it takes a registration, and its texts are
in normal form. So what one node answers can be registered at another: with the envelopes first, which are not refused
while their headers are missing, the second node ends up with the registry of the first (`registry_copies`).
-/

namespace Eth2077
namespace Engine7732

variable {env : EngineEnv} {req : Json} {slot : UInt64} {Db Db' : Type}

/-! ### Records in normal form -/

/-- A text that `party` leaves as it is. -/
def IsParty (text : String) : Prop := (canonicalAddress text).getD text = text

structure CanonicalHeader (header : Engine7732HeaderRecord) : Prop where
  payloadHeaderRoot : IsRoot header.payloadHeaderRoot
  parentBeaconBlockRoot : ∀ root ∈ header.parentBeaconBlockRoot, IsRoot root
  executionBlockHash : ∀ hash ∈ header.executionBlockHash, IsRoot hash
  proposer : ∀ text ∈ header.proposer, IsParty text

structure CanonicalEnvelope (envelope : Engine7732EnvelopeRecord) : Prop where
  payloadHeaderRoot : IsRoot envelope.payloadHeaderRoot
  executionBlockHash : ∀ hash ∈ envelope.executionBlockHash, IsRoot hash
  payloadBodyHash : ∀ hash ∈ envelope.payloadBodyHash, IsRoot hash
  signer : ∀ text ∈ envelope.signer, IsParty text

theorem isRoot_of_normalizeHash32Value {value : Option Json} {root : String}
    (h : root ∈ normalizeHash32Value value) : IsRoot root := by
  obtain ⟨input, -, hnormal⟩ := Option.bind_eq_some_iff.mp h
  exact isRoot_of_normalizeHash32 hnormal

theorem isParty_of_party {value : Option Json} {text : String} (h : text ∈ party value) : IsParty text := by
  obtain ⟨raw, -, rfl⟩ := Option.map_eq_some_iff.mp h
  cases hcanonical : canonicalAddress raw with
  | none => simp [IsParty, hcanonical]
  | some address =>
    obtain ⟨digits, htext, hlen, hdigits⟩ := canonicalAddress_toList hcanonical
    simp [IsParty, canonicalAddress_digits htext hlen hdigits]

theorem canonicalHeader_of_parse {header : Engine7732HeaderRecord}
    (h : parseHeaderRecord env req slot = .ok (.ok header)) : CanonicalHeader header := by
  unfold parseHeaderRecord at h
  split at h
  · cases h
  · dsimp only at h
    split at h
    all_goals
      obtain ⟨bidValueWei, -, h⟩ := except_bind_eq_ok.mp h
      cases h
      exact ⟨isRoot_payloadHeaderRoot _ _ _, fun _ => isRoot_of_normalizeHash32Value,
        fun _ => isRoot_of_normalizeHash32Value, fun _ => isParty_of_party⟩

theorem canonicalEnvelope_of_parse {envelope : Engine7732EnvelopeRecord}
    (h : parseEnvelopeRecord env req slot = .ok envelope) : CanonicalEnvelope envelope := by
  unfold parseEnvelopeRecord at h
  split at h
  · cases h
  · cases h
    exact ⟨isRoot_payloadHeaderRoot _ _ _, fun _ => isRoot_of_normalizeHash32Value,
      fun _ => isRoot_of_normalizeHash32Value, fun _ => isParty_of_party⟩

/-! ### Reading an answer -/

theorem normalizeHash32Value_ofOption {hash : Option String} (h : ∀ root ∈ hash, IsRoot root) :
    normalizeHash32Value (some (.ofOption .string hash)) = hash := by
  cases hash with
  | none => rfl
  | some root => exact (h root rfl).normalizeHash32

theorem party_ofOption {name : Option String} (h : ∀ text ∈ name, IsParty text) :
    party (some (.ofOption .string name)) = name := by
  cases name with
  | none => rfl
  | some text => exact congrArg some (h text rfl)

theorem parseU64Value_hexU64 (n : UInt64) : parseU64Value (hexU64 n) = some n := by
  rw [hexU64, parseU64Value_string, hexOrDecimal_hexNat n.toNat_lt, Option.map_some, UInt64.ofNat_toNat]

theorem parseU256Value_ofOption (value : Option U256) :
    parseU256Value (.ofOption (fun v => .string (hexNat v.toNat)) value) = .ok value := by
  cases value with
  | none => rfl
  | some v =>
    have hhex : parseHexU256 (hexNat v.toNat) = .ok (some (BitVec.ofNat 256 v.toNat)) := by
      rw [parseHexU256_numeral (b := 16) (by decide) (by decide) (by rw [trim_hexNat, strip0x_hexNat])
        (v.isLt.trans_eq (by decide)), Numeral.reread_self]
    show ((parseHexU256 (hexNat v.toNat)).bind _) = _
    rw [hhex]
    simp [Except.bind, pure, Except.pure]

/-- A registration of the header as the node answers it. -/
def headerRequest (header : Json) : Json := .object [("payloadHeader", header)]

def envelopeRequest (envelope : Json) : Json := .object [("payloadEnvelope", envelope)]

/-- A header that is registered as it was answered is the header. -/
theorem parseHeaderRecord_headerToJson {header : Engine7732HeaderRecord} (h : CanonicalHeader header) (env : EngineEnv)
    (slot : UInt64) : parseHeaderRecord env (headerRequest (headerToJson header)) slot = .ok (.ok header) := by
  have hroot : payloadHeaderRoot env (headerToJson header) (headerToJson header) = header.payloadHeaderRoot := by
    have hnamed : payloadHeaderRootFromValue (headerToJson header) = some header.payloadHeaderRoot :=
      h.payloadHeaderRoot.normalizeHash32
    rw [payloadHeaderRoot, hnamed, Option.getD_some]
  have hview : (some (Json.ofOption hexU64 header.viewId)).bind parseU64Value = header.viewId := by
    cases header.viewId with
    | none => rfl
    | some view => exact parseU64Value_hexU64 view
  show (parseU256Value (.ofOption (fun v => .string (hexNat v.toNat)) header.bidValueWei)).bind (fun bidValueWei =>
    Except.ok (Except.ok
      ({ slot := (((some (hexU64 header.slot)).bind parseU64Value).or none).getD slot
         payloadHeaderRoot := payloadHeaderRoot env (headerToJson header) (headerToJson header)
         parentBeaconBlockRoot := normalizeHash32Value (some (.ofOption .string header.parentBeaconBlockRoot))
         executionBlockHash := normalizeHash32Value (some (.ofOption .string header.executionBlockHash))
         proposer := party (some (.ofOption .string header.proposer))
         bidValueWei := bidValueWei
         viewId := (some (Json.ofOption hexU64 header.viewId)).bind parseU64Value
         receivedAtUnixS := ((some (u64Json header.receivedAtUnixS)).bind parseU64Value).getD env.now } :
         Engine7732HeaderRecord))) = _
  rw [parseU256Value_ofOption, hroot, hview, normalizeHash32Value_ofOption h.parentBeaconBlockRoot,
    normalizeHash32Value_ofOption h.executionBlockHash, party_ofOption h.proposer, Option.bind_some, Option.bind_some,
    parseU64Value_hexU64, parseU64Value_u64Json]
  rfl

theorem parseEnvelopeRecord_envelopeToJson {envelope : Engine7732EnvelopeRecord} (h : CanonicalEnvelope envelope)
    (env : EngineEnv) (slot : UInt64) :
    parseEnvelopeRecord env (envelopeRequest (envelopeToJson envelope)) slot = .ok envelope := by
  have hroot : payloadHeaderRoot env (envelopeToJson envelope) (envelopeToJson envelope) =
      envelope.payloadHeaderRoot := by
    have hnamed : payloadHeaderRootFromValue (envelopeToJson envelope) = some envelope.payloadHeaderRoot :=
      h.payloadHeaderRoot.normalizeHash32
    rw [payloadHeaderRoot, hnamed, Option.getD_some]
  show Except.ok (ε := String)
      ({ slot := (((some (hexU64 envelope.slot)).bind parseU64Value).or none).getD slot
         payloadHeaderRoot := payloadHeaderRoot env (envelopeToJson envelope) (envelopeToJson envelope)
         executionBlockHash := normalizeHash32Value (some (.ofOption .string envelope.executionBlockHash))
         payloadBodyHash := normalizeHash32Value (some (.ofOption .string envelope.payloadBodyHash))
         signer := party (some (.ofOption .string envelope.signer))
         dataAvailable := envelope.dataAvailable
         revealedAtUnixS := ((some (u64Json envelope.revealedAtUnixS)).bind parseU64Value).getD env.now } :
        Engine7732EnvelopeRecord) = _
  rw [hroot, normalizeHash32Value_ofOption h.executionBlockHash, normalizeHash32Value_ofOption h.payloadBodyHash,
    party_ofOption h.signer, Option.bind_some, Option.bind_some, parseU64Value_hexU64, parseU64Value_u64Json]
  rfl

/-! ### The records of a registry -/

/-- The records are filed under their own roots and are in normal form. -/
structure CanonicalRegistry (s : NodeState Db) : Prop where
  inv : RegistryInv s
  headers : ∀ r header, s.engine7732HeadersByRoot.lookup r = some header →
    header.payloadHeaderRoot = r ∧ CanonicalHeader header
  envelopes : ∀ r envelope, s.engine7732EnvelopesByRoot.lookup r = some envelope → CanonicalEnvelope envelope

theorem EmptyRegistry.canonical {s : NodeState Db} (h : EmptyRegistry s) : CanonicalRegistry s where
  inv := h.registryInv
  headers r header hlookup := by
    rw [h.2.1] at hlookup
    cases hlookup
  envelopes r envelope hlookup := by
    rw [h.2.2] at hlookup
    cases hlookup

theorem CanonicalRegistry.step {s s' : NodeState Db} {x : EngineEnv × Registration} (hs : CanonicalRegistry s)
    (h : step s x = some s') : CanonicalRegistry s' := by
  refine ⟨registryInv_step hs.inv h, fun r header hlookup => ?_, fun r envelope hlookup => ?_⟩
  · obtain ⟨answer, h⟩ := step_eq_some.mp h
    rcases respond_cases h with ⟨req, header', -, hparse, heq⟩ | ⟨req, envelope, -, -, heq⟩ | ⟨-, rfl⟩
    · have hcases := registerHeader_cases s header'
      rw [heq] at hcases
      rcases hcases with ⟨-, -, -, -, rfl⟩ | ⟨existing, -, -, -, -, rfl⟩ | ⟨-, -, rfl⟩
      · exact hs.headers r header hlookup
      · exact hs.headers r header hlookup
      · by_cases hr : r = header'.payloadHeaderRoot
        · subst hr
          obtain rfl := Option.some_inj.mp ((AList.lookup_insert ..).symm.trans hlookup)
          exact ⟨rfl, canonicalHeader_of_parse hparse⟩
        · exact hs.headers r header ((AList.lookup_insert_ne hr).symm.trans hlookup)
    · have hcases := registerEnvelope_cases s envelope
      rw [heq] at hcases
      rcases hcases with ⟨-, -, rfl⟩ | ⟨-, -, -, rfl⟩
      · exact hs.headers r header hlookup
      · split_ifs at hlookup
        · exact hs.headers r header hlookup
        · exact hs.headers r header hlookup
    · exact hs.headers r header hlookup
  · obtain ⟨answer, h⟩ := step_eq_some.mp h
    rcases respond_effect h with rfl | ⟨-, _, _, rfl⟩ | ⟨-, _, -, rfl⟩ | ⟨-, req, envelope', -, hparse, -, rfl⟩
    · exact hs.envelopes r envelope hlookup
    · exact hs.envelopes r envelope hlookup
    · exact hs.envelopes r envelope hlookup
    · by_cases hr : r = envelope'.payloadHeaderRoot
      · subst hr
        obtain rfl := Option.some_inj.mp ((AList.lookup_insert ..).symm.trans hlookup)
        exact canonicalEnvelope_of_parse hparse
      · exact hs.envelopes r envelope ((AList.lookup_insert_ne hr).symm.trans hlookup)

/-! ### Registering what was answered -/

section Replay
variable {t : NodeState Db'} {copy : List (EngineEnv × Registration)}

/-- An envelope without a header is filed, if nothing else is filed under its root. -/
theorem lookup_registerEnvelope {e : Engine7732EnvelopeRecord}
    (hnone : t.engine7732HeadersByRoot.lookup e.payloadHeaderRoot = none)
    (hsame : ∀ e', t.engine7732EnvelopesByRoot.lookup e.payloadHeaderRoot = some e' → e' = e) (r : String)
    (e' : Engine7732EnvelopeRecord) : (registerEnvelope t e).2.engine7732EnvelopesByRoot.lookup r = some e' ↔
      t.engine7732EnvelopesByRoot.lookup r = some e' ∨ (e' = e ∧ e.payloadHeaderRoot = r) := by
  rcases registerEnvelope_cases t e with ⟨⟨header, hlookup, -⟩ | ⟨existing, hlookup, hconflict⟩, -⟩ | ⟨-, -, -, heq⟩
  · cases hnone.symm.trans hlookup
  · rw [hsame existing hlookup, envelopeConflicts_self] at hconflict
    cases hconflict
  · rw [heq]
    split_ifs with hmem
    · refine ⟨.inl, ?_⟩
      rintro (h | ⟨rfl, rfl⟩)
      · exact h
      · obtain ⟨existing, hlookup⟩ := mem_iff_exists_lookup.mp hmem
        rw [hlookup, hsame existing hlookup]
    · dsimp only
      by_cases hr : r = e.payloadHeaderRoot
      · subst hr
        rw [AList.lookup_insert, AList.lookup_eq_none.mpr hmem]
        simp [eq_comm]
      · rw [AList.lookup_insert_ne hr]
        simp [Ne.symm hr]

/-- Envelopes of a registry are taken while their headers are missing; one that comes twice changes nothing. -/
theorem exec_envelopes (source : String → Option Engine7732EnvelopeRecord) (envelopes : List Engine7732EnvelopeRecord)
    (hcopy : copy.map Prod.snd = envelopes.map fun e => .envelope (envelopeRequest (envelopeToJson e)))
    (hcanonical : ∀ e ∈ envelopes, CanonicalEnvelope e ∧ source e.payloadHeaderRoot = some e)
    (hbare : t.engine7732HeadersByRoot = ∅)
    (ht : ∀ r e, t.engine7732EnvelopesByRoot.lookup r = some e → source r = some e) :
    ∃ t', Run.exec step t copy = some t' ∧ t'.engine7732HeadersBySlot = t.engine7732HeadersBySlot ∧
      t'.engine7732HeadersByRoot = t.engine7732HeadersByRoot ∧
      ∀ r e, t'.engine7732EnvelopesByRoot.lookup r = some e ↔
        t.engine7732EnvelopesByRoot.lookup r = some e ∨ (e ∈ envelopes ∧ e.payloadHeaderRoot = r) := by
  induction envelopes generalizing t copy with
  | nil =>
    obtain rfl := List.map_eq_nil_iff.mp hcopy
    exact ⟨t, rfl, rfl, rfl, by simp⟩
  | cons e envelopes ih =>
    obtain ⟨⟨env, registration⟩, rest, rfl, hx, hrest⟩ := List.map_eq_cons_iff.mp hcopy
    obtain rfl : registration = _ := hx
    obtain ⟨hform, hsource⟩ := hcanonical e List.mem_cons_self
    have hnone : t.engine7732HeadersByRoot.lookup e.payloadHeaderRoot = none := by
      rw [hbare]
      exact AList.lookup_empty _
    have hstep : step t (env, .envelope (envelopeRequest (envelopeToJson e))) = some (registerEnvelope t e).2 := by
      rw [step, respond_envelope (parseEnvelopeRecord_envelopeToJson hform env _)]
      rfl
    have hlookup := lookup_registerEnvelope hnone fun e' h => Option.some_inj.mp ((ht _ e' h).symm.trans hsource)
    have hheaders : (registerEnvelope t e).2.engine7732HeadersByRoot = t.engine7732HeadersByRoot ∧
        (registerEnvelope t e).2.engine7732HeadersBySlot = t.engine7732HeadersBySlot :=
      ⟨by rw [registerEnvelope_snd], by rw [registerEnvelope_snd]⟩
    obtain ⟨t', hexec, hslots, hroots, henvelopes⟩ :=
      ih hrest (fun e' he' => hcanonical e' (List.mem_cons_of_mem _ he')) (hheaders.1.trans hbare) fun r e' h => by
        rcases (hlookup r e').mp h with h | ⟨rfl, rfl⟩
        · exact ht r e' h
        · exact hsource
    refine ⟨t', by rw [Run.exec, hstep]; exact hexec, hslots.trans hheaders.2, hroots.trans hheaders.1, fun r e' => ?_⟩
    rw [henvelopes, hlookup, List.mem_cons]
    constructor
    · rintro ((h | ⟨rfl, hr⟩) | ⟨hmem, hr⟩)
      · exact .inl h
      · exact .inr ⟨.inl rfl, hr⟩
      · exact .inr ⟨.inr hmem, hr⟩
    · rintro (h | ⟨rfl | hmem, hr⟩)
      · exact .inl (.inl h)
      · exact .inl (.inr ⟨rfl, hr⟩)
      · exact .inr ⟨hmem, hr⟩

/-- A header with a new root is filed last in its slot. -/
theorem registerHeader_new {h : Engine7732HeaderRecord} (hinv : RegistryInv t)
    (hnone : t.engine7732HeadersByRoot.lookup h.payloadHeaderRoot = none) :
    (∀ slot, headerRoots (registerHeader t h).2 slot =
        headerRoots t slot ++ if h.slot = slot then [h.payloadHeaderRoot] else []) ∧
      (registerHeader t h).2.engine7732HeadersByRoot =
        AList.insert h.payloadHeaderRoot h t.engine7732HeadersByRoot := by
  rcases registerHeader_cases t h with ⟨_, hlookup, -⟩ | ⟨_, hlookup, -⟩ | ⟨-, -, heq⟩
  · cases hnone.symm.trans hlookup
  · cases hnone.symm.trans hlookup
  · have hfresh : h.payloadHeaderRoot ∉ (t.engine7732HeadersBySlot.lookup h.slot).getD [] := by
      refine List.count_eq_zero.mp (hinv.absent _ h.slot fun header hlookup => ?_)
      cases hnone.symm.trans hlookup
    rw [heq]
    refine ⟨fun slot => ?_, rfl⟩
    simp only [headerRoots, pushRoot, if_neg hfresh]
    by_cases hslot : h.slot = slot
    · subst hslot
      rw [AList.lookup_insert, if_pos rfl]
      rfl
    · rw [AList.lookup_insert_ne (Ne.symm hslot), if_neg hslot, List.append_nil]

/-- Headers with roots that are new to a registry are all filed, in the order they come in. -/
theorem exec_headers (headers : List Engine7732HeaderRecord)
    (hcopy : copy.map Prod.snd = headers.map fun h => .header (headerRequest (headerToJson h)))
    (hcanonical : ∀ h ∈ headers, CanonicalHeader h) (hnodup : (headers.map (·.payloadHeaderRoot)).Nodup)
    (hinv : RegistryInv t) (hnew : ∀ h ∈ headers, t.engine7732HeadersByRoot.lookup h.payloadHeaderRoot = none) :
    ∃ t', Run.exec step t copy = some t' ∧ t'.engine7732EnvelopesByRoot = t.engine7732EnvelopesByRoot ∧
      (∀ slot, headerRoots t' slot =
        headerRoots t slot ++ (headers.filter fun h => h.slot = slot).map (·.payloadHeaderRoot)) ∧
      ∀ r h, t'.engine7732HeadersByRoot.lookup r = some h ↔
        t.engine7732HeadersByRoot.lookup r = some h ∨ (h ∈ headers ∧ h.payloadHeaderRoot = r) := by
  induction headers generalizing t copy with
  | nil =>
    obtain rfl := List.map_eq_nil_iff.mp hcopy
    exact ⟨t, rfl, rfl, by simp, by simp⟩
  | cons h headers ih =>
    obtain ⟨⟨env, registration⟩, rest, rfl, hx, hrest⟩ := List.map_eq_cons_iff.mp hcopy
    obtain rfl : registration = _ := hx
    have hnone := hnew h List.mem_cons_self
    rw [List.map_cons, List.nodup_cons] at hnodup
    have hstep : step t (env, .header (headerRequest (headerToJson h))) = some (registerHeader t h).2 := by
      rw [step, respond_header (parseHeaderRecord_headerToJson (hcanonical h List.mem_cons_self) env _)]
      rfl
    obtain ⟨hroots, hlookup⟩ := registerHeader_new hinv hnone
    obtain ⟨t', hexec, henvelopes, hslots, hheaders⟩ := ih hrest
      (fun h' hh' => hcanonical h' (List.mem_cons_of_mem _ hh')) hnodup.2 (hinv.registerHeader h) fun h' hh' => by
        have hne : h'.payloadHeaderRoot ≠ h.payloadHeaderRoot := fun heq =>
          hnodup.1 (heq ▸ List.mem_map_of_mem hh')
        rw [hlookup, AList.lookup_insert_ne hne]
        exact hnew h' (List.mem_cons_of_mem _ hh')
    refine ⟨t', by rw [Run.exec, hstep]; exact hexec, henvelopes.trans (envelopes_registerHeader t h), fun slot => ?_,
      fun r h' => ?_⟩
    · rw [hslots, hroots, List.filter_cons]
      by_cases hslot : h.slot = slot
      · simp [hslot]
      · simp [hslot]
    · rw [hheaders, hlookup, List.mem_cons]
      by_cases hr : r = h.payloadHeaderRoot
      · subst hr
        rw [AList.lookup_insert, hnone]
        constructor
        · rintro (h' | ⟨hmem, heq⟩)
          · exact .inr ⟨.inl (Option.some_inj.mp h').symm, by rw [Option.some_inj.mp h']⟩
          · exact .inr ⟨.inr hmem, heq⟩
        · rintro (h' | ⟨rfl | hmem, heq⟩)
          · cases h'
          · exact .inl rfl
          · exact .inr ⟨hmem, heq⟩
      · rw [AList.lookup_insert_ne hr]
        refine or_congr_right ?_
        constructor
        · rintro ⟨hmem, heq⟩
          exact ⟨.inr hmem, heq⟩
        · rintro ⟨rfl | hmem, heq⟩
          · exact absurd heq.symm hr
          · exact ⟨hmem, heq⟩

end Replay

/-! ### A registry and its copy -/

/-- A list in an answer. -/
def answered (answer : Json) (key : String) : List Json := ((answer.get key).bind Json.asArray).getD []

/-- What `engine_getPayloadEnvelopesBySlotV1`, asked for orphans too, and `engine_getPayloadHeadersBySlotV1` answer
about some slots, as registrations: the envelopes before the headers. -/
def copyRequests (env : EngineEnv) (s : NodeState Db) (slots : List UInt64) : List Registration :=
  slots.flatMap (fun slot =>
    (answered (envelopesBySlotSnapshot env s true slot) "linkedEnvelopes" ++
      answered (envelopesBySlotSnapshot env s true slot) "orphanEnvelopes").map fun e =>
        .envelope (envelopeRequest e)) ++
  slots.flatMap fun slot => (answered (headersBySlotSnapshot s slot) "headers").map fun h => .header (headerRequest h)

/-- The nodes know the same headers and envelopes, and list the headers of a slot in the same order. -/
def Mirrors (s : NodeState Db) (t : NodeState Db') : Prop :=
  (∀ slot, headerRoots t slot = headerRoots s slot) ∧
    (∀ root, t.engine7732HeadersByRoot.lookup root = s.engine7732HeadersByRoot.lookup root) ∧
    ∀ root, t.engine7732EnvelopesByRoot.lookup root = s.engine7732EnvelopesByRoot.lookup root

section Copy
variable (env : EngineEnv) (s : NodeState Db) (slots : List UInt64)

/-- The envelopes in the answers. -/
def answeredEnvelopes : List Engine7732EnvelopeRecord :=
  slots.flatMap fun slot => (headerRoots s slot).filterMap s.engine7732EnvelopesByRoot.lookup ++
    ((orphanRoots env s slot).mergeSort fun a b => decide (a ≤ b)).filterMap s.engine7732EnvelopesByRoot.lookup

def answeredHeaders : List Engine7732HeaderRecord :=
  slots.flatMap fun slot => (headerRoots s slot).filterMap s.engine7732HeadersByRoot.lookup

theorem copyRequests_eq : copyRequests env s slots =
    (answeredEnvelopes env s slots).map (fun e => .envelope (envelopeRequest (envelopeToJson e))) ++
      (answeredHeaders s slots).map fun h => .header (headerRequest (headerToJson h)) := by
  have henvelopes : ∀ slot, answered (envelopesBySlotSnapshot env s true slot) "linkedEnvelopes" ++
      answered (envelopesBySlotSnapshot env s true slot) "orphanEnvelopes" =
        ((headerRoots s slot).filterMap s.engine7732EnvelopesByRoot.lookup ++
          ((orphanRoots env s slot).mergeSort fun a b => decide (a ≤ b)).filterMap
            s.engine7732EnvelopesByRoot.lookup).map envelopeToJson := by
    intro slot
    rw [List.map_append]
    rfl
  have hheaders : ∀ slot, answered (headersBySlotSnapshot s slot) "headers" =
      ((headerRoots s slot).filterMap s.engine7732HeadersByRoot.lookup).map headerToJson := fun _ => rfl
  simp only [copyRequests, henvelopes, hheaders, answeredEnvelopes, answeredHeaders, List.map_flatMap, List.map_map]
  rfl

variable {env s slots} (hs : CanonicalRegistry s)
include hs

theorem CanonicalRegistry.mem_headerRoots {r : String} {slot : UInt64} : r ∈ headerRoots s slot ↔
    ∃ header, s.engine7732HeadersByRoot.lookup r = some header ∧ header.slot = slot := by
  constructor
  · intro hmem
    by_contra hnone
    have := hs.inv.absent r slot fun header hlookup hslot => hnone ⟨header, hlookup, hslot⟩
    exact List.count_eq_zero.mp this hmem
  · rintro ⟨header, hlookup, rfl⟩
    exact hs.inv.mem_roots hlookup

/-- The headers in the answers are those of the registry. -/
theorem CanonicalRegistry.mem_answeredHeaders
    (hslots : ∀ r header, s.engine7732HeadersByRoot.lookup r = some header → header.slot ∈ slots)
    (header : Engine7732HeaderRecord) : header ∈ answeredHeaders s slots ↔
      ∃ r, s.engine7732HeadersByRoot.lookup r = some header := by
  simp only [answeredHeaders, List.mem_flatMap, List.mem_filterMap]
  constructor
  · rintro ⟨slot, -, r, -, hlookup⟩
    exact ⟨r, hlookup⟩
  · rintro ⟨r, hlookup⟩
    exact ⟨header.slot, hslots r header hlookup, r, hs.inv.mem_roots hlookup, hlookup⟩

/-- Every envelope is answered, with the header of its root or as an orphan. -/
theorem CanonicalRegistry.mem_answeredEnvelopes
    (hslots : ∀ r header, s.engine7732HeadersByRoot.lookup r = some header → header.slot ∈ slots)
    (hslots' : ∀ r envelope, s.engine7732EnvelopesByRoot.lookup r = some envelope → envelope.slot ∈ slots)
    (envelope : Engine7732EnvelopeRecord) : envelope ∈ answeredEnvelopes env s slots ↔
      ∃ r, s.engine7732EnvelopesByRoot.lookup r = some envelope := by
  simp only [answeredEnvelopes, List.mem_flatMap, List.mem_append, List.mem_filterMap, List.mem_mergeSort]
  constructor
  · rintro ⟨slot, -, ⟨r, -, hlookup⟩ | ⟨r, -, hlookup⟩⟩
    · exact ⟨r, hlookup⟩
    · exact ⟨r, hlookup⟩
  · rintro ⟨r, hlookup⟩
    cases hheader : s.engine7732HeadersByRoot.lookup r with
    | some header => exact ⟨header.slot, hslots r header hheader, .inl ⟨r, hs.inv.mem_roots hheader, hlookup⟩⟩
    | none =>
      refine ⟨envelope.slot, hslots' r envelope hlookup, .inr ⟨r, ?_, hlookup⟩⟩
      rw [orphanRoots, List.mem_filter, IterOrder.mem_order, ← AList.mem_keys]
      exact ⟨mem_iff_exists_lookup.mpr ⟨envelope, hlookup⟩, by simp [hlookup, hheader]⟩

theorem CanonicalRegistry.header_of_mem {r : String} {slot : UInt64} (h : r ∈ headerRoots s slot) :
    ∃ header, s.engine7732HeadersByRoot.lookup r = some header ∧ header.slot = slot ∧
      header.payloadHeaderRoot = r := by
  obtain ⟨header, hlookup, hslot⟩ := hs.mem_headerRoots.mp h
  exact ⟨header, hlookup, hslot, (hs.headers r header hlookup).1⟩

/-- The headers of a slot are those of its roots, in the order of these. -/
theorem CanonicalRegistry.map_root (slot : UInt64) :
    ((headerRoots s slot).filterMap s.engine7732HeadersByRoot.lookup).map (·.payloadHeaderRoot) =
      headerRoots s slot := by
  rw [List.map_filterMap]
  calc (headerRoots s slot).filterMap (fun r => (s.engine7732HeadersByRoot.lookup r).map (·.payloadHeaderRoot))
      = (headerRoots s slot).filterMap some := by
        refine List.filterMap_congr fun r hr => ?_
        obtain ⟨header, hlookup, -, hroot⟩ := hs.header_of_mem hr
        rw [hlookup, Option.map_some, hroot]
    _ = headerRoots s slot := List.filterMap_some

theorem CanonicalRegistry.filter_slot (slot slot' : UInt64) :
    ((headerRoots s slot').filterMap s.engine7732HeadersByRoot.lookup).filter (fun h => h.slot = slot) =
      if slot' = slot then (headerRoots s slot').filterMap s.engine7732HeadersByRoot.lookup else [] := by
  have hslot : ∀ h ∈ (headerRoots s slot').filterMap s.engine7732HeadersByRoot.lookup, h.slot = slot' := by
    intro h hmem
    obtain ⟨r, hr, hlookup⟩ := List.mem_filterMap.mp hmem
    obtain ⟨header, hlookup', rfl, -⟩ := hs.header_of_mem hr
    rw [Option.some_inj.mp (hlookup.symm.trans hlookup')]
  split_ifs with heq
  · refine List.filter_eq_self.mpr fun h hmem => ?_
    simp [hslot h hmem, heq]
  · refine List.filter_eq_nil_iff.mpr fun h hmem => ?_
    simp [hslot h hmem, heq]

/-- The roots of one slot in the answers are those of the slot, in their order. -/
theorem CanonicalRegistry.filter_answeredHeaders (hnodup : slots.Nodup)
    (hslots : ∀ r header, s.engine7732HeadersByRoot.lookup r = some header → header.slot ∈ slots) (slot : UInt64) :
    ((answeredHeaders s slots).filter fun h => h.slot = slot).map (·.payloadHeaderRoot) = headerRoots s slot := by
  have hfilter : ∀ slots : List UInt64, slots.Nodup → (answeredHeaders s slots).filter (fun h => h.slot = slot) =
      if slot ∈ slots then (headerRoots s slot).filterMap s.engine7732HeadersByRoot.lookup else [] := by
    intro slots hnodup
    induction slots with
    | nil => rfl
    | cons slot' slots ih =>
      obtain ⟨hfresh, hnodup⟩ := List.nodup_cons.mp hnodup
      have happend : answeredHeaders s (slot' :: slots) =
          (headerRoots s slot').filterMap s.engine7732HeadersByRoot.lookup ++ answeredHeaders s slots := rfl
      rw [happend, List.filter_append, hs.filter_slot, ih hnodup]
      by_cases hslot : slot' = slot
      · subst hslot
        simp [hfresh]
      · simp [hslot, Ne.symm hslot]
  rw [hfilter slots hnodup]
  split_ifs with hmem
  · exact hs.map_root slot
  · refine (List.eq_nil_iff_forall_not_mem.mpr fun r hr => hmem ?_).symm
    obtain ⟨header, hlookup, rfl, -⟩ := hs.header_of_mem hr
    exact hslots r header hlookup

theorem CanonicalRegistry.nodup_headerRoots (slot : UInt64) : (headerRoots s slot).Nodup := by
  refine List.nodup_iff_count_le_one.mpr fun r => ?_
  by_cases hr : r ∈ headerRoots s slot
  · obtain ⟨header, hlookup, rfl, -⟩ := hs.header_of_mem hr
    exact (hs.inv.filed r header hlookup).le
  · rw [List.count_eq_zero.mpr hr]
    exact Nat.zero_le 1

/-- No root is answered twice. -/
theorem CanonicalRegistry.nodup_answeredHeaders (hnodup : slots.Nodup) :
    ((answeredHeaders s slots).map (·.payloadHeaderRoot)).Nodup := by
  have hroots : (answeredHeaders s slots).map (·.payloadHeaderRoot) = slots.flatMap (headerRoots s) := by
    rw [answeredHeaders, List.map_flatMap]
    exact List.flatMap_congr fun slot _ => hs.map_root slot
  rw [hroots, List.nodup_flatMap]
  refine ⟨fun slot _ => hs.nodup_headerRoots slot, hnodup.imp fun {slot slot'} hne r hr hr' => hne ?_⟩
  obtain ⟨header, hlookup, rfl, -⟩ := hs.header_of_mem hr
  obtain ⟨header', hlookup', rfl, -⟩ := hs.header_of_mem hr'
  rw [Option.some_inj.mp (hlookup.symm.trans hlookup')]

end Copy

/-- Registering what a node answers about its slots makes a copy of its registry in a node that has none. -/
theorem registry_copies (env : EngineEnv) (s₀ s : NodeState Db) (t₀ : NodeState Db')
    (run copy : List (EngineEnv × Registration)) (slots : List UInt64) (hs₀ : EmptyRegistry s₀)
    (ht₀ : EmptyRegistry t₀) (hrun : Run.exec step s₀ run = some s)
    (hslots : ∀ r header, s.engine7732HeadersByRoot.lookup r = some header → header.slot ∈ slots)
    (hslots' : ∀ r envelope, s.engine7732EnvelopesByRoot.lookup r = some envelope → envelope.slot ∈ slots)
    (hnodup : slots.Nodup) (hcopy : copy.map Prod.snd = copyRequests env s slots) :
    ∃ t, Run.exec step t₀ copy = some t ∧ Mirrors s t := by
  have hs : CanonicalRegistry s := Run.invariant hs₀.canonical (fun _ _ _ hs h => hs.step h) hrun
  rw [copyRequests_eq] at hcopy
  obtain ⟨copyEnvelopes, copyHeaders, rfl, hcopyEnvelopes, hcopyHeaders⟩ := List.map_eq_append_iff.mp hcopy
  have hnone : ∀ r, t₀.engine7732HeadersByRoot.lookup r = none ∧ t₀.engine7732EnvelopesByRoot.lookup r = none := by
    intro r
    rw [ht₀.2.1, ht₀.2.2]
    exact ⟨AList.lookup_empty r, AList.lookup_empty r⟩
  -- the envelopes come first, so none of them is compared with a header
  obtain ⟨t₁, hexec₁, hslots₁, hheaders₁, henvelopes₁⟩ :=
    exec_envelopes s.engine7732EnvelopesByRoot.lookup (answeredEnvelopes env s slots) hcopyEnvelopes
      (fun e he => by
        obtain ⟨r, hlookup⟩ := (hs.mem_answeredEnvelopes hslots hslots' e).mp he
        exact ⟨hs.envelopes r e hlookup, by rw [hs.inv.envelopes r e hlookup]; exact hlookup⟩)
      ht₀.2.1 (fun r e h => by cases (hnone r).2.symm.trans h)
  have hinv₁ : RegistryInv t₁ := Run.invariant ht₀.registryInv (fun _ _ _ h => registryInv_step h) hexec₁
  obtain ⟨t, hexec, henvelopes, hroots, hheaders⟩ := exec_headers (answeredHeaders s slots) hcopyHeaders
    (fun h hh => by
      obtain ⟨r, hlookup⟩ := (hs.mem_answeredHeaders hslots h).mp hh
      exact (hs.headers r h hlookup).2)
    (hs.nodup_answeredHeaders hnodup) hinv₁ (fun h _ => by rw [hheaders₁]; exact (hnone _).1)
  refine ⟨t, by rw [Run.exec_append, hexec₁]; exact hexec, fun slot => ?_, fun r => ?_, fun r => ?_⟩
  · have hempty : headerRoots t₁ slot = [] := by
      rw [headerRoots, hslots₁, ht₀.1, AList.lookup_empty]
      rfl
    rw [hroots, hempty, List.nil_append]
    exact hs.filter_answeredHeaders hnodup hslots slot
  · refine Option.ext fun h => ?_
    rw [hheaders, hheaders₁, (hnone r).1, hs.mem_answeredHeaders hslots]
    constructor
    · rintro (h | ⟨⟨r', hlookup⟩, rfl⟩)
      · cases h
      · rwa [(hs.headers r' h hlookup).1]
    · intro hlookup
      exact .inr ⟨⟨r, hlookup⟩, (hs.headers r h hlookup).1⟩
  · refine Option.ext fun e => ?_
    rw [henvelopes, henvelopes₁, (hnone r).2, hs.mem_answeredEnvelopes hslots hslots']
    constructor
    · rintro (h | ⟨⟨r', hlookup⟩, rfl⟩)
      · cases h
      · rwa [hs.inv.envelopes r' e hlookup]
    · intro hlookup
      exact .inr ⟨⟨r, hlookup⟩, hs.inv.envelopes r e hlookup⟩

/-- The first node has a header of slot 5 and under its root an envelope of slot 6. -/
theorem registry_copies_other_slot : ∃ s, Run.exec step emptyNode [envelopeOfSlot 6, headerOfSlot 5] = some s ∧
    ∃ t, Run.exec step emptyNode ((copyRequests namedRootEnv s [5, 6]).map (Prod.mk namedRootEnv)) = some t ∧
      Mirrors s t := by
  refine ⟨_, rfl, registry_copies namedRootEnv emptyNode _ emptyNode [envelopeOfSlot 6, headerOfSlot 5] _ [5, 6]
    ⟨rfl, rfl, rfl⟩ ⟨rfl, rfl, rfl⟩ rfl (fun r header h => ?_) (fun r envelope h => ?_) (by decide) ?_⟩
  · by_cases hr : r = someRoot
    · subst hr
      obtain rfl : someHeader 5 = header := Option.some_inj.mp ((by decide : _ = some (someHeader 5)).symm.trans h)
      decide
    · cases (AList.lookup_insert_ne hr).symm.trans h
  · by_cases hr : r = someRoot
    · subst hr
      obtain rfl : someEnvelope 6 = envelope :=
        Option.some_inj.mp ((by decide : _ = some (someEnvelope 6)).symm.trans h)
      decide
    · cases (AList.lookup_insert_ne hr).symm.trans h
  · rw [List.map_map]
    exact List.map_id _

end Engine7732
end Eth2077
