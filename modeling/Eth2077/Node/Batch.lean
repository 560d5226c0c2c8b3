import Eth2077.Node.DaemonRuns

/-!
# Batches of requests (`node/src/bin/eth2077-devnetd.rs`, `handle_jsonrpc_payload`)

The body of `POST /` is a request or an array of them, which the node handles under one lock. A batch is the run of its
requests: each is answered as it would be alone after those before it, in their order, and only those that have an id
are (`batch_is_run`).
-/

namespace Eth2077
namespace Rpc

/-! ### The payload of a request -/

/-- The answer to what is no request. -/
def invalidRequest : Json := toJson .null (.error (-32600) "invalid request")

section Payload
variable (R : Revm)

/-- One turn of the loop: a request without an id is handled and not answered. -/
def handleEntry (node : DaemonState R.Db) (x : RpcEnv × Json) : Except Panic (Option Json × DaemonState R.Db) :=
  match x.2.asObject with
  | none => .ok (some invalidRequest, node)
  | some _ => do
    let (resp, node) ← handleJsonrpc R x.1 node x.2
    return (if (x.2.get "id").isSome then some resp else none, node)

def handleBatch (node : DaemonState R.Db) (responses : List Json) :
    List (RpcEnv × Json) → Except Panic (List Json × DaemonState R.Db)
  | [] => .ok (responses, node)
  | x :: batch => do
    let (resp, node) ← handleEntry R node x
    handleBatch node (responses ++ resp.toList) batch

/-- The requests of a payload, each with the clock and the outside functions as they are when it is handled. -/
def timed (clock : ℕ → RpcEnv) (batch : List Json) : List (RpcEnv × Json) := batch.mapIdx fun i req => (clock i, req)

def handleJsonrpcPayload (clock : ℕ → RpcEnv) (node : DaemonState R.Db) (payload : Json) :
    Except Panic (Option Json × DaemonState R.Db) :=
  match payload.asArray with
  | none => handleEntry R node (clock 0, payload)
  | some batch =>
    if batch.isEmpty then .ok (some invalidRequest, node)
    else do
      let (responses, node) ← handleBatch R node [] (timed clock batch)
      return (if responses.isEmpty then none else some (.array responses), node)

end Payload

/-! ### A batch and its requests -/

/-- The entries that get an answer. -/
def IsAnswered (req : Json) : Bool := req.asObject.isNone || (req.get "id").isSome

/-- The id in the answer. -/
def answerId (req : Json) : Json := (req.get "id").getD .null

/-- The requests of a batch, as events of the node. -/
def batchRun (batch : List (RpcEnv × Json)) : List Daemon.Event :=
  batch.filterMap fun x => x.2.asObject.map fun _ => .rpc x.1 x.2

/-- The answers to a batch. -/
def answersOf (answer : Option Json) : List Json := (answer.bind Json.asArray).getD []

theorem answersOf_ite (answers : List Json) :
    answersOf (if answers.isEmpty then none else some (.array answers)) = answers := by
  cases answers with
  | nil => rfl
  | cons answer answers => rfl

theorem get_of_not_object {req : Json} (h : req.asObject = none) (key : String) : req.get key = none := by
  rw [Json.get, h, Option.bind_none]

theorem isObject_of_get {req : Json} {key : String} (h : (req.get key).isSome) : req.asObject.isSome := by
  cases hobject : req.asObject with
  | none => simp [get_of_not_object hobject] at h
  | some fields => rfl

theorem get_id_toJson (id : Json) (response : Response) : (toJson id response).get "id" = some id := by
  cases response with
  | result value => rfl
  | error code message => rfl

section Batch
variable {R : Revm} {node node' m : DaemonState R.Db} {x : RpcEnv × Json} {resp : Option Json}
  {responses answers : List Json} {batch batch' pre post : List (RpcEnv × Json)}

/-- The answer to a request carries its id. -/
theorem get_id_handleJsonrpc {env : RpcEnv} {req answer : Json}
    (h : handleJsonrpc R env node req = .ok (answer, node')) : answer.get "id" = some (answerId req) := by
  rw [handleJsonrpc] at h
  dsimp only at h
  split at h
  · cases h
    exact get_id_toJson _ _
  · obtain ⟨⟨response, node''⟩, -, h⟩ := except_bind_eq_ok.mp h
    cases h
    exact get_id_toJson _ _

theorem handleEntry_of_not_object (h : x.2.asObject = none) :
    handleEntry R node x = .ok (some invalidRequest, node) := by
  rw [handleEntry, h]

theorem handleEntry_eq_ok (hobject : x.2.asObject.isSome) : handleEntry R node x = .ok (resp, node') ↔
    ∃ answer, handleJsonrpc R x.1 node x.2 = .ok (answer, node') ∧
      resp = if (x.2.get "id").isSome then some answer else none := by
  obtain ⟨fields, hfields⟩ := Option.isSome_iff_exists.mp hobject
  rw [handleEntry, hfields]
  show (handleJsonrpc R x.1 node x.2 >>= _) = _ ↔ _
  rw [except_bind_eq_ok]
  constructor
  · rintro ⟨⟨answer, node''⟩, hanswer, h⟩
    cases h
    exact ⟨answer, hanswer, rfl⟩
  · rintro ⟨answer, hanswer, rfl⟩
    exact ⟨(answer, node'), hanswer, rfl⟩

/-- An entry is a step of the node, or nothing. -/
theorem exec_handleEntry (node : DaemonState R.Db) (x : RpcEnv × Json) :
    (handleEntry R node x).toOption.map Prod.snd = Run.exec (Daemon.step R) node (batchRun [x]) := by
  cases hobject : x.2.asObject with
  | none =>
    rw [handleEntry_of_not_object hobject, batchRun, List.filterMap_cons_none (by rw [hobject]; rfl)]
    rfl
  | some fields =>
    have hrun : batchRun [x] = [.rpc x.1 x.2] := by simp [batchRun, hobject]
    rw [handleEntry, hobject, hrun, Run.exec, Daemon.step]
    cases handleJsonrpc R x.1 node x.2 with
    | error panic => rfl
    | ok r => rfl

theorem batchRun_append : batchRun (batch ++ batch') = batchRun batch ++ batchRun batch' := List.filterMap_append

theorem handleBatch_append : handleBatch R node responses (batch ++ batch') =
    handleBatch R node responses batch >>= fun r => handleBatch R r.2 r.1 batch' := by
  induction batch generalizing node responses with
  | nil => rfl
  | cons x batch ih =>
    show (handleEntry R node x >>= _) = (handleEntry R node x >>= _) >>= _
    rw [bind_assoc]
    exact congrArg _ (funext fun r => ih)

theorem exec_handleBatch : (handleBatch R node responses batch).toOption.map Prod.snd =
    Run.exec (Daemon.step R) node (batchRun batch) := by
  induction batch generalizing node responses with
  | nil => rfl
  | cons x batch ih =>
    rw [← List.singleton_append, batchRun_append, Run.exec_append, ← exec_handleEntry]
    show (handleEntry R node x >>= _).toOption.map Prod.snd = _
    cases handleEntry R node x with
    | error panic => rfl
    | ok r => exact ih

/-- An entry is answered or not, as it is told to be. -/
theorem handleEntry_id (h : handleEntry R node x = .ok (resp, node')) :
    resp.toList.map (·.get "id") = if IsAnswered x.2 then [some (answerId x.2)] else [] := by
  cases hobject : x.2.asObject with
  | none =>
    rw [handleEntry_of_not_object hobject] at h
    cases h
    simp [IsAnswered, hobject, answerId, get_of_not_object hobject, invalidRequest, get_id_toJson]
  | some fields =>
    obtain ⟨answer, hanswer, rfl⟩ := (handleEntry_eq_ok (by rw [hobject]; rfl)).mp h
    have hid := get_id_handleJsonrpc hanswer
    by_cases hasId : (x.2.get "id").isSome
    · simp [IsAnswered, hasId, hid]
    · simp [IsAnswered, hasId, hobject]

/-- The answers come in the order of the entries. -/
theorem handleBatch_ids (h : handleBatch R node responses batch = .ok (answers, node')) :
    ∃ new, answers = responses ++ new ∧
      new.map (·.get "id") = ((batch.map Prod.snd).filter IsAnswered).map fun req => some (answerId req) := by
  induction batch generalizing node responses with
  | nil =>
    cases h
    exact ⟨[], by simp, rfl⟩
  | cons x batch ih =>
    obtain ⟨⟨resp, m⟩, hentry, h⟩ := except_bind_eq_ok.mp h
    obtain ⟨new, hanswers, hids⟩ := ih h
    refine ⟨resp.toList ++ new, by rw [hanswers, List.append_assoc], ?_⟩
    rw [List.map_append, handleEntry_id hentry, hids, List.map_cons, List.filter_cons]
    split_ifs with hanswered
    · rfl
    · rfl

/-- What an entry of the batch is answered, and where its answer stands. -/
theorem handleBatch_answer (h : handleBatch R node [] (pre ++ x :: post) = .ok (answers, node')) :
    ∃ m resp m', Run.exec (Daemon.step R) node (batchRun pre) = some m ∧ handleEntry R m x = .ok (resp, m') ∧
      ∀ answer ∈ resp, answers[((pre.map Prod.snd).filter IsAnswered).length]? = some answer := by
  rw [handleBatch_append] at h
  obtain ⟨⟨before, m⟩, hpre, h⟩ := except_bind_eq_ok.mp h
  obtain ⟨⟨resp, m'⟩, hentry, h⟩ := except_bind_eq_ok.mp h
  obtain ⟨new, hnew, hids⟩ := handleBatch_ids hpre
  obtain rfl : before = new := hnew
  obtain ⟨after, rfl, -⟩ := handleBatch_ids h
  have hlen : before.length = ((pre.map Prod.snd).filter IsAnswered).length := by
    simpa using congrArg List.length hids
  refine ⟨m, resp, m', by rw [← exec_handleBatch, hpre]; rfl, hentry, ?_⟩
  rintro answer hanswer
  obtain rfl : resp = some answer := hanswer
  rw [← hlen]
  simp [List.append_assoc]

theorem map_snd_timed (clock : ℕ → RpcEnv) (batch : List Json) : (timed clock batch).map Prod.snd = batch := by
  refine List.ext_getElem (by simp [timed]) fun i h h' => ?_
  simp [timed]

end Batch

/-- A batch of requests is the run of its requests. It brings the node where they would have brought it one by one, and
does not return if one of them is a panic. The answers are in order, one to each entry with an id or that is no request
at all, and each is the one the entry would have got alone after those before it; when there is none, neither is there
an array. -/
theorem batch_is_run (R : Revm) (clock : ℕ → RpcEnv) (node : DaemonState R.Db) (batch : List Json) :
    (handleJsonrpcPayload R clock node (.array batch)).toOption.map Prod.snd =
        Run.exec (Daemon.step R) node (batchRun (timed clock batch)) ∧
      ∀ answer node', handleJsonrpcPayload R clock node (.array batch) = .ok (answer, node') →
        (answersOf answer).map (·.get "id") = (batch.filter IsAnswered).map (fun req => some (answerId req)) ∧
        (answer = none ↔ batch ≠ [] ∧ ∀ req ∈ batch, ¬ IsAnswered req) ∧
        ∀ pre env req post, timed clock batch = pre ++ (env, req) :: post →
          ∃ m, Run.exec (Daemon.step R) node (batchRun pre) = some m ∧
            (req.asObject = none →
              (answersOf answer)[((pre.map Prod.snd).filter IsAnswered).length]? = some invalidRequest) ∧
            ((req.get "id").isSome → ∃ r m', handleJsonrpc R env m req = .ok (r, m') ∧
              (answersOf answer)[((pre.map Prod.snd).filter IsAnswered).length]? = some r) := by
  cases batch with
  | nil =>
    refine ⟨rfl, fun answer node' h => ?_⟩
    cases h
    refine ⟨rfl, by simp, fun pre env req post h => ?_⟩
    simp [timed] at h
  | cons req batch =>
    have hpayload : handleJsonrpcPayload R clock node (.array (req :: batch)) =
        handleBatch R node [] (timed clock (req :: batch)) >>= fun r =>
          .ok (if r.1.isEmpty then none else some (.array r.1), r.2) := rfl
    rw [hpayload, ← exec_handleBatch]
    refine ⟨by cases handleBatch R node [] (timed clock (req :: batch)) <;> rfl, fun answer node' h => ?_⟩
    obtain ⟨⟨answers, node''⟩, hbatch, h⟩ := except_bind_eq_ok.mp h
    obtain ⟨rfl, rfl⟩ := Prod.mk.inj (Except.ok.inj h)
    obtain ⟨new, hnew, hids⟩ := handleBatch_ids hbatch
    obtain rfl : answers = new := hnew
    rw [map_snd_timed] at hids
    refine ⟨by rw [answersOf_ite, hids], ?_, fun pre env entry post hsplit => ?_⟩
    · have hempty : answers = [] ↔ ∀ entry ∈ req :: batch, ¬ IsAnswered entry := by
        rw [← List.map_eq_nil_iff (f := (·.get "id")), hids, List.map_eq_nil_iff, List.filter_eq_nil_iff]
      have hnone : (if answers.isEmpty then none else some (Json.array answers)) = none ↔ answers = [] := by
        cases answers <;> simp
      exact hnone.trans (hempty.trans (and_iff_right (List.cons_ne_nil req batch)).symm)
    · rw [hsplit] at hbatch
      obtain ⟨m, resp, m', hrun, hentry, hplace⟩ := handleBatch_answer hbatch
      rw [answersOf_ite]
      refine ⟨m, hrun, fun hobject => ?_, fun hasId => ?_⟩
      · rw [handleEntry_of_not_object hobject] at hentry
        cases hentry
        exact hplace _ rfl
      · obtain ⟨r, hr, rfl⟩ := (handleEntry_eq_ok (isObject_of_get hasId)).mp hentry
        exact ⟨r, m', hr, hplace r (by simp [hasId])⟩

/-- A request with an id, what is no request, and a request without an id. -/
example : (handleJsonrpcPayload accountsOnly (fun _ => Daemon.walletEnv) (Daemon.startedNode accountsOnly)
    (.array [.object [("id", .number 1), ("method", .string "eth_blockNumber")], .number 5,
      .object [("method", .string "eth_chainId")]])).toOption.map (fun r => (answersOf r.1).map (·.get "id")) =
        some [some (.number 1), some .null] := by rfl

end Rpc
end Eth2077
