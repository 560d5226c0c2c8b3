import Eth2077.Lib.SortBy
import Eth2077.Prim
import Eth2077.Text
import Mathlib.Algebra.Ring.Rat
import Mathlib.Data.Countable.Basic
import Mathlib.Data.FinEnum
import Mathlib.Logic.Encodable.Pi
import Mathlib.Tactic.DeriveCountable

/-!
# The statistics of the RPC gateway (`types/src/rpc_gateway.rs`)

The snapshot of endpoints and clients is hashed with its rows sorted by all their fields, and the namespaces of a client
sorted without repetitions. So the payload is the endpoints and the clients, less what order and repetition say.
-/

namespace Eth2077
namespace RpcGateway
open SortBy

inductive AuthMethod where
  | apiKey
  | jwtBearer
  | mutualTls
  | noAuth
deriving DecidableEq

inductive RpcNamespace where
  | eth
  | net
  | web3
  | debug
  | admin
  | engine
  | custom
deriving DecidableEq

structure RpcEndpoint where
  path : String
  namespace_ : RpcNamespace
  authRequired : Bool
  rateLimitRps : UInt64
  timeoutMs : UInt64
  cacheTtlSeconds : Option UInt64
  enabled : Bool

structure GatewayClient where
  id : String
  apiKeyHash : B256
  authMethod : AuthMethod
  allowedNamespaces : List RpcNamespace
  rateLimitOverride : Option UInt64
  createdAtUnix : UInt64
  lastRequestUnix : Option UInt64
  totalRequests : UInt64
  blocked : Bool

/-- `F` is `f64`. -/
structure RpcGatewayStats (F : Type) where
  totalEndpoints : UInt64
  totalClients : UInt64
  blockedClients : UInt64
  totalRequests : UInt64
  avgRequestsPerClient : F
  namespacesEnabled : UInt64
  commitment : B256

/-! ### The payload -/

structure CommitmentEndpoint where
  path : String
  namespace_ : UInt8
  authRequired : Bool
  rateLimitRps : UInt64
  timeoutMs : UInt64
  cacheTtlSeconds : Option UInt64
  enabled : Bool

structure CommitmentClient where
  id : String
  apiKeyHash : B256
  authMethod : UInt8
  allowedNamespaces : List UInt8
  rateLimitOverride : Option UInt64
  createdAtUnix : UInt64
  lastRequestUnix : Option UInt64
  totalRequests : UInt64
  blocked : Bool

structure CommitmentPayload where
  domain : String
  totalEndpoints : UInt64
  totalClients : UInt64
  blockedClients : UInt64
  totalRequests : UInt64
  namespacesEnabled : UInt64
  endpoints : List CommitmentEndpoint
  clients : List CommitmentClient

def authMethodRank : AuthMethod → UInt8
  | .apiKey => 0
  | .jwtBearer => 1
  | .mutualTls => 2
  | .noAuth => 3

def namespaceRank : RpcNamespace → UInt8
  | .eth => 0
  | .net => 1
  | .web3 => 2
  | .debug => 3
  | .admin => 4
  | .engine => 5
  | .custom => 6

def sortedNamespaceRanks (namespaces : List RpcNamespace) : List UInt8 :=
  sortDedup compare (namespaces.map namespaceRank)

def commitmentEndpoint (endpoint : RpcEndpoint) : CommitmentEndpoint where
  path := endpoint.path
  namespace_ := namespaceRank endpoint.namespace_
  authRequired := endpoint.authRequired
  rateLimitRps := endpoint.rateLimitRps
  timeoutMs := endpoint.timeoutMs
  cacheTtlSeconds := endpoint.cacheTtlSeconds
  enabled := endpoint.enabled

def commitmentClient (client : GatewayClient) : CommitmentClient where
  id := client.id
  apiKeyHash := client.apiKeyHash
  authMethod := authMethodRank client.authMethod
  allowedNamespaces := sortedNamespaceRanks client.allowedNamespaces
  rateLimitOverride := client.rateLimitOverride
  createdAtUnix := client.createdAtUnix
  lastRequestUnix := client.lastRequestUnix
  totalRequests := client.totalRequests
  blocked := client.blocked

def compareEndpoints : CommitmentEndpoint → CommitmentEndpoint → Ordering :=
  compareLex (compareOn (·.path)) <|
  compareLex (compareOn (·.namespace_)) <|
  compareLex (compareOn (·.authRequired)) <|
  compareLex (compareOn (·.rateLimitRps)) <|
  compareLex (compareOn (·.timeoutMs)) <|
  compareLex (compareOn (·.cacheTtlSeconds)) <|
  compareOn (·.enabled)

/-- Arrays are ordered as the lists of their bytes. -/
def compareClients : CommitmentClient → CommitmentClient → Ordering :=
  compareLex (compareOn (·.id)) <|
  compareLex (compareOn (·.apiKeyHash.toList)) <|
  compareLex (compareOn (·.authMethod)) <|
  compareLex (compareOn (·.allowedNamespaces)) <|
  compareLex (compareOn (·.rateLimitOverride)) <|
  compareLex (compareOn (·.createdAtUnix)) <|
  compareLex (compareOn (·.lastRequestUnix)) <|
  compareLex (compareOn (·.totalRequests)) <|
  compareOn (·.blocked)

def totalRequests (clients : List GatewayClient) : UInt64 :=
  clients.foldl (fun acc client => acc.saturatingAdd client.totalRequests) 0

def namespacesEnabled (endpoints : List RpcEndpoint) : UInt64 :=
  .ofNat ((endpoints.filter (·.enabled)).map fun endpoint => namespaceRank endpoint.namespace_).dedup.length

/-- The payload that `compute_stats_commitment` serialises for the totals of `compute_stats`. -/
def commitmentPayload (endpoints : List RpcEndpoint) (clients : List GatewayClient) : CommitmentPayload where
  domain := "ETH2077-RPC-GATEWAY-STATS-V1"
  totalEndpoints := .ofNat endpoints.length
  totalClients := .ofNat clients.length
  blockedClients := .ofNat (clients.filter (·.blocked)).length
  totalRequests := totalRequests clients
  namespacesEnabled := namespacesEnabled endpoints
  endpoints := sortBy compareEndpoints (endpoints.map commitmentEndpoint)
  clients := sortBy compareClients (clients.map commitmentClient)

/-- `to_vec` is `serde_json`'s, and `as_f64` the conversion to `f64`. -/
def computeStats {F : Type} [Zero F] [Div F] (asF64 : UInt64 → F) (sha256 : List UInt8 → B256)
    (toVec : CommitmentPayload → List UInt8) (endpoints : List RpcEndpoint) (clients : List GatewayClient) :
    RpcGatewayStats F where
  totalEndpoints := .ofNat endpoints.length
  totalClients := .ofNat clients.length
  blockedClients := .ofNat (clients.filter (·.blocked)).length
  totalRequests := totalRequests clients
  avgRequestsPerClient :=
    if clients.length = 0 then 0 else asF64 (totalRequests clients) / asF64 (.ofNat clients.length)
  namespacesEnabled := namespacesEnabled endpoints
  commitment := sha256 (toVec (commitmentPayload endpoints clients))

/-! ### What the payload is -/

instance : Std.TransCmp compareEndpoints :=
  inferInstanceAs (Std.TransCmp (compareLex _ (compareLex _ (compareLex _ (compareLex _ (compareLex _ (compareLex _ _)))))))

instance : Std.TransCmp compareClients :=
  inferInstanceAs (Std.TransCmp (compareLex _ (compareLex _ (compareLex _ (compareLex _ (compareLex _ (compareLex _
    (compareLex _ (compareLex _ _)))))))))

instance : Std.LawfulEqCmp compareEndpoints where
  eq_of_compare {a b} h := by
    simp only [compareEndpoints, compareLex, compareOn, Ordering.then_eq_eq, Std.compare_eq_iff_eq] at h
    obtain ⟨hpath, hnamespace, hauth, hrate, htimeout, hcache, henabled⟩ := h
    cases a
    cases b
    simp_all

instance : Std.LawfulEqCmp compareClients where
  eq_of_compare {a b} h := by
    simp only [compareClients, compareLex, compareOn, Ordering.then_eq_eq, Std.compare_eq_iff_eq] at h
    obtain ⟨hid, hhash, hauth, hnamespaces, hrate, hcreated, hlast, htotal, hblocked⟩ := h
    have hhash := List.Vector.toList_injective hhash
    cases a
    cases b
    simp_all

theorem namespaceRank_injective : Function.Injective namespaceRank := by
  intro a b
  cases a <;> cases b <;> decide

theorem authMethodRank_injective : Function.Injective authMethodRank := by
  intro a b
  cases a <;> cases b <;> decide

theorem commitmentEndpoint_injective : Function.Injective commitmentEndpoint := by
  intro a b h
  simp only [commitmentEndpoint, CommitmentEndpoint.mk.injEq] at h
  obtain ⟨hpath, hnamespace, hauth, hrate, htimeout, hcache, henabled⟩ := h
  have hnamespace := namespaceRank_injective hnamespace
  cases a
  cases b
  simp_all

/-- The same client, up to order and repetition of its namespaces. -/
structure GatewayClient.Same (a b : GatewayClient) : Prop where
  id : a.id = b.id
  apiKeyHash : a.apiKeyHash = b.apiKeyHash
  authMethod : a.authMethod = b.authMethod
  allowedNamespaces : ∀ n, n ∈ a.allowedNamespaces ↔ n ∈ b.allowedNamespaces
  rateLimitOverride : a.rateLimitOverride = b.rateLimitOverride
  createdAtUnix : a.createdAtUnix = b.createdAtUnix
  lastRequestUnix : a.lastRequestUnix = b.lastRequestUnix
  totalRequests : a.totalRequests = b.totalRequests
  blocked : a.blocked = b.blocked

theorem sortedNamespaceRanks_eq_iff {l l' : List RpcNamespace} :
    sortedNamespaceRanks l = sortedNamespaceRanks l' ↔ ∀ n, n ∈ l ↔ n ∈ l' := by
  refine sortDedup_eq_iff.trans ⟨fun h n => ?_, fun h rank => ?_⟩
  · rw [← List.mem_map_of_injective namespaceRank_injective, h, List.mem_map_of_injective namespaceRank_injective]
  · simp only [List.mem_map, h]

theorem commitmentClient_eq_iff {a b : GatewayClient} : commitmentClient a = commitmentClient b ↔ a.Same b := by
  simp only [commitmentClient, CommitmentClient.mk.injEq, sortedNamespaceRanks_eq_iff]
  constructor
  · rintro ⟨hid, hhash, hauth, hnamespaces, hrate, hcreated, hlast, htotal, hblocked⟩
    exact ⟨hid, hhash, authMethodRank_injective hauth, hnamespaces, hrate, hcreated, hlast, htotal, hblocked⟩
  · rintro ⟨hid, hhash, hauth, hnamespaces, hrate, hcreated, hlast, htotal, hblocked⟩
    exact ⟨hid, hhash, congrArg authMethodRank hauth, hnamespaces, hrate, hcreated, hlast, htotal, hblocked⟩

/-- The same endpoints and the same clients, each in any order. -/
def SameGateway (endpoints endpoints' : List RpcEndpoint) (clients clients' : List GatewayClient) : Prop :=
  endpoints.Perm endpoints' ∧ ∃ reordered, clients.Perm reordered ∧ List.Forall₂ GatewayClient.Same reordered clients'

theorem sameGateway_iff {endpoints endpoints' : List RpcEndpoint} {clients clients' : List GatewayClient} :
    SameGateway endpoints endpoints' clients clients' ↔
      (endpoints.map commitmentEndpoint).Perm (endpoints'.map commitmentEndpoint) ∧
        (clients.map commitmentClient).Perm (clients'.map commitmentClient) := by
  rw [List.map_perm_map_iff commitmentEndpoint_injective, perm_map_iff]
  simp only [commitmentClient_eq_iff, SameGateway]

section Totals
variable {endpoints endpoints' : List RpcEndpoint} {clients clients' : List GatewayClient}

theorem blockedClients_congr (h : (clients.map commitmentClient).Perm (clients'.map commitmentClient)) :
    (clients.filter (·.blocked)).length = (clients'.filter (·.blocked)).length := by
  have hblocked := (h.filter (·.blocked)).length_eq
  simpa [List.filter_map, Function.comp_def, commitmentClient] using hblocked

/-- The sum saturates in every order. -/
theorem totalRequests_congr (h : (clients.map commitmentClient).Perm (clients'.map commitmentClient)) :
    totalRequests clients = totalRequests clients' := by
  let add (acc : UInt64) (row : CommitmentClient) := acc.saturatingAdd row.totalRequests
  have hfold : (clients.map commitmentClient).foldl add 0 = (clients'.map commitmentClient).foldl add 0 := by
    refine h.foldl_eq' (fun a _ b _ acc => ?_) 0
    exact acc.saturatingAdd_right_comm a.totalRequests b.totalRequests
  rw [List.foldl_map, List.foldl_map] at hfold
  exact hfold

theorem namespacesEnabled_congr (h : endpoints.Perm endpoints') :
    namespacesEnabled endpoints = namespacesEnabled endpoints' := by
  rw [namespacesEnabled, namespacesEnabled, ((h.filter _).map _).dedup.length_eq]

theorem commitmentPayload_eq_iff : commitmentPayload endpoints clients = commitmentPayload endpoints' clients' ↔
    SameGateway endpoints endpoints' clients clients' := by
  rw [sameGateway_iff]
  constructor
  · intro h
    exact ⟨sortBy_eq_iff.mp (congrArg CommitmentPayload.endpoints h), sortBy_eq_iff.mp (congrArg CommitmentPayload.clients h)⟩
  · rintro ⟨hendpoints, hclients⟩
    have hperm := (List.map_perm_map_iff commitmentEndpoint_injective).mp hendpoints
    have hlen : clients.length = clients'.length := by simpa using hclients.length_eq
    rw [commitmentPayload, commitmentPayload, hperm.length_eq, hlen, blockedClients_congr hclients,
      totalRequests_congr hclients, namespacesEnabled_congr hperm, sortBy_eq_iff.mpr hendpoints,
      sortBy_eq_iff.mpr hclients]

end Totals

/-- The order of the endpoints and the clients, and the order and the repetitions of namespaces, do not reach the
statistics, and everything else reaches the bytes that are hashed. -/
theorem gateway_commitment_canonical {F : Type} [Zero F] [Div F] (asF64 : UInt64 → F) (sha256 : List UInt8 → B256)
    {toVec : CommitmentPayload → List UInt8} (hserialise : Function.Injective toVec)
    (endpoints endpoints' : List RpcEndpoint) (clients clients' : List GatewayClient) :
    (SameGateway endpoints endpoints' clients clients' →
      computeStats asF64 sha256 toVec endpoints clients = computeStats asF64 sha256 toVec endpoints' clients') ∧
    (toVec (commitmentPayload endpoints clients) = toVec (commitmentPayload endpoints' clients') →
      SameGateway endpoints endpoints' clients clients') := by
  refine ⟨fun hsame => ?_, fun hbytes => commitmentPayload_eq_iff.mp (hserialise hbytes)⟩
  have hpayload := commitmentPayload_eq_iff.mpr hsame
  have hlen : clients.length = clients'.length := by
    obtain ⟨-, reordered, hperm, hclients⟩ := hsame
    exact hperm.length_eq.trans hclients.length_eq
  rw [computeStats, computeStats, hpayload, hlen, hsame.1.length_eq, blockedClients_congr (sameGateway_iff.mp hsame).2,
    totalRequests_congr (sameGateway_iff.mp hsame).2, namespacesEnabled_congr hsame.1]

section Serialised

instance countable_char : Countable Char := Function.Injective.countable fun _ _ => Char.ext

instance countable_string : Countable String := Function.Injective.countable fun _ _ => String.toList_inj.mp

deriving instance Countable for CommitmentEndpoint

deriving instance Countable for CommitmentClient

deriving instance Countable for CommitmentPayload

/-- Some injective serialisation writes a payload as given. -/
theorem exists_injective_serialiser (payload : CommitmentPayload) (bytes : List UInt8) :
    ∃ toVec : CommitmentPayload → List UInt8, Function.Injective toVec ∧ toVec payload = bytes := by
  classical
  obtain ⟨code, hcode⟩ := Countable.exists_injective_nat CommitmentPayload
  let other (p : CommitmentPayload) : List UInt8 := List.replicate (bytes.length + 1 + code p) 0
  have hother : ∀ p, other p ≠ bytes := by
    intro p h
    have := congrArg List.length h
    simp only [other, List.length_replicate] at this
    omega
  refine ⟨fun p => if p = payload then bytes else other p, fun p q h => ?_, if_pos rfl⟩
  by_cases hp : p = payload <;> by_cases hq : q = payload
  · rw [hp, hq]
  · exact absurd (h.symm.trans (if_pos hp)) (by simpa [hq] using hother q)
  · exact absurd (h.trans (if_pos hq)) (by simpa [hp] using hother p)
  · have hlen := congrArg List.length h
    simp only [hp, hq, if_false, other, List.length_replicate] at hlen
    exact hcode (by omega)

end Serialised

def clientOf (allowedNamespaces : List RpcNamespace) : GatewayClient where
  id := "indexer"
  apiKeyHash := FixedBytes.zero
  authMethod := .jwtBearer
  allowedNamespaces
  rateLimitOverride := none
  createdAtUnix := 1700000000
  lastRequestUnix := none
  totalRequests := 7
  blocked := false

/-- A client whose namespaces are given in another order, one of them twice. -/
theorem gateway_commitment_namespaces : ∃ toVec : CommitmentPayload → List UInt8, Function.Injective toVec ∧
    toVec (commitmentPayload [] [clientOf [.eth, .net]]) = asBytes
      ("\x7b\"domain\":\"ETH2077-RPC-GATEWAY-STATS-V1\",\"total_endpoints\":0,\"total_clients\":1," ++
        "\"blocked_clients\":0,\"total_requests\":7,\"namespaces_enabled\":0,\"endpoints\":[],\"clients\":[" ++
        "\x7b\"id\":\"indexer\",\"api_key_hash\":[0,0,0,0,0,0,0,0,0,0,0,0,0,0,0,0,0,0,0,0,0,0,0,0,0,0,0,0,0,0,0,0]," ++
        "\"auth_method\":1,\"allowed_namespaces\":[0,1],\"rate_limit_override\":null,\"created_at_unix\":1700000000," ++
        "\"last_request_unix\":null,\"total_requests\":7,\"blocked\":false\x7d]\x7d") ∧
    computeStats (fun n => (n.toNat : ℚ)) (fun _ => FixedBytes.zero) toVec [] [clientOf [.eth, .net]] =
      computeStats (fun n => (n.toNat : ℚ)) (fun _ => FixedBytes.zero) toVec [] [clientOf [.net, .eth, .net]] := by
  obtain ⟨toVec, hinjective, hbytes⟩ := exists_injective_serialiser (commitmentPayload [] [clientOf [.eth, .net]]) _
  refine ⟨toVec, hinjective, hbytes, ?_⟩
  refine (gateway_commitment_canonical _ _ hinjective [] [] _ _).1 ⟨.refl _, _, .refl _, .cons ?_ .nil⟩
  refine ⟨rfl, rfl, rfl, fun n => ?_, rfl, rfl, rfl, rfl, rfl⟩
  cases n <;> decide

end RpcGateway
end Eth2077
