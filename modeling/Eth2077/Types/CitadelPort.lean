import Eth2077.Lib.DepthFirst
import Eth2077.Lib.Seen
import Mathlib.Algebra.GroupWithZero.Nat
import Mathlib.Data.List.FinRange

/-!
# The port of modules (`types/src/citadel_port.rs`)

A plan lists migrations of modules with the modules each depends on, and may not have a cycle of dependencies. The search
for one goes over the entries of the plan and takes a dependency to the first entry of its module. So it sees the cycles
that are left when every module keeps its first entry only.
-/

namespace Eth2077
namespace CitadelPort
open DepthFirst

inductive CitadelModule where
  | voteAccumulator
  | forkChoice
  | finalization
  | slashingDetector
  | attestationPool
  | committeeShuffler
  | blockProduction
  | stateTransition
  | epochProcessing
  | syncProtocol
deriving DecidableEq

/-- `{:?}`. -/
def CitadelModule.debug : CitadelModule → String
  | voteAccumulator => "VoteAccumulator"
  | forkChoice => "ForkChoice"
  | finalization => "Finalization"
  | slashingDetector => "SlashingDetector"
  | attestationPool => "AttestationPool"
  | committeeShuffler => "CommitteeShuffler"
  | blockProduction => "BlockProduction"
  | stateTransition => "StateTransition"
  | epochProcessing => "EpochProcessing"
  | syncProtocol => "SyncProtocol"

inductive ProofStatus where
  | notStarted
  | sketched
  | partialProof
  | fullProofDraft
  | fullProofReviewed
  | machineChecked
  | rejected
deriving DecidableEq

structure PlaceholderEntry where
  location : String
  severity : UInt8
deriving DecidableEq

structure ModuleMigration where
  module : CitadelModule
  placeholders : List PlaceholderEntry
  proofStatus : ProofStatus
  dependencies : List CitadelModule
deriving DecidableEq

structure CitadelPortConfig where
  migrations : List ModuleMigration
  maxAllowedPlaceholders : UInt64
  requireMachineChecked : Bool
  maxSeverityAllowed : UInt8

inductive CitadelPortValidationError where
  | emptyMigrations
  | tooManyPlaceholders (count : ℕ) (max : UInt64)
  | highSeverityPlaceholder (location : String) (severity : UInt8)
  | cyclicDependency (modules : List String)
  | proofIncomplete (module : String)
deriving DecidableEq

/-! ### The search -/

/-- The first entry of a module. -/
def position (migrations : List ModuleMigration) (module : CitadelModule) : Option (Fin migrations.length) :=
  migrations.findFinIdx? fun candidate => candidate.module = module

def adjacency (migrations : List ModuleMigration) (entry : Fin migrations.length) : List (Fin migrations.length) :=
  (migrations.get entry).dependencies.filterMap (position migrations)

/-- `none` if the fuel does not last. -/
def findDependencyCycle (fuel : ℕ) (migrations : List ModuleMigration) : Option (Option (List String)) :=
  match searchAll (adjacency migrations) fuel (List.finRange migrations.length) start with
  | .outOfFuel => none
  | .found cycle => some (some (cycle.map fun entry => (migrations.get entry).module.debug))
  | .clear _ => some none

def validateCitadelPort (fuel : ℕ) (config : CitadelPortConfig) :
    Option (Except (List CitadelPortValidationError) Unit) := do
  let totalPlaceholders := (config.migrations.map fun migration => migration.placeholders.length).sum
  let cycle ← findDependencyCycle fuel config.migrations
  some <| Seen.report <|
    (if config.migrations = [] then [.emptyMigrations] else []) ++
    (if config.maxAllowedPlaceholders.toNat < totalPlaceholders then
      [.tooManyPlaceholders totalPlaceholders config.maxAllowedPlaceholders] else []) ++
    (config.migrations.flatMap fun migration =>
      (migration.placeholders.filter fun placeholder => config.maxSeverityAllowed < placeholder.severity).map
        fun placeholder => .highSeverityPlaceholder placeholder.location placeholder.severity) ++
    (match cycle with
      | some cycle => [.cyclicDependency cycle]
      | none => []) ++
    if config.requireMachineChecked then
      (config.migrations.filter fun migration => migration.proofStatus ≠ .machineChecked).map
        fun migration => .proofIncomplete migration.module.debug
    else []

/-! ### Dependencies -/

/-- An entry of the first module depends on the second, which is listed. -/
def Depends (migrations : List ModuleMigration) (module dependency : CitadelModule) : Prop :=
  (∃ entry ∈ migrations, entry.module = module ∧ dependency ∈ entry.dependencies) ∧
    ∃ entry ∈ migrations, entry.module = dependency

/-- Of the entries of a module only the first. -/
def firstEntries (migrations : List ModuleMigration) : List ModuleMigration :=
  Seen.keepFirst ModuleMigration.module ∅ migrations

section Positions
variable {migrations : List ModuleMigration} {module dependency : CitadelModule} {i j : Fin migrations.length}

theorem module_of_position (h : position migrations module = some i) : (migrations.get i).module = module := by
  have hmodule := (List.findFinIdx?_eq_some_iff.mp h).1
  simpa using hmodule

theorem find_eq_position :
    migrations.find? (fun entry => entry.module = module) = (position migrations module).map migrations.get :=
  List.find?_eq_map_findFinIdx?_getElem

theorem step_iff : DepthFirst.Step (adjacency migrations) i j ↔
    (migrations.get j).module ∈ (migrations.get i).dependencies ∧
      position migrations (migrations.get j).module = some j := by
  rw [DepthFirst.Step, adjacency, List.mem_filterMap]
  constructor
  · rintro ⟨dependency, hmem, hposition⟩
    rw [module_of_position hposition]
    exact ⟨hmem, hposition⟩
  · rintro ⟨hmem, hposition⟩
    exact ⟨_, hmem, hposition⟩

theorem mem_firstEntries {entry : ModuleMigration} : entry ∈ firstEntries migrations ↔
    ∃ i, position migrations entry.module = some i ∧ migrations.get i = entry := by
  rw [firstEntries, Seen.mem_keepFirst, find_eq_position, Option.map_eq_some_iff]
  simp

theorem depends_firstEntries_iff : Depends (firstEntries migrations) module dependency ↔
    ∃ i j, position migrations module = some i ∧ position migrations dependency = some j ∧
      DepthFirst.Step (adjacency migrations) i j := by
  constructor
  · rintro ⟨⟨entry, hentry, rfl, hmem⟩, other, hother, rfl⟩
    obtain ⟨i, hi, rfl⟩ := mem_firstEntries.mp hentry
    obtain ⟨j, hj, rfl⟩ := mem_firstEntries.mp hother
    exact ⟨i, j, hi, hj, step_iff.mpr ⟨hmem, hj⟩⟩
  · rintro ⟨i, j, hi, hj, hstep⟩
    obtain rfl := module_of_position hi
    obtain rfl := module_of_position hj
    exact ⟨⟨_, mem_firstEntries.mpr ⟨i, hi, rfl⟩, rfl, (step_iff.mp hstep).1⟩,
      _, mem_firstEntries.mpr ⟨j, hj, rfl⟩, rfl⟩

/-- Every edge of the search is a dependency. -/
theorem depends_of_step (h : DepthFirst.Step (adjacency migrations) i j) :
    Depends migrations (migrations.get i).module (migrations.get j).module :=
  ⟨⟨_, migrations.get_mem i, rfl, (step_iff.mp h).1⟩, _, migrations.get_mem j, rfl⟩

theorem position_of_transGen (h : Relation.TransGen (DepthFirst.Step (adjacency migrations)) i j) :
    position migrations (migrations.get j).module = some j := by
  cases h with
  | single hstep => exact (step_iff.mp hstep).2
  | tail _ hstep => exact (step_iff.mp hstep).2

theorem transGen_depends (hi : position migrations (migrations.get i).module = some i)
    (h : Relation.TransGen (DepthFirst.Step (adjacency migrations)) i j) :
    Relation.TransGen (Depends (firstEntries migrations)) (migrations.get i).module (migrations.get j).module := by
  induction h with
  | single hstep => exact .single (depends_firstEntries_iff.mpr ⟨_, _, hi, (step_iff.mp hstep).2, hstep⟩)
  | tail hreach hstep ih =>
    exact ih.tail (depends_firstEntries_iff.mpr ⟨_, _, position_of_transGen hreach, (step_iff.mp hstep).2, hstep⟩)

theorem transGen_step (hi : position migrations module = some i)
    (h : Relation.TransGen (Depends (firstEntries migrations)) module dependency) :
    ∃ j, position migrations dependency = some j ∧ Relation.TransGen (DepthFirst.Step (adjacency migrations)) i j := by
  induction h with
  | single hdepends =>
    obtain ⟨i', j, hi', hj, hstep⟩ := depends_firstEntries_iff.mp hdepends
    obtain rfl := Option.some.inj (hi.symm.trans hi')
    exact ⟨j, hj, .single hstep⟩
  | tail _ hdepends ih =>
    obtain ⟨k, hk, hreach⟩ := ih
    obtain ⟨k', j, hk', hj, hstep⟩ := depends_firstEntries_iff.mp hdepends
    obtain rfl := Option.some.inj (hk.symm.trans hk')
    exact ⟨j, hj, hreach.tail hstep⟩

/-- The edges of the search have a cycle if the dependencies of the first entries do. -/
theorem cyclic_adjacency_iff :
    Cyclic (DepthFirst.Step (adjacency migrations)) ↔ Cyclic (Depends (firstEntries migrations)) := by
  constructor
  · rintro ⟨i, hcycle⟩
    exact ⟨_, transGen_depends (position_of_transGen hcycle) hcycle⟩
  · rintro ⟨module, hcycle⟩
    obtain ⟨_, hdepends, -⟩ := Relation.TransGen.head'_iff.mp hcycle
    obtain ⟨i, -, hi, -, -⟩ := depends_firstEntries_iff.mp hdepends
    obtain ⟨j, hj, hreach⟩ := transGen_step hi hcycle
    obtain rfl := Option.some.inj (hi.symm.trans hj)
    exact ⟨i, hreach⟩

end Positions

/-! ### What the search finds -/

/-- The names of modules that depend each on the next, from one to itself. -/
def Sound (migrations : List ModuleMigration) (cycle : List String) : Prop :=
  ∃ modules, IsCycle (Depends migrations) modules ∧ cycle = modules.map CitadelModule.debug

section Search
variable {migrations : List ModuleMigration} {fuel : ℕ}

theorem sound_of_isCycle {cycle : List (Fin migrations.length)}
    (h : IsCycle (DepthFirst.Step (adjacency migrations)) cycle) :
    Sound migrations (cycle.map fun entry => (migrations.get entry).module.debug) := by
  obtain ⟨i, path, rfl, hchain⟩ := h
  refine ⟨_, ⟨(migrations.get i).module, path.map fun entry => (migrations.get entry).module, rfl, ?_⟩, by simp⟩
  have hmap := List.isChain_map_of_isChain (fun entry => (migrations.get entry).module)
    (fun _ _ hstep => depends_of_step hstep) hchain
  simpa using hmap

/-- With enough fuel the search finds dependencies in a cycle, or none where the first entries have none. -/
theorem findDependencyCycle_spec (hfuel : migrations.length < fuel) : ∃ result,
    findDependencyCycle fuel migrations = some result ∧ (∀ cycle, result = some cycle → Sound migrations cycle) ∧
      (result.isSome ↔ Cyclic (Depends (firstEntries migrations))) := by
  have hcard : Fintype.card (Fin migrations.length) < fuel := by rwa [Fintype.card_fin]
  rw [findDependencyCycle]
  rcases searchAll_spec (adjacency migrations) hcard List.mem_finRange with
    ⟨cycle, hsearch, hcycle⟩ | ⟨⟨s, hsearch⟩, hnone⟩
  · rw [hsearch]
    refine ⟨_, rfl, ?_, iff_of_true rfl (cyclic_adjacency_iff.mp hcycle.cyclic)⟩
    rintro _ ⟨⟩
    exact sound_of_isCycle hcycle
  · rw [hsearch]
    exact ⟨none, rfl, nofun, iff_of_false Bool.false_ne_true fun h => hnone (cyclic_adjacency_iff.mpr h)⟩

/-- The validation reports a cycle. -/
def ReportsCycle (result : Except (List CitadelPortValidationError) Unit) : Prop :=
  ∃ modules errors, result = .error errors ∧ .cyclicDependency modules ∈ errors

theorem validateCitadelPort_spec (config : CitadelPortConfig) {cycle : Option (List String)}
    (h : findDependencyCycle fuel config.migrations = some cycle) :
    ∃ result, validateCitadelPort fuel config = some result ∧ (ReportsCycle result ↔ cycle.isSome) := by
  refine ⟨_, by rw [validateCitadelPort, h]; rfl, ?_⟩
  simp only [ReportsCycle, Seen.mem_report]
  cases cycle with
  | none => simp [List.mem_ite_nil_right]
  | some cycle => simp

/-- What is found is a cycle of dependencies, something is found if there is one, and then it is reported. -/
structure DetectsCycles (fuel : ℕ) (migrations : List ModuleMigration) : Prop where
  finds : ∃ result, findDependencyCycle fuel migrations = some result ∧
    (∀ cycle, result = some cycle → Sound migrations cycle) ∧ (result.isSome ↔ Cyclic (Depends migrations))
  reports : ∀ config : CitadelPortConfig, config.migrations = migrations →
    ∃ result, validateCitadelPort fuel config = some result ∧ (ReportsCycle result ↔ Cyclic (Depends migrations))

/-- Cycles are detected in a plan, if and only if the plan is still cyclic, in case it is, with every module reduced to its
first entry. -/
theorem cycle_detection_iff (migrations : List ModuleMigration) :
    (∀ fuel, migrations.length < fuel → DetectsCycles fuel migrations) ↔
      (Cyclic (Depends migrations) → Cyclic (Depends (firstEntries migrations))) := by
  constructor
  · intro h hcyclic
    obtain ⟨⟨result, hresult, -, hfound⟩, -⟩ := h _ (Nat.lt_succ_self _)
    obtain ⟨result', hresult', -, hfirst⟩ := findDependencyCycle_spec (Nat.lt_succ_self migrations.length)
    obtain rfl := Option.some.inj (hresult.symm.trans hresult')
    exact hfirst.mp (hfound.mpr hcyclic)
  · intro h fuel hfuel
    obtain ⟨result, hresult, hsound, hfirst⟩ := findDependencyCycle_spec hfuel
    have hfound : result.isSome ↔ Cyclic (Depends migrations) := by
      refine ⟨fun hsome => ?_, fun hcyclic => hfirst.mpr (h hcyclic)⟩
      obtain ⟨cycle, rfl⟩ := Option.isSome_iff_exists.mp hsome
      obtain ⟨modules, hcycle, -⟩ := hsound cycle rfl
      exact hcycle.cyclic
    refine ⟨⟨result, hresult, hsound, hfound⟩, fun config hconfig => ?_⟩
    obtain ⟨reported, hreported, hiff⟩ := validateCitadelPort_spec config (hconfig ▸ hresult)
    exact ⟨reported, hreported, hiff.trans hfound⟩

def migrationOf (module : CitadelModule) (dependencies : List CitadelModule) : ModuleMigration :=
  ⟨module, [], .notStarted, dependencies⟩

/-- The second entry of a module closes a cycle that is not found. -/
theorem second_entry_hides_cycle :
    ∃ migrations fuel, migrations.length < fuel ∧ ¬ DetectsCycles fuel migrations := by
  let migrations :=
    [migrationOf .forkChoice [], migrationOf .finalization [.forkChoice], migrationOf .forkChoice [.finalization]]
  refine ⟨migrations, 4, by decide, fun h => ?_⟩
  obtain ⟨⟨result, hresult, -, hfound⟩, -⟩ := h
  have hnone : findDependencyCycle 4 migrations = some none := by decide
  obtain rfl := Option.some.inj (hnone.symm.trans hresult)
  have hforward : Depends migrations .forkChoice .finalization :=
    ⟨⟨migrationOf .forkChoice [.finalization], by decide⟩, migrationOf .finalization [.forkChoice], by decide⟩
  have hback : Depends migrations .finalization .forkChoice :=
    ⟨⟨migrationOf .finalization [.forkChoice], by decide⟩, migrationOf .forkChoice [], by decide⟩
  exact Bool.false_ne_true (hfound.mpr ⟨.forkChoice, .tail (.single hforward) hback⟩)

end Search

end CitadelPort
end Eth2077
