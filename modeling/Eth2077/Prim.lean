import Mathlib.Data.List.AList
import Mathlib.Data.Vector.Basic
import Eth2077.Lib.Saturating

/-!
# Primitive types

The byte strings of `alloy_primitives` and the collections of the Rust standard library, as the
rest of the model uses them.
-/

namespace Eth2077

abbrev FixedBytes (n : Nat) := List.Vector UInt8 n

abbrev B256 := FixedBytes 32

abbrev Address := FixedBytes 20

abbrev Bloom := FixedBytes 256

abbrev U256 := BitVec 256

/-- `Bytes` and `Vec<u8>`: no allocation is longer than `isize::MAX`. -/
abbrev Bytes := { bs : List UInt8 // bs.length < 2 ^ 63 }

def Bytes.default : Bytes := ⟨[], by decide⟩

/-- `FixedBytes::repeat_byte`: every byte is `b`. -/
def FixedBytes.repeatByte {n : Nat} (b : UInt8) : FixedBytes n := List.Vector.replicate n b

def FixedBytes.zero {n : Nat} : FixedBytes n := repeatByte 0

/-- `std::collections::HashMap`, as a list of entries with distinct keys. -/
abbrev HashMap (K V : Type) := AList (fun _ : K => V)

/-- The order in which one traversal of a `HashMap` yields its entries. The hasher is keyed at
random for every map, so any permutation can come out. -/
structure IterOrder (α : Type) where
  order : List α → List α
  perm : ∀ l, (order l).Perm l

namespace IterOrder
variable {α : Type}

def stored : IterOrder α := ⟨id, List.Perm.refl⟩

theorem mem_order (o : IterOrder α) {l : List α} {a : α} : a ∈ o.order l ↔ a ∈ l :=
  (o.perm l).mem_iff

end IterOrder

/-- The entries of a map in the order in which a loop meets them. -/
def traverse {K V : Type} (order : IterOrder (K × V)) (m : HashMap K V) : List (K × V) :=
  order.order (m.entries.map fun e => (e.1, e.2))

section Traverse
variable {K V : Type} {m : HashMap K V}

theorem mem_traverse [DecidableEq K] {order : IterOrder (K × V)} {k : K} {v : V} :
    (k, v) ∈ traverse order m ↔ m.lookup k = some v := by
  unfold traverse
  rw [IterOrder.mem_order, ← Option.mem_def, AList.mem_lookup_iff, List.mem_map]
  refine ⟨?_, fun h => ⟨⟨k, v⟩, h, rfl⟩⟩
  rintro ⟨⟨k', v'⟩, h, heq⟩
  obtain ⟨rfl, rfl⟩ := Prod.mk.inj heq
  exact h

theorem mem_iff_exists_lookup [DecidableEq K] {k : K} : k ∈ m ↔ ∃ v, m.lookup k = some v := by
  rw [← AList.lookup_isSome, Option.isSome_iff_exists]

theorem nodup_traverse (order : IterOrder (K × V)) (m : HashMap K V) : ((traverse order m).map Prod.fst).Nodup := by
  refine ((order.perm _).map Prod.fst).nodup_iff.mpr ?_
  rw [List.map_map]
  exact m.nodupKeys

end Traverse

end Eth2077
