import Mathlib.Data.List.Sort
import Eth2077.Types.Canonical

/-!
# The in-memory state database (`execution/src/state.rs`)

Accounts, storage and block hashes, and the placeholder state root of `block_builder.rs`, which
covers the accounts only.
-/

namespace Eth2077

structure AccountInfo where
  balance : U256
  nonce : UInt64
  codeHash : B256
  code : Option Bytes
deriving DecidableEq

instance : Inhabited AccountInfo := ⟨⟨0, 0, FixedBytes.zero, none⟩⟩

structure InMemoryStateDB where
  accounts : HashMap Address AccountInfo
  storage : HashMap Address (HashMap U256 U256)
  blockHashes : HashMap UInt64 B256

namespace InMemoryStateDB

def new : InMemoryStateDB := ⟨∅, ∅, ∅⟩

def insertAccount (db : InMemoryStateDB) (address : Address) (info : AccountInfo) : InMemoryStateDB :=
  { db with accounts := AList.insert address info db.accounts }

def getAccount (db : InMemoryStateDB) (address : Address) : AccountInfo :=
  (db.accounts.lookup address).getD default

def setStorage (db : InMemoryStateDB) (address : Address) (slot value : U256) : InMemoryStateDB :=
  let slots := (db.storage.lookup address).getD ∅
  { db with storage := AList.insert address (AList.insert slot value slots) db.storage }

def getStorage (db : InMemoryStateDB) (address : Address) (slot : U256) : U256 :=
  ((db.storage.lookup address).bind fun slots => slots.lookup slot).getD 0

def insertBlockHash (db : InMemoryStateDB) (number : UInt64) (hash : B256) : InMemoryStateDB :=
  { db with blockHashes := AList.insert number hash db.blockHashes }

def getBlockHash (db : InMemoryStateDB) (number : UInt64) : B256 :=
  (db.blockHashes.lookup number).getD FixedBytes.zero

def accountExists (db : InMemoryStateDB) (address : Address) : Bool := decide (address ∈ db.accounts)

def removeAccount (db : InMemoryStateDB) (address : Address) : InMemoryStateDB :=
  { db with accounts := db.accounts.erase address, storage := db.storage.erase address }

def clearStorage (db : InMemoryStateDB) (address : Address) : InMemoryStateDB :=
  { db with storage := db.storage.erase address }

end InMemoryStateDB

/-! ### The state root -/

/-- The derived order of `[u8; 20]`. -/
def AddressLE (a b : Address) : Prop := a.toList ≤ b.toList

instance (a b : Address) : Decidable (AddressLE a b) := inferInstanceAs (Decidable (a.toList ≤ b.toList))

/-- The addresses of all accounts, sorted. The order in which `keys()` yields them is lost. -/
def sortedAddresses (db : InMemoryStateDB) : List Address := db.accounts.keys.insertionSort AddressLE

def encodeCode : Option Bytes → List UInt8
  | some code => 1 :: (beBytes 8 code.1.length ++ code.1)
  | none => [0]

/-- One account, as the loop of `compute_state_root` appends it. -/
def encodeAccount (address : Address) (account : AccountInfo) : List UInt8 :=
  address.toList ++ (toBeBytes account.nonce ++ (beBytes 32 account.balance.toNat ++
    (account.codeHash.toList ++ encodeCode account.code)))

def statePayload (db : InMemoryStateDB) : List UInt8 :=
  beBytes 8 (sortedAddresses db).length ++
    (sortedAddresses db).flatMap fun address => encodeAccount address (db.getAccount address)

def computeStateRoot (keccak256 : List UInt8 → B256) (db : InMemoryStateDB) : B256 :=
  keccak256 (statePayload db)

end Eth2077
