import Eth2077.Prim
import Eth2077.Lib.Rlp

/-!
# Canonical blocks (`types/src/canonical.rs`)

`keccak256` is a parameter throughout: nothing here looks inside it.
-/

namespace Eth2077

/-- `u64::to_be_bytes`. -/
def toBeBytes (n : UInt64) : List UInt8 := beBytes 8 n.toNat

theorem isPrefixCode_fixedBytes (n : ℕ) : PrefixCode.IsPrefixCode fun bs : FixedBytes n => bs.toList :=
  PrefixCode.of_length (fun bs => bs.toList_length) fun _ _ h => List.Vector.toList_injective h

theorem isPrefixCode_toBeBytes : PrefixCode.IsPrefixCode toBeBytes := by
  refine (isPrefixCode_beBytes 8).comp (p := fun n : UInt64 => ⟨n.toNat, n.toNat_lt⟩) ?_
  intro a b h
  exact UInt64.toNat_inj.mp (Subtype.mk.inj h)

def FixedBytes.ofNat (n value : ℕ) : FixedBytes n := ⟨beBytes n value, length_beBytes n value⟩

structure Header where
  parentHash : B256
  ommersHash : B256
  beneficiary : Address
  stateRoot : B256
  transactionsRoot : B256
  receiptsRoot : B256
  logsBloom : Bloom
  difficulty : U256
  number : UInt64
  gasLimit : UInt64
  gasUsed : UInt64
  timestamp : UInt64
  extraData : Bytes
  mixHash : B256
  nonce : UInt64
  baseFeePerGas : Option UInt64
  blobGasUsed : Option UInt64
  excessBlobGas : Option UInt64
  parentBeaconBlockRoot : Option B256
deriving DecidableEq

structure Transaction where
  hash : B256
  nonce : UInt64
  «from» : Address
  «to» : Option Address
  value : U256
  gasLimit : UInt64
  maxFeePerGas : UInt64
  maxPriorityFeePerGas : UInt64
  input : Bytes
  chainId : UInt64
  signatureR : U256
  signatureS : U256
  signatureV : UInt64
deriving DecidableEq

structure Log where
  address : Address
  topics : List B256
  data : Bytes
deriving DecidableEq

structure Receipt where
  txHash : B256
  status : Bool
  cumulativeGasUsed : UInt64
  logsBloom : Bloom
  logs : List Log
deriving DecidableEq

structure Block where
  header : Header
  transactions : List Transaction
  ommers : List Header
deriving DecidableEq

namespace Header

/-- The derived encoding, with the optional fields trailing. -/
def encode (h : Header) : List UInt8 :=
  let number (n : UInt64) := Rlp.encodeNumber 8 n.toNat
  Rlp.encodeList <|
    [Rlp.encodeString h.parentHash.toList, Rlp.encodeString h.ommersHash.toList,
      Rlp.encodeString h.beneficiary.toList, Rlp.encodeString h.stateRoot.toList,
      Rlp.encodeString h.transactionsRoot.toList, Rlp.encodeString h.receiptsRoot.toList,
      Rlp.encodeString h.logsBloom.toList, Rlp.encodeNumber 32 h.difficulty.toNat, number h.number,
      number h.gasLimit, number h.gasUsed, number h.timestamp, Rlp.encodeString h.extraData.1,
      Rlp.encodeString h.mixHash.toList, number h.nonce] ++
    Rlp.trailing [h.baseFeePerGas.map number, h.blobGasUsed.map number, h.excessBlobGas.map number,
      h.parentBeaconBlockRoot.map fun root => Rlp.encodeString root.toList]

def hash (keccak256 : List UInt8 → B256) (h : Header) : B256 := keccak256 h.encode

end Header

namespace Block

def hash (keccak256 : List UInt8 → B256) (b : Block) : B256 := b.header.hash keccak256

def number (b : Block) : UInt64 := b.header.number

end Block

/-- `Bloom::accrue_bloom`. -/
def Bloom.accrueBloom (bloom other : Bloom) : Bloom := List.Vector.map₂ (· ||| ·) bloom other

end Eth2077
