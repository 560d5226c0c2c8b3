import Eth2077.P2p.Codec
import Eth2077.Types.Canonical

/-!
# The sync engine (`p2p/src/sync_protocol.rs`)
-/

namespace Eth2077

namespace P2p

inductive SyncState where
  | idle
  | syncing (targetHeight currentHeight : UInt64)
  | synced
deriving DecidableEq

structure SyncEngine where
  localHeight : UInt64
  state : SyncState
  batchSize : UInt32

namespace SyncEngine

def new (localHeight : UInt64) : SyncEngine := ⟨localHeight, .idle, 64⟩

def needsSync (e : SyncEngine) (networkBestHeight : UInt64) : Bool := e.localHeight < networkBestHeight

def startSync (e : SyncEngine) (targetHeight : UInt64) : SyncEngine :=
  if targetHeight ≤ e.localHeight then { e with state := .synced }
  else { e with state := .syncing targetHeight e.localHeight }

def nextRequest (e : SyncEngine) : Option WireMessage :=
  match e.state with
  | .syncing targetHeight currentHeight =>
    if currentHeight < targetHeight then some (.getBlocks (currentHeight.saturatingAdd 1) e.batchSize)
    else none
  | _ => none

def onBlocksReceived (e : SyncEngine) (blocks : List Block) : SyncEngine :=
  match blocks.map Block.number with
  | [] => e
  | n :: ns =>
    let localHeight := max e.localHeight (ns.foldl max n)
    match e.state with
    | .syncing targetHeight _ =>
      if targetHeight ≤ localHeight then { e with localHeight, state := .synced }
      else { e with localHeight, state := .syncing targetHeight localHeight }
    | _ => { e with localHeight }

end SyncEngine

end P2p

end Eth2077
