import Eth2077.Lib.Saturating
import Eth2077.Lib.LockedVoting
import Eth2077.Prim
import Eth2077.Text
import Eth2077.Oob.Validator
import Eth2077.Oob.FastPath
import Eth2077.Oob.Consensus
import Eth2077.Oob.EngineInv
import Eth2077.Oob.Equivocation
import Eth2077.Oob.Finality
import Eth2077.Oob.Network
import Eth2077.Oob.NetworkInv
import Eth2077.Oob.Agreement
import Eth2077.Oob.FastAgreement
import Eth2077.Lib.PrefixCode
import Eth2077.Lib.Rlp
import Eth2077.Types.Canonical
import Eth2077.Execution.BlockBuilder
import Eth2077.Types.HeaderCodec
import Eth2077.Execution.Executor
import Eth2077.Execution.StateRoot
import Eth2077.Execution.HeaderRoots
import Eth2077.Node.Devnet
import Eth2077.Node.DevnetChain
import Eth2077.Node.Devnetd
import Eth2077.Node.FailedRun
import Eth2077.Lib.Framing
import Eth2077.P2p.Codec
import Eth2077.P2p.Gossip
import Eth2077.Lib.FifoSet
import Eth2077.P2p.Peer
import Eth2077.P2p.Sync
import Eth2077.P2p.Node
import Eth2077.Lib.Runs
import Eth2077.P2p.PeerTable
import Eth2077.Node.Parse
import Eth2077.Node.Engine7732
import Eth2077.Node.Registry7732
import Eth2077.Node.Daemon
import Eth2077.Node.Focil
import Eth2077.Node.FocilFreeze
import Eth2077.Node.PayloadSound
import Eth2077.Node.Inclusion
import Eth2077.Oob.FastPathRound
import Eth2077.P2p.SyncRuns
import Eth2077.Node.Timeliness
import Eth2077.Node.Penalties
import Eth2077.Execution.Lanes
import Eth2077.Lib.Tally
import Eth2077.Execution.Ingress
import Eth2077.P2p.Transport
import Eth2077.Lib.Fallible
import Eth2077.Node.RawTx
import Eth2077.Node.Queries
import Eth2077.Node.Market
import Eth2077.Node.Rpc
import Eth2077.Lib.Numeral
import Eth2077.Node.Numbers
import Eth2077.Bridge.PayloadConverter
import Eth2077.Node.BlockLookup
import Eth2077.Execution.CumulativeGas
import Eth2077.Node.DaemonRuns
import Eth2077.Node.Sealing
import Eth2077.Node.BlockGas
import Eth2077.Node.Logs
import Eth2077.Node.ReplayProtection
import Eth2077.Node.RootQueries
import Eth2077.Node.Http
import Eth2077.Node.MarketRuns
import Eth2077.Execution.ReceiptsRoot
import Eth2077.Lib.KeyedFold
import Eth2077.Execution.Commit
import Eth2077.Lib.Seen
import Eth2077.Execution.Draining
import Eth2077.Execution.Eip8070
import Eth2077.Execution.Eip7702
import Eth2077.Lib.SortBy
import Eth2077.Execution.Eip7928
import Eth2077.Execution.MergeAccessLists
import Eth2077.P2p.RelayCaches
import Eth2077.Lib.ProRata
import Eth2077.Types.Eip7999
import Eth2077.Types.BaseFees
import Eth2077.Lib.Xor
import Eth2077.Types.Witness
import Eth2077.Types.SporeSync
import Eth2077.Types.Eip8141
import Eth2077.Lib.Gaps
import Eth2077.Types.Eip8077
import Eth2077.Types.NonceGaps
import Eth2077.Types.Eip8025
import Eth2077.Lib.Worklist
import Eth2077.Node.EventLoop
import Eth2077.Types.Metadata
import Eth2077.Types.GenesisConfig
import Eth2077.Types.ValidatorCeremony
import Eth2077.Types.UpgradeGovernance
import Eth2077.Types.RpcGateway
import Eth2077.Lib.Calendar
import Eth2077.Lib.Delimited
import Eth2077.Types.AssumptionChecker
import Eth2077.Lib.DepthFirst
import Eth2077.Types.CitadelPort
import Eth2077.Types.GenesisAllocations
import Eth2077.Lib.Entries
import Eth2077.Types.ChainSpec
import Eth2077.Oob.OpenRound
import Eth2077.Oob.Liveness
import Eth2077.Oob.Heights
import Eth2077.Lib.Flooding
import Eth2077.P2p.Network
import Eth2077.P2p.Flood
import Eth2077.Node.History
import Eth2077.Node.DevnetRpc
import Eth2077.Execution.LaneStats
import Eth2077.Node.Tokens
import Eth2077.Bench.LiveBench
import Eth2077.Oob.Deadlock
import Eth2077.Execution.Conservation
import Eth2077.Node.RegistryCopy
import Eth2077.Node.Batch
import Eth2077.Node.Lifecycle
