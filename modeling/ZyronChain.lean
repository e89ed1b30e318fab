import ZyronChain.Lib.Checks
import ZyronChain.Lib.JsMap
import ZyronChain.Lib.Json
import ZyronChain.Lib.JsonLocal
import ZyronChain.Lib.JsonRoundTrip
import ZyronChain.Lib.JsonScan
import ZyronChain.Lib.JsonSize
import ZyronChain.Lib.Lines
import ZyronChain.Basic
import ZyronChain.Journal.Row
import ZyronChain.Journal.State
import ZyronChain.Journal.Reserve
import ZyronChain.Journal.Open
import ZyronChain.Journal.Replay
import ZyronChain.Journal.Invariant
import ZyronChain.Journal.Compact
import ZyronChain.Journal.Run
import ZyronChain.Journal.Crash
import ZyronChain.Codec
import ZyronChain.Crypto
import ZyronChain.Types
import ZyronChain.Activity
import ZyronChain.Transaction
import ZyronChain.Block
import ZyronChain.ConsensusV6.Certificates
import ZyronChain.Envelope
import ZyronChain.Lib.Quorum
import ZyronChain.ConsensusV6.Pacemaker
import ZyronChain.Node.State
import ZyronChain.Lib.LockedVoting
import ZyronChain.Messages
import ZyronChain.Node.Handlers
import ZyronChain.Node.Step
import ZyronChain.Network
import ZyronChain.Agreement.V6
import ZyronChain.Agreement.Timeout
import ZyronChain.Lib.SkipVoting
import ZyronChain.Agreement.Legacy
import ZyronChain.RemoteSigner
import ZyronChain.RemoteSigner
import ZyronChain.Lib.MerkleTree
import ZyronChain.Lib.SparseTree
import ZyronChain.Lib.SparseDigest
import ZyronChain.CanonicalForm
import ZyronChain.StateV2.Hash
import ZyronChain.StateV2.Tree
import ZyronChain.StateV2.Map
import ZyronChain.StateV2.Proof
import ZyronChain.Genesis
import ZyronChain.Lib.SortedMap
import ZyronChain.ActivityOracle
import ZyronChain.AllocationLocks
import ZyronChain.Ledger.Effect
import ZyronChain.Ledger.Invariant
import ZyronChain.Ledger.Overflow
import ZyronChain.StateV2.Keys
import ZyronChain.StateV2.Ledger
import ZyronChain.Ledger.Snapshot
import ZyronChain.StateV2.Portable
import ZyronChain.Chain.Authorization
import ZyronChain.Chain.Governance
import ZyronChain.Chain.Admission
import ZyronChain.Chain.Ledger
import ZyronChain.Chain.Supply
import ZyronChain.Chain.Equivalence
import ZyronChain.Chain.Locks
import ZyronChain.Chain.ActivityCap
import ZyronChain.Chain.Snapshot
import ZyronChain.TransactionText
import ZyronChain.Chain.Nonces
import ZyronChain.Chain.Bodies
import ZyronChain.Chain.Proposal
import ZyronChain.Chain.Budget
import ZyronChain.Chain.FeePriority
import ZyronChain.ConsensusV6.Assembly
import ZyronChain.SignerIntents
import ZyronChain.Lib.Method
import ZyronChain.Lib.Tally
import ZyronChain.Mempool.State
import ZyronChain.Mempool.Indexes
import ZyronChain.Mempool.Admission
import ZyronChain.Mempool.Run
import ZyronChain.Mempool.Eviction
import ZyronChain.Lib.JsValue
import ZyronChain.Lib.JsValueRoundTrip
import ZyronChain.Lib.JsNormalForm
import ZyronChain.JsCodec
import ZyronChain.Encoders
import ZyronChain.AmmMath
import ZyronChain.Lib.ReplayGuard
import ZyronChain.PeerRequests
import ZyronChain.P2PRate
import ZyronChain.ConsensusV6.Scheduler
import ZyronChain.LightClient
import ZyronChain.Chain.History
import ZyronChain.Chain.Selection
