import BeaconNode.Words
import BeaconNode.OrderedMap
import BeaconNode.KeyedList
import BeaconNode.Runs
import BeaconNode.TextStream
import BeaconNode.Records
import BeaconNode.Crypto
import BeaconNode.Identity
import BeaconNode.Registry
import BeaconNode.LineProtocol
import BeaconNode.SyncClient
import BeaconNode.RecordCodec
import BeaconNode.SyncRounds
import BeaconNode.GossipFixedPoint
import BeaconNode.ProtobufControl
import BeaconNode.SignedRegistry
import BeaconNode.KeyPinning
import BeaconNode.PullPolicy
import BeaconNode.Persistence
import BeaconNode.WalReplay
import BeaconNode.EntryWire
import BeaconNode.WalDurability
import BeaconNode.VersionedLog
import BeaconNode.SnapshotRecovery
import BeaconNode.RegistryLog
import BeaconNode.ConcurrentUpserts
import BeaconNode.EngineLives
import BeaconNode.EngineRestart
import BeaconNode.SignedRestart
import BeaconNode.AcceptedLines
import BeaconNode.GossipSafety
import BeaconNode.RegistryShape
import BeaconNode.AgentExpiry
import BeaconNode.CanonicalPayload
import BeaconNode.Utf8
import BeaconNode.PythonIdentity
import BeaconNode.Framing
import BeaconNode.ControlReplies
import BeaconNode.Transports
import BeaconNode.ListReplies
import BeaconNode.BatchMerge
import BeaconNode.TrustStore
import BeaconNode.PythonFraming
import BeaconNode.ControlSession
import BeaconNode.ChurnSimulation
import BeaconNode.SimulationRuns
import BeaconNode.PythonText
import BeaconNode.PythonClient
import BeaconNode.PythonListing
import BeaconNode.ListedAgents
import BeaconNode.SdkSync
import BeaconNode.LogReload
import BeaconNode.CursorPaging
import BeaconNode.ReplayLoop
import BeaconNode.FailedSnapshots
import BeaconNode.OversizedEntries
import BeaconNode.DamagedFiles
import BeaconNode.BurstErrors
import BeaconNode.LiveAgents
import BeaconNode.PushPullParsers
import BeaconNode.HexSpelling
import BeaconNode.Reputation
import BeaconNode.PeerHandshake
import BeaconNode.PeerProbe
import BeaconNode.SecurePath
import BeaconNode.StoredIdentity
import BeaconNode.GossipService
import BeaconNode.Spreading
import BeaconNode.GossipSpread
import BeaconNode.NewestRecord
import BeaconNode.BlockHeap
import BeaconNode.SecureBuffers
import BeaconNode.BufferValues
import BeaconNode.ClientCalls
import BeaconNode.ServedCalls
import BeaconNode.ClientRuns
import BeaconNode.ListingCalls
import BeaconNode.ListedSignatures
import BeaconNode.CarriedSignatures
import BeaconNode.ControlServer
import BeaconNode.EngineStart
import BeaconNode.EngineTicks
import BeaconNode.ServerProgress
