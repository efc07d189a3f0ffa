import Webserver.Proofs.BufferQueue
import Webserver.Proofs.GracefulShutdown
import Webserver.Proofs.SubmissionOrder
import Webserver.Proofs.ConnectionCallbacks
import Webserver.Proofs.DisconnectedFinal
import Webserver.Proofs.CrossThreadSend
import Webserver.Proofs.ConnectionPlacement
import Webserver.Proofs.LogStop
import Webserver.Proofs.CacheIntegrity
import Webserver.Proofs.CacheReference
import Webserver.Proofs.FunctorQueue
import Webserver.Proofs.WakeupKept
import Webserver.Proofs.QuitKept
import Webserver.Proofs.TimerArmed
import Webserver.Proofs.TimerCalls
import Webserver.Proofs.PollerBookkeeping
import Webserver.Proofs.RingGrowth
import Webserver.Proofs.RingMembership
import Webserver.Proofs.FileTransfer
import Webserver.Proofs.ShardCapacity
import Webserver.Proofs.LogRolling
import Webserver.Proofs.PoolAllocations
import Webserver.Proofs.FreeListKept
import Webserver.Proofs.AtomicPool
import Webserver.Proofs.ConnectionLifecycle
import Webserver.Proofs.BufferPool
import Webserver.Proofs.RingRepresentation
import Webserver.Proofs.AppendAccounting
import Webserver.Proofs.PeriodCheck
import Webserver.Proofs.IntegerText
import Webserver.Proofs.StreamContents
import Webserver.Proofs.RecordEnd
import Webserver.Proofs.TimeTexts
import Webserver.Proofs.WriteNotifications
import Webserver.Proofs.BufferRetrieval
import Webserver.Proofs.PointerPadding
import Webserver.Proofs.CacheLinks
import Webserver.Proofs.RecordsKept
import Webserver.Proofs.EchoStream
import Webserver.Proofs.BlocksReleased
import Webserver.Proofs.PoolDemand
import Webserver.Proofs.PoolLeak
import Webserver.Proofs.ShardIndependence
import Webserver.Proofs.LinkedRefinement
import Webserver.Proofs.RingChanges
import Webserver.Proofs.FlushInterval
import Webserver.Proofs.ConnectionRetired
import Webserver.Proofs.TimerSpacing
import Webserver.Proofs.TimerReleases
import Webserver.Proofs.DispatchFair
import Webserver.Proofs.ConnectionReleased
import Webserver.Proofs.BufferCapacity
import Webserver.Proofs.DescriptorReuse
