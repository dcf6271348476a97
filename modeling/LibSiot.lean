import LibSiot.Library.Segments
import LibSiot.Library.SeqPrefix
import LibSiot.Proofs.AcknowledgementLimit
import LibSiot.Proofs.EndOfFileFinal
import LibSiot.Proofs.EndOfFileReached
import LibSiot.Proofs.Frames
import LibSiot.Proofs.FullConnection
import LibSiot.Proofs.LineAccesses
import LibSiot.Proofs.LineBuffer
import LibSiot.Proofs.NestedRanges
import LibSiot.Proofs.OpenSSLConnection
import LibSiot.Proofs.Peeking
import LibSiot.Proofs.RangeOverAcknowledgement
import LibSiot.Proofs.RangeShutdown
import LibSiot.Proofs.Server.AcceptIteration
import LibSiot.Proofs.Server.CallbackOrder
import LibSiot.Proofs.Server.ConnectionLife
import LibSiot.Proofs.Server.DataOffered
import LibSiot.Proofs.Server.DataReadyAlive
import LibSiot.Proofs.Server.DecoratedHandle
import LibSiot.Proofs.Server.DescriptorOwners
import LibSiot.Proofs.Server.DescriptorReuse
import LibSiot.Proofs.Server.ErasingLoops
import LibSiot.Proofs.Server.FrozenPool
import LibSiot.Proofs.Server.Lifetime
import LibSiot.Proofs.Server.LockBalance
import LibSiot.Proofs.Server.LockOrder
import LibSiot.Proofs.Server.NoticeCount
import LibSiot.Proofs.Server.Progress
import LibSiot.Proofs.Server.ServerShutdown
import LibSiot.Proofs.Server.StackShutdown
import LibSiot.Proofs.Server.Teardown
import LibSiot.Proofs.Server.TerminationNotice
import LibSiot.Proofs.Server.Timeouts
import LibSiot.Proofs.ServerSSLContext
import LibSiot.Proofs.TlsStream
