import XredisCrdt.Lib.Decimal
import XredisCrdt.Lib.RingBuffer
import XredisCrdt.Lib.System
import XredisCrdt.Lib.KeyedMerge
import XredisCrdt.Util
import XredisCrdt.Clock.VectorClock
import XredisCrdt.Clock.FullSyncFilter
import XredisCrdt.Peer.State
import XredisCrdt.Peer.FullSync
import XredisCrdt.Peer.Recovery
import XredisCrdt.Peer.Peerof
import XredisCrdt.Peer.Link
import XredisCrdt.Peer.Closed
import XredisCrdt.Repl.Backlog
import XredisCrdt.Repl.PartialResync
import XredisCrdt.Repl.BacklogRuns
import XredisCrdt.Proto.Multibulk
import XredisCrdt.Repl.Feed
import XredisCrdt.Repl.PeerStream
import XredisCrdt.Net.Command
import XredisCrdt.Net.Processing
import XredisCrdt.Net.Frame
import XredisCrdt.Net.StreamPosition
import XredisCrdt.Net.StreamRuns
import XredisCrdt.Net.PeerWrites
import XredisCrdt.Net.Replay
import XredisCrdt.Net.LinkReplay
import XredisCrdt.Net.Accounts
import XredisCrdt.Net.Pair
import XredisCrdt.Net.PairWire
import XredisCrdt.Net.PairAccounts
import XredisCrdt.Merge.Handlers
import XredisCrdt.Merge.Gids
import XredisCrdt.Merge.Failure
import XredisCrdt.Merge.Watch
import XredisCrdt.Txn.Brackets
import XredisCrdt.Net.Refusals
import XredisCrdt.Peer.Resume
import XredisCrdt.Lib.Stability
import XredisCrdt.Peer.Gc
import XredisCrdt.Clock.Text
import XredisCrdt.Peer.OfflineCache
import XredisCrdt.Peer.RdbAux
import XredisCrdt.Repl.Identity
import XredisCrdt.Net.NoLoop
import XredisCrdt.Dict.Table
import XredisCrdt.Dict.Map
import XredisCrdt.Dict.Scan
import XredisCrdt.Peer.Handshake
import XredisCrdt.Peer.HandshakeRuns
import XredisCrdt.Peer.HandshakeSafety
import XredisCrdt.Clock.Order
import XredisCrdt.Clock.Codecs
import XredisCrdt.Evict.Pool
import XredisCrdt.Evict.Tombstones
import XredisCrdt.Expire.Ownership
import XredisCrdt.Lib.FixedDecimal
import XredisCrdt.Clock.Packed
import XredisCrdt.Rdb.Convert
import XredisCrdt.Clock.PackedRuns
import XredisCrdt.Merge.Converge
import XredisCrdt.Merge.Stream
import XredisCrdt.Net.PairDbs
import XredisCrdt.Lib.Loading
import XredisCrdt.Rdb.Primitives
import XredisCrdt.Rdb.Counts
import XredisCrdt.Rdb.LzfCodec
import XredisCrdt.Rdb.Keyspace
import XredisCrdt.Rdb.RoundTrip
import XredisCrdt.Config.Lines
import XredisCrdt.Peer.OfflineGids
import XredisCrdt.Expire.LiveKeys
import XredisCrdt.Merge.Expire
import XredisCrdt.Peer.ProxyEq
import XredisCrdt.Repl.ReplicationCommand
