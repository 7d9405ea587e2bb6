import Zond.Theory.Attesting
import Zond.Theory.Caches
import Zond.Theory.Canonical
import Zond.Theory.Clock
import Zond.Theory.CommitErrors
import Zond.Theory.EpochRecords
import Zond.Theory.FinalizedPath
import Zond.Theory.ForkChoice
import Zond.Theory.Framing
import Zond.Theory.Keys
import Zond.Theory.Leaders
import Zond.Theory.LogQuery
import Zond.Theory.MerkleRoot
import Zond.Theory.Messages
import Zond.Theory.PeerList
import Zond.Theory.PendingNonce
import Zond.Theory.PlainTransfer
import Zond.Theory.Pledges
import Zond.Theory.PoolAdmission
import Zond.Theory.Priorities
import Zond.Theory.Replay
import Zond.Theory.Requests
import Zond.Theory.Restoring
import Zond.Theory.Retry
import Zond.Theory.Rotation
import Zond.Theory.Sealing
import Zond.Theory.Snapshots
import Zond.Theory.StakeCount
import Zond.Theory.Support
import Zond.Theory.Votes
