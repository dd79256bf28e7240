import Nonblocking.Clock.Sequences
import Nonblocking.Handoff.Traffic
import Nonblocking.Log.Broadcast
import Nonblocking.Log.History
import Nonblocking.Log.Publication
import Nonblocking.Pool.Contention
import Nonblocking.Pool.FreeList
import Nonblocking.Pool.Ledger
import Nonblocking.Queue.Contents
import Nonblocking.Queue.Traffic
import Nonblocking.Request
import Nonblocking.Proofs.Pool.Ownership
import Nonblocking.Proofs.Log.Chronicle
import Nonblocking.Proofs.Handoff.Delivery
import Nonblocking.Proofs.Queue.Fifo
import Nonblocking.Proofs.Queue.Construction
import Nonblocking.Proofs.Pool.Stack
import Nonblocking.Proofs.Pool.Payload
import Nonblocking.Log.Account
import Nonblocking.Proofs.Log.Accounts
import Nonblocking.Proofs.Log.Untorn
import Nonblocking.Proofs.Pool.Interleaving
import Nonblocking.Log.Pacing
import Nonblocking.Proofs.Log.Pacing
import Nonblocking.Proofs.Handoff.Sending
import Nonblocking.Clock.Rounds
import Nonblocking.Proofs.Clock.Decision
import Nonblocking.Proofs.Clock.Expiry
import Nonblocking.Proofs.Log.Recovery
import Nonblocking.Log.Overtaking
import Nonblocking.Proofs.Log.Overtaken
import Nonblocking.Proofs.Log.Lockstep
import Nonblocking.Queue.Halves
import Nonblocking.Proofs.Queue.Snapshots
import Nonblocking.Clock.Sources
import Nonblocking.Proofs.Clock.Sources
import Nonblocking.Pool.Mishandling
import Nonblocking.Proofs.Pool.Mishandling
import Nonblocking.Proofs.Clock.Deadlines
import Nonblocking.Proofs.Log.Replay
import Nonblocking.Proofs.Queue.Cursors
