import LinearFcgi.QueueProofs
import LinearFcgi.RequestProofs
import LinearFcgi.Acknowledgement
import LinearFcgi.HangUps
import LinearFcgi.Polls
import LinearFcgi.Teardown
import LinearFcgi.Uplink
import LinearFcgi.Waiting
import LinearFcgi.Library.Doorbell
import LinearFcgi.Wakeups
import LinearFcgi.Slots
import LinearFcgi.Connects
import LinearFcgi.Idling
import LinearFcgi.Builds
import LinearFcgi.Origins
import LinearFcgi.Lookups
import LinearFcgi.Iterations
import LinearFcgi.Service
import LinearFcgi.Uuid
import LinearFcgi.UuidProofs
import LinearFcgi.BodyBuffer
import LinearFcgi.Library.Batching
import LinearFcgi.Batches
import LinearFcgi.Library.Hex
import LinearFcgi.QueriesProofs
import LinearFcgi.Sessions
import LinearFcgi.UrlCodecProofs
import LinearFcgi.UuidText
import LinearFcgi.UuidTextProofs
import LinearFcgi.UuidOrder
import LinearFcgi.Framing
import LinearFcgi.Echoes
import LinearFcgi.UrlBuffers
import LinearFcgi.Library.Fairness
import LinearFcgi.Liveness
import LinearFcgi.Reclaims
import LinearFcgi.Finality
import LinearFcgi.Tunnel
import LinearFcgi.Timer
import LinearFcgi.Handles
import LinearFcgi.QueueNodes
import LinearFcgi.Library.Heap
import LinearFcgi.PollMemory
import LinearFcgi.UvRequests
