import Meeting.Lib.Runs
import Meeting.Lib.Blocks
import Meeting.Lib.Lists
import Meeting.Lib.Serial
import Meeting.Lib.GoStrings
import Meeting.Lib.Loops
import Meeting.Lib.Measure
import Meeting.Lib.Emitter
import Meeting.Codec.Header
import Meeting.Codec.Worker
import Meeting.Codec.Decoder
import Meeting.Codec.Transport
import Meeting.Codec.Chunks
import Meeting.Codec.Faults
import Meeting.Codec.Stream
import Meeting.Mesh.CallSetup
import Meeting.Mesh.Rooms
import Meeting.Mesh.Signals
import Meeting.Redis.Channels
import Meeting.Redis.Membership
import Meeting.Redis.Presence
import Meeting.Redis.Order
import Meeting.Room.Manager
import Meeting.Room.Sockets
import Meeting.Room.Joins
import Meeting.Room.Cleanup
import Meeting.Sfu.Estimators
import Meeting.Sfu.Remb
import Meeting.Sfu.Peers
import Meeting.Sfu.Forwarding
import Meeting.Sfu.Offers
import Meeting.Sfu.Residue
import Meeting.Sfu.Lobby
import Meeting.Sfu.Routing
import Meeting.Sfu.Broadcast
import Meeting.Sfu.Progress
import Meeting.Sfu.Shutdown
import Meeting.Sfu.Locks
import Meeting.Sfu.Sessions
import Meeting.Rtc.Negotiator
import Meeting.Rtc.Recovery
import Meeting.Rtc.Signaller
import Meeting.Rtc.Payloads
import Meeting.Jitter.Buffer
import Meeting.Jitter.Nacks
import Meeting.Jitter.Ring
import Meeting.Jitter.Retention
import Meeting.Jitter.Reports
import Meeting.Jitter.Clearing
import Meeting.Jitter.Loops
import Meeting.Insertable.Worker
import Meeting.Insertable.Frames
import Meeting.Insertable.Encryption
import Meeting.Insertable.Decryption
import Meeting.Insertable.Peers
import Meeting.Streams.State
import Meeting.Streams.View
import Meeting.Streams.Reducer
import Meeting.Streams.Ledger
import Meeting.Streams.Commute
import Meeting.Streams.Metadata
import Meeting.Streams.Recording
import Meeting.Streams.LocalTracks
import Meeting.Streams.Devices
import Meeting.Streams.Board
import Meeting.Streams.Playing
import Meeting.Ids.BaseN
import Meeting.Log.Factory
import Meeting.Server.Config
import Meeting.Call.Reconnect
import Meeting.Call.Dial
import Meeting.Call.Peers
import Meeting.Call.Chat
