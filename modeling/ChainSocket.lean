import ChainSocket.Timer.Manager
import ChainSocket.Timer.Heap
import ChainSocket.Timer.Operations
import ChainSocket.Timer.Pass
import ChainSocket.Lib.CString
import ChainSocket.WebSocket.Sha1
import ChainSocket.NetStruct
import ChainSocket.WebSocket.Frame
import ChainSocket.WebSocket.Wire
import ChainSocket.WebSocket.Handshake
import ChainSocket.WebSocket.Poller
import ChainSocket.WebSocket.FrameLoop
import ChainSocket.Lib.Stream
import ChainSocket.WebSocket.RoundTrip
import ChainSocket.WebSocket.Opening
import ChainSocket.WebSocket.Chunking
import ChainSocket.Lib.Effect
import ChainSocket.Buffer
import ChainSocket.Session
import ChainSocket.Handed
import ChainSocket.Lib.Reentrant
import ChainSocket.Table
import ChainSocket.Poller.Loop
import ChainSocket.Poller.Steps
import ChainSocket.Poller.Runs
import ChainSocket.Poller.Flush
import ChainSocket.Poller.Slots
import ChainSocket.Iocp.Loop
import ChainSocket.Iocp.Steps
import ChainSocket.Iocp.Drain
import ChainSocket.Iocp.Runs
import ChainSocket.Pollers
import ChainSocket.Buffer.Refine
import ChainSocket.Poller.Room
import ChainSocket.Lib.RoundRobin
import ChainSocket.Poller.Ids
import ChainSocket.Iocp.Ids
import ChainSocket.WebSocket.Closing
import ChainSocket.WebSocket.Crashes
import ChainSocket.WebSocket.Clients
import ChainSocket.MsgHub.Connect
import ChainSocket.MsgHub.Attempts
import ChainSocket.MsgHub.Calls
import ChainSocket.MsgHub.Results
import ChainSocket.MsgHub.Settled
import ChainSocket.MsgHub.Sockets
import ChainSocket.Iocp.Writes
import ChainSocket.Iocp.Outstanding
import ChainSocket.Lib.Log
import ChainSocket.Memory.Ledger
import ChainSocket.Memory.Lifecycle
import ChainSocket.Memory.Backing
import ChainSocket.WebSocket.ClientHandshake
import ChainSocket.WebSocket.Residue
import ChainSocket.WebSocket.SharedBuffer
import ChainSocket.Poller.Limit
import ChainSocket.MsgHub.TaskChecks
import ChainSocket.MsgHub.Tasks
import ChainSocket.WebSocket.Sending
import ChainSocket.Lib.Fips180
import ChainSocket.WebSocket.Digest
import ChainSocket.Lib.Base64
import ChainSocket.WebSocket.Reply
import ChainSocket.SelectPoller
import ChainSocket.SelectPoller.Interest
import ChainSocket.SelectPoller.OneShot
import ChainSocket.SelectPoller.Scan
import ChainSocket.Iocp.Uses
import ChainSocket.Iocp.OpenUses
import ChainSocket.Buffer.Storage
import ChainSocket.Timer.Alone
import ChainSocket.WebSocket.RequestLine
import ChainSocket.Poller.Listen
import ChainSocket.Iocp.Listening
import ChainSocket.Iocp.Accepts
import ChainSocket.Iocp.Contexts
import ChainSocket.Backlog
import ChainSocket.WebSocket.Request
import ChainSocket.Lib.Fifo
import ChainSocket.WebSocket.Link
import ChainSocket.WebSocket.InputFrame
import ChainSocket.Poller.Armed
import ChainSocket.Poller.Epoll
import ChainSocket.Timer.Clock
import ChainSocket.MsgHub.Deadlines
import ChainSocket.Lib.Alike
import ChainSocket.WebSocket.Reading
import ChainSocket.WebSocket.StoredLink
import ChainSocket.WebSocket.WiredLink
