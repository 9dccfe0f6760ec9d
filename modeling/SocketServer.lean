import SocketServer.Tcp.UploadOrder
import SocketServer.Tcp.FileSession
import SocketServer.Http.FieldOrder
import SocketServer.Http.Size
import SocketServer.Http.Buffering
import SocketServer.Http.HeaderLimit
import SocketServer.Http.Store
import SocketServer.Capture.Verdict
import SocketServer.Capture.Decoding
import SocketServer.Capture.CpuBinding
import SocketServer.Capture.Fragments
import SocketServer.Capture.Handshake
import SocketServer.Capture.Opening
import SocketServer.Replay.Checksum
import SocketServer.Replay.Checksum6
import SocketServer.Replay.Fragments
import SocketServer.Replay.UdpChecksum
import SocketServer.Replay.Truncated
import SocketServer.Replay.Recorded
import SocketServer.Listen.Consumers
import SocketServer.Listen.Requests
import SocketServer.Upgrade.Restart
import SocketServer.Upgrade.Supervisor
