import Sylar.Core.Splice
import Sylar.Core.Run
import Sylar.Core.LeBytes
import Sylar.Core.OrdSet
import Sylar.Core.Scan
import Sylar.Core.Parts
import Sylar.Core.Text
import Sylar.ByteArray.Model
import Sylar.ByteArray.Invariant
import Sylar.ByteArray.Refine
import Sylar.ByteArray.Codec
import Sylar.ByteArray.Scatter
import Sylar.ByteArray.Zigzag64
import Sylar.ByteArray.Strings
import Sylar.ByteArray.Atomic
import Sylar.ByteArray.Positional
import Sylar.ByteArray.File
import Sylar.Timer.Model
import Sylar.Timer.Invariant
import Sylar.Timer.Delivery
import Sylar.Timer.Writes
import Sylar.Timer.Wakeup
import Sylar.Timer.Expiry
import Sylar.Timer.Gap
import Sylar.Timer.Handles
import Sylar.Scheduler.Fibers
import Sylar.Scheduler.Queue
import Sylar.IOManager.Events
import Sylar.IOManager.Accounting
import Sylar.IOManager.Contexts
import Sylar.IOManager.Table
import Sylar.IOManager.Resumption
import Sylar.IOManager.Shutdown
import Sylar.Hook.Flags
import Sylar.Hook.DoIo
import Sylar.Hook.Blocking
import Sylar.Http.Message
import Sylar.Http.Stream
import Sylar.IOManager.Timeout
import Sylar.Http.RequestMachine
import Sylar.Http.ResponseMachine
import Sylar.Http.RequestParser
import Sylar.Http.ResponseParser
import Sylar.Http.RequestHead
import Sylar.Http.Session
import Sylar.Http.Server
import Sylar.Http.Connection
import Sylar.Http.Chunked
import Sylar.Http.ResponseCut
import Sylar.Http.HeadWalk
import Sylar.Http.Dump
import Sylar.Http.RequestWalk
import Sylar.Http.RequestDump
import Sylar.Http.Servlet
import Sylar.Config.Listener
import Sylar.Http.Pool
import Sylar.Uri.Machine
import Sylar.Uri.Parts
import Sylar.Uri.Reading
import Sylar.Uri.Transitions
import Sylar.Uri.Components
import Sylar.Uri.Print
import Sylar.Core.Words
import Sylar.Hook.Sleep
import Sylar.Hook.Timeouts
import Sylar.Hook.FdManager
import Sylar.Socket.Cancel
import Sylar.Scheduler.RunLoop
import Sylar.Http.Body
import Sylar.Http.Failure
import Sylar.Http.PoolAge
import Sylar.Http.DoRequest
import Sylar.Socket.Ssl
import Sylar.Util.Url
import Sylar.Http.Map
import Sylar.Http.Params
import Sylar.Http.LazyParams
import Sylar.Http.Method
import Sylar.Http.SetCookie
import Sylar.Address.Model
import Sylar.Address.IPv4Text
import Sylar.Address.IPv6Text
import Sylar.Address.IPv4Subnet
import Sylar.Address.IPv6Subnet
import Sylar.Core.Lex
import Sylar.Util.Trim
import Sylar.Address.Order
import Sylar.Address.Lookup
import Sylar.Uri.Port
import Sylar.Config.FromString
import Sylar.Config.Yaml
import Sylar.Config.Load
import Sylar.Config.TcpServerConf
import Sylar.Http.FixSize
import Sylar.Scheduler.Starvation
import Sylar.Scheduler.Switch
import Sylar.Hook.Connect
import Sylar.Hook.Descriptors
import Sylar.Http.PoolRequest
import Sylar.Config.Casts
import Sylar.Http.HeadRows
import Sylar.Http.Received
import Sylar.Http.Forward
