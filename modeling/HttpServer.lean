import HttpServer.AcceptLoop
import HttpServer.BoundedQueue
import HttpServer.Bytes
import HttpServer.ClientExchange
import HttpServer.Confinement
import HttpServer.Connection
import HttpServer.ConnectionLifetime
import HttpServer.ConnectionProgress
import HttpServer.ConnectionRuns
import HttpServer.Deadlines
import HttpServer.DescriptorOwnership
import HttpServer.DispatchOrder
import HttpServer.EndReasons
import HttpServer.ExceptionSafety
import HttpServer.FdCustody
import HttpServer.FdObjects
import HttpServer.FileStreams
import HttpServer.FileSystem
import HttpServer.HeadRequests
import HttpServer.HeaderLines
import HttpServer.HeaderMap
import HttpServer.Lib.AtomicObject
import HttpServer.Lib.Custody
import HttpServer.Lib.LexicalWalk
import HttpServer.Lib.Lifecycle
import HttpServer.Lib.LineReader
import HttpServer.Lib.Occurrence
import HttpServer.Lib.PathWalk
import HttpServer.Lib.PrefixCode
import HttpServer.Lib.Ranking
import HttpServer.Lib.ServiceOrder
import HttpServer.Lib.Sessions
import HttpServer.Lib.Threads
import HttpServer.Lib.Transition
import HttpServer.Lib.Unwinding
import HttpServer.OutsideFiles
import HttpServer.Parser
import HttpServer.ParserGrammar
import HttpServer.ParserStream
import HttpServer.PercentEncoding
import HttpServer.Persistence
import HttpServer.Process
import HttpServer.ProcessInvariant
import HttpServer.ProcessRules
import HttpServer.QueueCalls
import HttpServer.QueueFifo
import HttpServer.QueueLinearizability
import HttpServer.QueueWakeups
import HttpServer.Reference
import HttpServer.RequestNormalForm
import HttpServer.RequestReaders
import HttpServer.Response
import HttpServer.ResponseStream
import HttpServer.Router
import HttpServer.ServedConnections
import HttpServer.ServedTotals
import HttpServer.Server
import HttpServer.ServerCalls
import HttpServer.ServerConstruction
import HttpServer.ServerCounters
import HttpServer.ServerOwnership
import HttpServer.ServerRest
import HttpServer.Shutdown
import HttpServer.StaticFileHandler
import HttpServer.TargetDecoding
