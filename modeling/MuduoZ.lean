import MuduoZ.Lib.Decimal
import MuduoZ.Lib.Fifo
import MuduoZ.Lib.Framing
import MuduoZ.Lib.Loop
import MuduoZ.Lib.Monitor
import MuduoZ.Lib.Rendezvous
import MuduoZ.Lib.Odometer
import MuduoZ.Lib.Records
import MuduoZ.Lib.Run
import MuduoZ.Lib.Search
import MuduoZ.Lib.Slots
import MuduoZ.Lib.SortedMap
import MuduoZ.Fault
import MuduoZ.Buffer
import MuduoZ.ReadBlocks
import MuduoZ.BufferQueue
import MuduoZ.HttpRequest
import MuduoZ.HttpFormat
import MuduoZ.RequestLine
import MuduoZ.HttpLines
import MuduoZ.ParseBounds
import MuduoZ.BlankLine
import MuduoZ.HttpChunks
import MuduoZ.HttpRoundTrip
import MuduoZ.Channel
import MuduoZ.ChannelCalls
import MuduoZ.Connection
import MuduoZ.ReadEvent
import MuduoZ.OutputStream
import MuduoZ.BufferMemory
import MuduoZ.OutputWatch
import MuduoZ.Shutdown
import MuduoZ.Closed
import MuduoZ.Acceptor
import MuduoZ.AcceptDrain
import MuduoZ.TcpServer
import MuduoZ.ConnectionTable
import MuduoZ.CountDownLatch
import MuduoZ.ThreadStart
import MuduoZ.ThreadPool
import MuduoZ.ConnectionCalls
import MuduoZ.ServerRun
import MuduoZ.ServerView
import MuduoZ.ServerFrame
import MuduoZ.Lifetime
import MuduoZ.ServerStream
import MuduoZ.Destroyed
import MuduoZ.HttpServer
import MuduoZ.ResponseStream
import MuduoZ.KeepAlive
import MuduoZ.WholeResponses
import MuduoZ.HttpSession
import MuduoZ.BadRequest
import MuduoZ.EventLoop
import MuduoZ.TaskOrder
import MuduoZ.TaskResponse
import MuduoZ.QuitLoop
import MuduoZ.FixedBuffer
import MuduoZ.AsyncLogging
import MuduoZ.LogDelivery
import MuduoZ.LogOrder
import MuduoZ.LogStop
import MuduoZ.LogBuffers
import MuduoZ.LogFile
import MuduoZ.LogFiles
import MuduoZ.IntegerFormat
import MuduoZ.LogStream
import MuduoZ.LogLine
import MuduoZ.TimerWheel
import MuduoZ.TimerPlacement
import MuduoZ.TimerCursors
import MuduoZ.TimerDue
import MuduoZ.TimerRun
import MuduoZ.TimerOdometer
import MuduoZ.TimerOnTime
import MuduoZ.TimerKept
import MuduoZ.TimerCancel
import MuduoZ.TimerDrift
import MuduoZ.TimerInsert
import MuduoZ.TimerCascade
import MuduoZ.TimerRemaining
import MuduoZ.TimerDeadline
import MuduoZ.RelativeTimer
import MuduoZ.WheelIndex
