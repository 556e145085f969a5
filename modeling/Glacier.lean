import Glacier.Lib.Machine
import Glacier.Lib.ByteString
import Glacier.Base.LogStream
import Glacier.Base.AsyncLogging
import Glacier.Base.BufferRotation
import Glacier.Base.LogConservation
import Glacier.Base.LogShutdown
import Glacier.Lib.EventFd
import Glacier.Net.Channel
import Glacier.Net.EventLoop
import Glacier.Net.FunctorQueue
import Glacier.Net.QuitRequest
import Glacier.Lib.LowerBound
import Glacier.Lib.Calendar
import Glacier.Lib.ByteReader
import Glacier.Base.TimeZone
import Glacier.Base.LocalTime
import Glacier.Base.ZoneFile
import Glacier.Net.Timer
import Glacier.Http.HttpData
import Glacier.Http.Connection
import Glacier.Http.ReadLoop
import Glacier.Http.HeaderScan
import Glacier.Http.Stages
import Glacier.Http.Framing
import Glacier.Http.Resume
import Glacier.Http.Interest
import Glacier.Net.Connections
import Glacier.Net.ConnectionInv
import Glacier.Net.NoLeak
import Glacier.Http.ChunkIndependence
import Glacier.Lib.Threads
import Glacier.Base.ThreadPool
import Glacier.Base.PoolShutdown
import Glacier.Base.PoolDrain
import Glacier.Lib.CInt
import Glacier.Lib.Gregorian
import Glacier.Base.Date
import Glacier.Base.UtcTime
import Glacier.Lib.Numeral
import Glacier.Base.LogFile
import Glacier.Base.LogTime
import Glacier.Http.HeaderEnd
import Glacier.Http.Session
import Glacier.Http.OutputOrder
import Glacier.Lib.PathWalk
import Glacier.Http.ServedPaths
import Glacier.Http.Independence
import Glacier.Http.ReusedConnection
import Glacier.Lib.UseCount
import Glacier.Net.Descriptors
import Glacier.Net.DescriptorInv
import Glacier.Net.DescriptorReuse
import Glacier.Net.DescriptorRefine
import Glacier.Lib.CharArray
import Glacier.Base.Convert
import Glacier.Base.LogPieces
import Glacier.Base.LogRecord
import Glacier.Http.HeaderBlock
import Glacier.Http.RequestLine
import Glacier.Net.TimerManager
import Glacier.Http.Writen
import Glacier.Http.FileAnswer
import Glacier.Base.JulianDay
import Glacier.Base.TmDate
import Glacier.Lib.ReadNumeral
import Glacier.Base.IntegerText
import Glacier.Base.DailyRoll
import Glacier.Base.AppendReturns
import Glacier.Base.SourceName
import Glacier.Http.HeaderRanges
import Glacier.Http.ContentType
import Glacier.Net.Accepting
import Glacier.Net.SkippedMod
import Glacier.Net.UpdatePoller
import Glacier.Http.ReadRecursion
import Glacier.Net.RecursionBound
import Glacier.Lib.Family
import Glacier.Net.LoopThread
import Glacier.Net.Server
import Glacier.Base.LogPipeline
import Glacier.Lib.Monitor
import Glacier.Base.CountDown
import Glacier.Net.StartLoops
import Glacier.Http.Calls
import Glacier.Net.Footprint
import Glacier.Net.ConnectionCalls
import Glacier.Http.Exchange
import Glacier.Net.ServedClients
import Glacier.Lib.Source
import Glacier.Csapp.Rio
import Glacier.Csapp.Tiny
import Glacier.Csapp.Echo
import Glacier.Lib.TextOrder
import Glacier.Lib.TimeText
import Glacier.Base.Timestamp
import Glacier.Base.LogSorting
import Glacier.Net.OpenSocket
import Glacier.Csapp.Sio
import Glacier.Net.IdleTimeout
