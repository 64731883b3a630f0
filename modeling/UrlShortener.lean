import UrlShortener.Base.Bytes
import UrlShortener.Base.CString
import UrlShortener.Base.Json
import UrlShortener.Base.JsonText
import UrlShortener.Base.JsonRoundTrip
import UrlShortener.Base.Machine
import UrlShortener.Http.Message
import UrlShortener.Http.ProtocolUtils
import UrlShortener.Http.Conn
import UrlShortener.Http.Stream
import UrlShortener.Http.RequestLine
import UrlShortener.Http.Wire
import UrlShortener.Http.Refine
import UrlShortener.Http.Reading
import UrlShortener.Http.Fragment
import UrlShortener.Http.Writing
import UrlShortener.Http.ReadBuffer
import UrlShortener.Http.LineText
import UrlShortener.Http.BodyFraming
import UrlShortener.Http.Router
import UrlShortener.Server.Session
import UrlShortener.Server.Interleaving
import UrlShortener.Server.Generation
import UrlShortener.Server.Rounds
import UrlShortener.Server.Framing
import UrlShortener.Server.Pipeline
import UrlShortener.Server.Ownership
import UrlShortener.Base.Threads
import UrlShortener.ShortUrl.Snowflake
import UrlShortener.ShortUrl.SingleFlight
import UrlShortener.ShortUrl.FlightSafety
import UrlShortener.ShortUrl.FlightKeys
import UrlShortener.ShortUrl.FlightProgress
import UrlShortener.Base.FifoMap
import UrlShortener.Base.DoublyLinked
import UrlShortener.ShortUrl.LocalCache
import UrlShortener.ShortUrl.LocalCacheSpec
import UrlShortener.ShortUrl.LocalCacheBudget
import UrlShortener.ShortUrl.Codes
import UrlShortener.ShortUrl.RedisCodec
import UrlShortener.ShortUrl.Repository
import UrlShortener.Mysql.Pool
import UrlShortener.Analytics.Producer
import UrlShortener.Analytics.ClickQueue
import UrlShortener.Analytics.Worker
import UrlShortener.Consumer.Click
import UrlShortener.Consumer.ClickDelivery
import UrlShortener.Consumer.Python
import UrlShortener.Consumer.ClickFormat
import UrlShortener.Handler.OriginBudget
import UrlShortener.Handler.Redirect
import UrlShortener.Handler.Shorten
import UrlShortener.Handler.Transparency
import UrlShortener.Handler.Concurrent
import UrlShortener.Handler.Race
import UrlShortener.Handler.Created
import UrlShortener.Handler.Expiry
import UrlShortener.Server.SlotLife
import UrlShortener.ShortUrl.SnowflakeOverflow
import UrlShortener.ShortUrl.LocalCacheFrame
import UrlShortener.Server.ThreadPool
import UrlShortener.ShortUrl.Sharding
import UrlShortener.Base.PackedBits
import UrlShortener.ShortUrl.BloomFilter
import UrlShortener.Server.TimerRuns
import UrlShortener.Handler.Publish
import UrlShortener.Base.CrlfText
import UrlShortener.Http.ResponseText
import UrlShortener.Handler.Location
import UrlShortener.Base.JsonLength
import UrlShortener.Handler.Routes
import UrlShortener.Http.ResponseSize
import UrlShortener.Handler.Sizes
import UrlShortener.Http.FieldLines
import UrlShortener.Http.Recase
import UrlShortener.Http.RecaseRun
import UrlShortener.Observability.StructuredLogger
import UrlShortener.Handler.Access
import UrlShortener.Base.Positional
import UrlShortener.ShortUrl.Base62
import UrlShortener.Handler.Minted
import UrlShortener.Http.ContentLength
import UrlShortener.Base.Calendar
import UrlShortener.Handler.Datetime
import UrlShortener.Base.Ring
import UrlShortener.Log.BlockQueue
import UrlShortener.Log.WriteLog
import UrlShortener.Log.Peeks
import UrlShortener.ShortUrl.OriginGuard
import UrlShortener.Base.JsonBroken
import UrlShortener.Handler.AccessLines
import UrlShortener.Handler.Agreement
import UrlShortener.Base.SortedMap
import UrlShortener.Base.Sharded
import UrlShortener.Base.Exposition
import UrlShortener.Observability.MetricsRegistry
import UrlShortener.Observability.Scrape
import UrlShortener.Base.Scan
import UrlShortener.Observability.Scraping
import UrlShortener.Observability.LogWorker
import UrlShortener.Observability.LogLines
import UrlShortener.Observability.LogShutdown
import UrlShortener.ShortUrl.RedisHealth
import UrlShortener.ShortUrl.RedisProbe
import UrlShortener.ShortUrl.RedisRecovery
import UrlShortener.Base.JsonDump
import UrlShortener.Server.Exchange
import UrlShortener.Handler.Client
import UrlShortener.Handler.Kept
import UrlShortener.Handler.Service
import UrlShortener.Handler.Promise
