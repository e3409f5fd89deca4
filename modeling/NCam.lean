import NCam.Lib.Transition
import NCam.Lock.Model
import NCam.Lock.Exclusion
import NCam.Tommy.Hashlin
import NCam.Tommy.Table
import NCam.Cacheex.HitCache
import NCam.Lib.Ownership
import NCam.Tommy.Sort
import NCam.Cache.Consistency
import NCam.Cache.Model
import NCam.Cache.Order
import NCam.Lib.Chain
import NCam.LList.Invariant
import NCam.LList.Runs
import NCam.Newcamd.Des
import NCam.Lib.Blocks
import NCam.Newcamd.Frame
import NCam.Ecm.GetCw
import NCam.Ecm.Request
import NCam.Cccam.ReaderIds
import NCam.Lib.Memory
import NCam.Util.Bytes
import NCam.Cacheex.Push
import NCam.Cacheex.RoundTrip
import NCam.Util.Strings
import NCam.Cacheex.Filter
import NCam.Cccam.Card
import NCam.Cccam.CardList
import NCam.Ecm.CwCache
import NCam.Cccam.Crypt
import NCam.Lib.Stream
import NCam.Cccam.Link
import NCam.Cccam.Agreement
import NCam.Cccam.WriteCard
import NCam.Cccam.CardRoundTrip
import NCam.CwCycle.Check
import NCam.CwCycle.Stages
import NCam.Ecm.Answer
import NCam.Ecm.AnswerOnce
import NCam.Ecm.AskReaders
import NCam.Ecm.Escalation
import NCam.Ecm.Outcome
import NCam.Ecm.Settled
import NCam.Lib.Counter
import NCam.Cacheex.FeatureTrigger
import NCam.Cacheex.FeatureSend
import NCam.Cacheex.FeatureConfig
import NCam.Cacheex.FeatureConvey
import NCam.Work.Model
import NCam.Work.Invariant
import NCam.Work.Runs
import NCam.Camd35.Frame
import NCam.Lib.Socket
import NCam.Camd35.RequestEmm
import NCam.Camd35.Messages
import NCam.Camd35.CardData
import NCam.Newcamd.Framing
import NCam.Newcamd.CardData
import NCam.Cccam.Requests
import NCam.Cccam.MatchingCard
import NCam.Cccam.SendEcm
import NCam.Cccam.SendEcmCards
import NCam.Cccam.Share
import NCam.Cccam.ShareSync
import NCam.Cccam.ShareRuns
import NCam.Lib.Slots
import NCam.Ratelimit.Model
import NCam.Ratelimit.Slots
import NCam.Ratelimit.Runs
import NCam.ActiveReaders.Order
import NCam.Lib.Undo
import NCam.Gbox.Cipher
import NCam.Gbox.CardList
import NCam.Gbox.CardSelection
import NCam.Gbox.SendEcm
import NCam.Casc.Proxies
import NCam.Gbox.SendLimits
import NCam.Casc.Answers
import NCam.Gbox.Answers
import NCam.Gbox.ForwardEcm
import NCam.Util.Printf
import NCam.Util.Tokens
import NCam.Conf.Caidtab
import NCam.Conf.Ftab
import NCam.Dvbapi.Demuxers
import NCam.Lib.Walks
import NCam.Dvbapi.Listing
import NCam.Dvbapi.Allocation
import NCam.Dvbapi.StopFilter
import NCam.Clients.Duplicates
import NCam.Capmt.Demuxers
import NCam.Capmt.Runs
import NCam.Capmt.Parse
import NCam.Capmt.StreamAssociation
import NCam.Capmt.Reads
import NCam.Capmt.ReadBounds
import NCam.Gbox.Remm
import NCam.Gbox.Hello
import NCam.Gbox.ReceiveBounds
import NCam.Conf.EcmWhitelist
import NCam.Conf.Whitelist
import NCam.Conf.CacheexEntry
import NCam.Util.Decimal
import NCam.Conf.CacheexValuetab
import NCam.Conf.CacheexChecks
import NCam.Util.HexBytes
import NCam.Conf.AesKeys
import NCam.Lib.MaximalRuns
import NCam.Conf.AllowedTimeframe
import NCam.Conf.NewcamdPort
import NCam.Conf.NewcamdPortText
import NCam.Conf.NewcamdPortReread
import NCam.Conf.Services
import NCam.Conf.Sidtab
import NCam.Lib.BitSet
import NCam.Clients.Failban
import NCam.Emm.EmmCache
import NCam.Cacheex.HitCacheDelete
import NCam.Conf.Caidvaluetab
import NCam.Conf.Tuntab
import NCam.Garbage.Collector
import NCam.Ecm.RequestSent
import NCam.Stat.StatFile
import NCam.Gbox.HelloExchange
import NCam.Gbox.HelloReceive
import NCam.Lib.Lowest
import NCam.Stat.BestChosen
import NCam.Stat.BestMarked
import NCam.Lib.Calendar
import NCam.Util.Time
import NCam.Conf.Groups
import NCam.Util.Base64
import NCam.Conf.WhitelistCheck
import NCam.Ecm.Betatunnel
import NCam.Ecm.ChkClass
import NCam.Lock.Releases
import NCam.Ecm.AnswerChecks
import NCam.Ecm.Ecmfmt
import NCam.Ecm.HeaderReads
import NCam.Lib.Reads
import NCam.Ecm.HeaderInside
import NCam.Cccam.Login
import NCam.Cccam.MsgRecv
import NCam.Cccam.NextEcm
import NCam.Cccam.Ua
import NCam.Cacheex.PushReads
import NCam.Cacheex.FeatureMerge
import NCam.Camd35.RecvWrites
import NCam.Newcamd.UserFtab
import NCam.Stat.Betatunnel
import NCam.LList.Sweep
import NCam.Casc.BackOff
import NCam.Lib.Signed
import NCam.Stat.ReopenTimes
import NCam.Emm.SortNanos
import NCam.Lib.Buckets
import NCam.Ratelimit.Cooldown
import NCam.Ecm.Pending
import NCam.Dvbapi.EmmFilters
import NCam.Dvbapi.EcmOrder
import NCam.Dvbapi.EcmPids
import NCam.Dvbapi.UnusedStreams
import NCam.CardReader.Atr
import NCam.CardReader.ProtocolT1
import NCam.Stat.StatList
import NCam.Conf.SelectedNames
