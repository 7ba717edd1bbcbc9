import TorSocks5.Machine
import TorSocks5.Locked
import TorSocks5.StoreWriter
import TorSocks5.StoreWriterDiscipline
import TorSocks5.StoreWriterClean
import TorSocks5.StoreWriterClose
import TorSocks5.StoreWriterHistory
import TorSocks5.StoreWriterSerial
import TorSocks5.CompanionLock
import TorSocks5.TempFile
import TorSocks5.TempFileCleanup
import TorSocks5.DnsPersist
import TorSocks5.CandidatePool
import TorSocks5.DrainPool
import TorSocks5.DrainPoolKeeps
import TorSocks5.ClientAcl
import TorSocks5.UsersConfig
import TorSocks5.Credentials
import TorSocks5.UsersCommands
import TorSocks5.Server
import TorSocks5.ServerAccounting
import TorSocks5.ServerEgress
import TorSocks5.AuthState
import TorSocks5.AuthCache
import TorSocks5.TrustOnFirstUse
import TorSocks5.UsersFile
import TorSocks5.FirstLogin
import TorSocks5.CommandRun
import TorSocks5.Table
import TorSocks5.DnsAnswers
import TorSocks5.DnsStores
import TorSocks5.DnsGenerations
import TorSocks5.DnsFlush
import TorSocks5.DnsSnapshot
import TorSocks5.BigEndian
import TorSocks5.DnsMessage
import TorSocks5.PacketCache
import TorSocks5.PacketBounds
import TorSocks5.PacketLifetime
import TorSocks5.PacketReload
import TorSocks5.Tally
import TorSocks5.StatisticsStore
import TorSocks5.StatisticsLedger
import TorSocks5.Family
import TorSocks5.StatisticsWorker
import TorSocks5.StatisticsShutdown
import TorSocks5.Text
import TorSocks5.BridgeStore
import TorSocks5.BridgeStoreFile
import TorSocks5.Watchdog
import TorSocks5.TopK
import TorSocks5.Failover
import TorSocks5.ConfigLayout
import TorSocks5.ConfigMigration
import TorSocks5.Custody
import TorSocks5.EngineSlot
import TorSocks5.EngineStatus
import TorSocks5.BootstrapProgress
import TorSocks5.Fragments
import TorSocks5.ChunkedBody
import TorSocks5.ChunkedCoding
import TorSocks5.ChunkedSizes
import TorSocks5.HttpResponse
import TorSocks5.HttpRequest
import TorSocks5.Redirects
import TorSocks5.BridgeRanking
import TorSocks5.LeastRecent
import TorSocks5.CircuitVerification
import TorSocks5.ProbeRounds
import TorSocks5.LocalUpdates
import TorSocks5.GuardObservations
import TorSocks5.OrderedSet
import TorSocks5.PoolRefinement
import TorSocks5.SlotMask
import TorSocks5.Splitting
import TorSocks5.ClientAclParser
import TorSocks5.Pairing
import TorSocks5.ClientAclGrammar
import TorSocks5.ClientAclMeaning
import TorSocks5.Glob
import TorSocks5.DnsOverrides
import TorSocks5.Chain
import TorSocks5.CnameChain
import TorSocks5.NegativeAnswers
import TorSocks5.ReverseNames
import TorSocks5.Latest
import TorSocks5.DnsFile
import TorSocks5.DnsRecency
import TorSocks5.DnsProvenance
import TorSocks5.AddrOrder
import TorSocks5.DnsResolution
import TorSocks5.BridgeTarget
import TorSocks5.ParsedBridges
import TorSocks5.PacketFile
import TorSocks5.DrainProgress
import TorSocks5.TempName
import TorSocks5.BackendPermits
import TorSocks5.OnionAddress
import TorSocks5.EndpointText
import TorSocks5.OnionServices
import TorSocks5.Socks5Client
import TorSocks5.PopularPages
import TorSocks5.InflightLookups
import TorSocks5.InflightSweep
import TorSocks5.RotationPool
