import Iceslab.Agent.ChainManagerKept
import Iceslab.Agent.FirewallKept
import Iceslab.Agent.FirewallWriters
import Iceslab.Agent.PushFirewall
import Iceslab.Agent.RestartKept
import Iceslab.CascadeExclusive
import Iceslab.ChainConfig
import Iceslab.ChainInput
import Iceslab.ChainLoads
import Iceslab.ChainPolicy
import Iceslab.DirectionMerge
import Iceslab.DirectionPreserved
import Iceslab.DrawnCascade
import Iceslab.EntryGate
import Iceslab.LegAcceptance
import Iceslab.LegStability
import Iceslab.Lib.CachedSet
import Iceslab.Lib.Checked
import Iceslab.Lib.FirstMatch
import Iceslab.Lib.JsText
import Iceslab.Lib.Json
import Iceslab.Lib.Ledger
import Iceslab.Lib.Machine
import Iceslab.Lib.Names
import Iceslab.Lib.OrderedMap
import Iceslab.Lib.RuleRun
import Iceslab.LinkCred
import Iceslab.LinkIngress
import Iceslab.Links
import Iceslab.NodeInputs
import Iceslab.NodePush
import Iceslab.NodeRouting
import Iceslab.PolicyEntries
import Iceslab.SavedTopology
import Iceslab.SingboxConfig
import Iceslab.SingboxRouting
import Iceslab.Topology
import Iceslab.TopologyWriter
import Iceslab.TrafficDeltas
import Iceslab.TunnelPool
import Iceslab.UserStatus
import Iceslab.XrayRouting
import Iceslab.GeoAddress
import Iceslab.GeoMessages
import Iceslab.GeoWalk
import Iceslab.Lib.FreeSlots
import Iceslab.PeerAllocation
import Iceslab.PeersKept
import Iceslab.Agent.CertStore
import Iceslab.Agent.CertStoreKept
import Iceslab.Awg3Geometry
import Iceslab.Agent.Geometry3
import Iceslab.GeometryAgreed
import Iceslab.Agent.Amneziawg
import Iceslab.Agent.AmneziawgAdapter
import Iceslab.Agent.AmneziawgSaved
import Iceslab.Agent.AmneziawgRestart
import Iceslab.Agent.Hysteria
import Iceslab.Agent.Mieru
import Iceslab.Agent.Singbox
import Iceslab.Agent.SingboxAdapter
import Iceslab.Agent.AmneziawgRetry
import Iceslab.Agent.FailedPush
import Iceslab.BindingsCache
import Iceslab.CascadeEntries
import Iceslab.Lib.Rendezvous
import Iceslab.CascadeDealt
import Iceslab.UserSync
import Iceslab.UserSyncAgreed
import Iceslab.DeviceRules
import Iceslab.DeviceMatchers
import Iceslab.DevicePrograms
import Iceslab.DeviceSingbox
import Iceslab.DeviceClash
import Iceslab.DeviceRulesAgree
import Iceslab.UserReach
import Iceslab.StoredSubnet
import Iceslab.InboundSchemas
import Iceslab.SubscriptionXray
import Iceslab.SubscriptionXrayAgreed
import Iceslab.Lib.JsonText
import Iceslab.AwgClient
import Iceslab.Lib.IniText
import Iceslab.AwgClientAgreed
import Iceslab.Lib.Async
import Iceslab.AuthRequests
import Iceslab.AuthCalls
import Iceslab.SecondFactor
import Iceslab.SessionsEnded
import Iceslab.NodePolicies
import Iceslab.PolicySaved
import Iceslab.HwidDevices
import Iceslab.HwidLimits
import Iceslab.NodePoll
import Iceslab.NodePollKept
import Iceslab.CoreVersions
import Iceslab.CoreVersionsJudged
import Iceslab.LogRedact
import Iceslab.LogRedactKept
import Iceslab.Lib.UrlHost
import Iceslab.GuardedFetch
import Iceslab.GuardedFetchInside
import Iceslab.Lib.Tickets
import Iceslab.LoginCap
import Iceslab.LoginCapAccounted
import Iceslab.Agent.XrayCounters
import Iceslab.Agent.GeoStore
import Iceslab.Agent.XrayCumulative
import Iceslab.Agent.GeoStoreKept
import Iceslab.Agent.HysteriaUsers
import Iceslab.Agent.HysteriaUsersKept
import Iceslab.Agent.XrayRender
import Iceslab.Agent.XrayInbound
import Iceslab.Agent.XrayRendered
import Iceslab.Agent.XrayLive
import Iceslab.Agent.XrayLiveKept
import Iceslab.Lib.YamlLines
import Iceslab.Agent.HysteriaRead
import Iceslab.RosterSend
import Iceslab.Lib.QuickText
import Iceslab.Agent.LegTunnelRead
import Iceslab.GeoCursor
import Iceslab.GeoTruncated
import Iceslab.GeoFormats
import Iceslab.GeoFormatsRead
import Iceslab.Lib.JsNumeral
import Iceslab.Lib.IpLiteral
import Iceslab.Lib.Tally
import Iceslab.StatsWrites
import Iceslab.Agent.HopGuard
import Iceslab.Agent.HopGuardKept
import Iceslab.Agent.HopKeep
import Iceslab.Lib.BitTrie
import Iceslab.Lib.ByteBits
import Iceslab.MmdbTree
import Iceslab.MmdbCountries
import Iceslab.LinkCap
import Iceslab.LegKnobs
import Iceslab.LegReality
import Iceslab.DirectionClaims
import Iceslab.ReceivingWalks
import Iceslab.LegacyPorts
import Iceslab.RuleSetNames
import Iceslab.Lib.Grants
import Iceslab.RouteProfiles
import Iceslab.SquadGrants
import Iceslab.PolicyVariants
import Iceslab.Lib.BitRegister
import Iceslab.Base32
import Iceslab.Lib.JsonDoc
import Iceslab.Lib.JsonSame
import Iceslab.RenderDrift
import Iceslab.Agent.SupervisorRestarts
import Iceslab.Agent.SupervisorChain
import Iceslab.GeoEncode
import Iceslab.GeoRuleSets
import Iceslab.GeoRoundTrip
import Iceslab.Heartbeat
import Iceslab.HeartbeatKept
import Iceslab.AwgClientKey
