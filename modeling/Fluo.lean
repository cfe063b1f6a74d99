import Fluo.Lib.Heap
import Fluo.Lib.Search
import Fluo.Di.GraphQueries
import Fluo.Di.Registration
import Fluo.Di.PlanCache
import Fluo.Di.QueryAgreement
import Fluo.Di.PlanSoundness
import Fluo.Lib.PostOrder
import Fluo.Lib.Checks
import Fluo.Runtime.ModuleGraph
import Fluo.Runtime.ModuleGraphCorrect
import Fluo.Runtime.ModuleGraphRules
import Fluo.Runtime.PlatformComponents
import Fluo.Runtime.PlatformShell
import Fluo.Runtime.PlatformShellConsistent
import Fluo.Di.Container
import Fluo.Di.Resolution
import Fluo.Di.Disposal
import Fluo.Di.System
import Fluo.Di.Steps
import Fluo.Di.Moves
import Fluo.Di.Effects
import Fluo.Di.Ledger
import Fluo.Di.Records
import Fluo.Di.Tree
import Fluo.Di.ScopeGraph
import Fluo.Di.ScopeSafety
import Fluo.Di.Soundness
import Fluo.Di.Answers
import Fluo.Di.SingletonIdentity
import Fluo.Di.WaitFor
import Fluo.Di.Progress
import Fluo.Lib.Prototypes
import Fluo.Lib.Run
import Fluo.Lib.Code
import Fluo.Http.RateLimit
import Fluo.Cache.Scheduler
import Fluo.Cache.HttpEvictionComplete
import Fluo.Cache.HttpKey
import Fluo.Cache.Service
import Fluo.Cache.ServiceSafety
import Fluo.Cache.ServiceBookkeeping
import Fluo.Cache.ServiceReclaim
import Fluo.Cache.ServiceHeard
import Fluo.Cache.MemoryStoreAtomic
import Fluo.Http.RoutePreference
import Fluo.Http.Middleware
import Fluo.Http.FormatterChoice
import Fluo.Http.ByteRangeExact
import Fluo.Http.AddressNormal
import Fluo.Http.Connection
import Fluo.Http.CookieRoundTrip
import Fluo.Http.Sse
import Fluo.Http.ProxyTrust
import Fluo.Http.ConditionalPolicy
import Fluo.Http.Revalidation
import Fluo.Jwt.RefreshRotation
import Fluo.Jwt.Jwks
import Fluo.Cron.ScheduleConsistent
import Fluo.Cron.TickSafety
import Fluo.Cqrs.Flow
import Fluo.Cqrs.SagaOrder
import Fluo.Cqrs.SagaRoutes
import Fluo.Microservices.StreamDelivery
import Fluo.Microservices.RemoteOutcome
import Fluo.Config.DeepMerge
import Fluo.Config.ReloadConverges
import Fluo.Validation.MappedTypes
import Fluo.Serialization.Faithful
import Fluo.Queue.Ownership
import Fluo.Runtime.ApplicationConverges
import Fluo.React.FormStoreOutcome
import Fluo.Throttler.Guard
import Fluo.Metadata.HierarchyFlow
import Fluo.Websockets.Reservations
import Fluo.Mongoose.RollbackConfirmed
import Fluo.Mongoose.BoundariesBalanced
import Fluo.Websockets.Delivery
import Fluo.Lib.SetMap
import Fluo.Websockets.Rooms
import Fluo.Microservices.BrokerTransports
import Fluo.Runtime.BootstrapReleases
import Fluo.Runtime.Multipart
import Fluo.Runtime.QueryParams
import Fluo.Microservices.TcpFraming
import Fluo.Graphql.RequestLimits
import Fluo.Http.BindingExact
import Fluo.Http.StaticAssets
import Fluo.Core.FallbackCloneIso
import Fluo.I18n.AcceptLanguage
import Fluo.Config.EnvRoundTrip
import Fluo.React.Prefetch
import Fluo.React.PrefetchOwnership
import Fluo.React.PrefetchHistory
import Fluo.React.ServerFunctionsExact
