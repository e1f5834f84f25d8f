import Meliproxy.Ratelimit.ConfigWalk
import Meliproxy.Ratelimit.Statistics
import Meliproxy.Envoy.Filesystem.FileImplRuns
import Meliproxy.Envoy.Redis.CommandSplitterCombine
import Meliproxy.Envoy.Http.EdgeSanitize
import Meliproxy.Logs.WatchRuns
import Meliproxy.Envoy.Router.VirtualHost
import Meliproxy.Envoy.Redis.Client
import Meliproxy.Envoy.Http.Http1PoolPurge
import Meliproxy.Envoy.Http.Http2PoolRuns
import Meliproxy.Envoy.Redis.ProxyFilterOrder
import Meliproxy.Envoy.Router.FilterReplay
import Meliproxy.Envoy.RateLimit.TcpFilterRuns
import Meliproxy.Envoy.RateLimit.HttpFilterRuns
import Meliproxy.Envoy.Http.Http1Framing
import Meliproxy.Envoy.Http.Http1ClientRuns
import Meliproxy.Envoy.Http.WebSocket
import Meliproxy.Envoy.Http.Http1ServerRuns
import Meliproxy.Envoy.Network.ConnectionCloseRuns
import Meliproxy.Envoy.Upstream.SubsetLbSelect
import Meliproxy.Envoy.Upstream.LoadBalancerRuns
import Meliproxy.Envoy.Upstream.OutlierDetectionRuns
import Meliproxy.Envoy.Upstream.EdsClusterRuns
import Meliproxy.Ratelimit.Reload
import Meliproxy.Envoy.Server.ListenerInitRuns
import Meliproxy.Envoy.Server.HotRestartRuns
import Meliproxy.Logs.AccessLogRoundTrip
import Meliproxy.Envoy.Server.StatSlots
import Meliproxy.Envoy.Stats.ThreadLocalStore
import Meliproxy.Envoy.Upstream.ClusterViewsRuns
import Meliproxy.Envoy.Upstream.ClusterUpdate
import Meliproxy.Envoy.Upstream.OriginalDstCluster
import Meliproxy.Envoy.Runtime.SnapshotReload
import Meliproxy.Envoy.Grpc.GrpcWebFilter
import Meliproxy.Envoy.Grpc.AsyncClientRuns
import Meliproxy.Envoy.Http.AsyncClientRuns
import Meliproxy.Envoy.Http.Http2Window
import Meliproxy.Envoy.Upstream.LoadBalancerShares
import Meliproxy.Envoy.Router.WeightedClusters
import Meliproxy.Envoy.Router.RetryBudget
import Meliproxy.Envoy.RateLimit.Descriptors
import Meliproxy.Envoy.Http.Http1OutputBounds
import Meliproxy.Envoy.ThreadLocal.SlotOwnersRuns
import Meliproxy.Envoy.Upstream.OutlierDetectionBlind
import Meliproxy.Envoy.Common.Base64Buffers
import Meliproxy.Envoy.Common.Hex
import Meliproxy.Envoy.Upstream.RingHashConsistency
import Meliproxy.Envoy.Upstream.TcpHealthChecker
import Meliproxy.Envoy.Http.QueryParams
import Meliproxy.Envoy.Mongo.BsonEquality
import Meliproxy.Envoy.Server.InitManager
import Meliproxy.Envoy.Grpc.Codec
import Meliproxy.Envoy.Server.DrainManager
import Meliproxy.Envoy.Http.Http2HeaderLimit
import Meliproxy.Envoy.ThreadLocal.SlotReuse
import Meliproxy.Envoy.Mongo.CodecGrammar
import Meliproxy.Envoy.Upstream.LoadStatsReporter
import Meliproxy.Envoy.Network.AddressText
import Meliproxy.Envoy.Http.AccessLogGrammar
import Meliproxy.Envoy.Network.DnsImpl
