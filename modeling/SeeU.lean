import SeeU.TransitionSystem
import SeeU.Responder
import SeeU.RequestNetwork
import SeeU.StreamFraming
import SeeU.DoubleIndex
import SeeU.KeyedLog
import SeeU.KeyedIndex
import SeeU.NestedMap
import SeeU.JavaString
import SeeU.FileTree
import SeeU.Utf8Decoding
import SeeU.WireVarint
import SeeU.WireField
import SeeU.WireMessage
import SeeU.WireMerge
import SeeU.WireSize
import SeeU.RpcMsg
import SeeU.RpcPipeline
import SeeU.RpcClientHandler
import SeeU.RpcClientHandlerMoves
import SeeU.RpcClientHandlerInvariant
import SeeU.RpcClientHandlerCorrelation
import SeeU.RpcClientHandlerDelivery
import SeeU.RpcClientHandlerLoss
import SeeU.RpcClientHandlerCleanup
import SeeU.RpcClientHandlerPool
import SeeU.DiscoverMsg
import SeeU.FuncUtil
import SeeU.MsgSeqFields
import SeeU.DiscoverClient
import SeeU.RpcClientManger
import SeeU.RpcClientRegistry
import SeeU.RpcClientBroadcast
import SeeU.RpcClientRequest
import SeeU.RequestCreation
import SeeU.DiscoverHandler
import SeeU.DiscoverAnswer
import SeeU.DiscoverIsolation
import SeeU.DiscoverSequential
import SeeU.UserConnectionMgr
import SeeU.UserConnectionIdentity
import SeeU.UserConnectionIndex
import SeeU.UserConnectionCleanup
import SeeU.UserConnectionCreation
import SeeU.AccessWebsocketHandler
import SeeU.RedisOps
import SeeU.WebsocketPipeline
import SeeU.WebsocketCharset
import SeeU.BinaryReader
import SeeU.ParserAgreement
import SeeU.ReaderDivergence
import SeeU.MessageSize
import SeeU.RpcInvokerHolder
import SeeU.RpcDispatch
import SeeU.RpcServerHandler
import SeeU.RpcCoalescing
import SeeU.DiscoverExchange
import SeeU.DiscoverEventLoops
import SeeU.DiscoverEventOrder
import SeeU.DiscoverNetwork
import SeeU.DiscoverNetworkAnswers
import SeeU.DiscoverNetworkRegistry
import SeeU.DiscoverLifecycle
import SeeU.DiscoverHealing
import SeeU.DiscoverShutdown
import SeeU.PackageUtil
import SeeU.PackageScan
import SeeU.PackageAgreement
import SeeU.PackageCache
