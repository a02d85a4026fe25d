import MmrService.Lib.Transition
import MmrService.Lib.SortedMap
import MmrService.Lib.Word
import MmrService.Lib.Chain
import MmrService.Lib.Bytes
import MmrService.Lib.Mutex
import MmrService.Lib.Scan
import MmrService.Lib.Effect
import MmrService.Lib.SplitCount
import MmrService.Lib.NodeStore
import MmrService.ChunkAllocator
import MmrService.ChunkCache
import MmrService.ChunkBytes
import MmrService.ChunkSizes
import MmrService.Matrix
import MmrService.MatrixBlocks
import MmrService.MatrixFits
import MmrService.MatrixValues
import MmrService.ChunkLimit
import MmrService.ChunkLockFree
import MmrService.ChunkOwnership
import MmrService.StackLockFree
import MmrService.StackSafe
import MmrService.BigBuff
import MmrService.LogFiles
import MmrService.Logger
import MmrService.LoggerFill
import MmrService.LoggerBytes
import MmrService.LoggerOrder
import MmrService.LoggerSync
import MmrService.LogRotate
import MmrService.BufConvert
import MmrService.DataStream
import MmrService.DataReads
import MmrService.ProtoCodec
import MmrService.ProtoFrame
import MmrService.ProtoDecode
import MmrService.ProtoBounds
import MmrService.ProtoRoundTrip
import MmrService.ProtoEndian
import MmrService.ProtoServer
import MmrService.ProtoEcho
import MmrService.ProtoExact
import MmrService.ProtoLogin
import MmrService.ProtoFraming
import MmrService.ProtoRpc
import MmrService.RpcCalls
import MmrService.RpcNumbers
import MmrService.RpcWait
import MmrService.AdlerSums
import MmrService.AdlerBuilds
import MmrService.ServiceIndex
import MmrService.ServicePolicies
import MmrService.EventCtrl
import MmrService.EventOrder
import MmrService.EventReentry
import MmrService.EventFailure
import MmrService.JsonValue
import MmrService.JsonParse
import MmrService.JsonGrammar
import MmrService.JsonTokens
import MmrService.JsonNumbers
import MmrService.JsonReads
import MmrService.JsonBounds
import MmrService.JsonPlaces
import MmrService.JsonText
import MmrService.JsonExponents
import MmrService.JsonAccepts
import MmrService.JsonDocument
import MmrService.JsonDecode
import MmrService.JsonLapses
import MmrService.JsonEnds
import MmrService.JsonRefuses
import MmrService.JsonLayout
import MmrService.JsonDump
import MmrService.JsonSpells
import MmrService.JsonWeights
import MmrService.JsonNodes
import MmrService.JsonAliasing
import MmrService.Framework
import MmrService.FrameworkFrame
import MmrService.FrameworkUndo
import MmrService.FrameworkCycles
import MmrService.FrameworkOrder
import MmrService.ThreadPool
import MmrService.ThreadPoolTasks
import MmrService.ThreadPoolSize
import MmrService.ThreadPoolGrowth
import MmrService.ThreadPoolStops
import MmrService.ThreadPoolExit
import MmrService.ThreadPoolThrow
import MmrService.FixedAllocator
import MmrService.FixedRelease
import MmrService.ChunkCalls
import MmrService.FixedCalls
import MmrService.FixedMake
import MmrService.SmallAllocator
import MmrService.Base64
import MmrService.Base64RoundTrip
import MmrService.Base64Bounds
import MmrService.AdlerRfc
import MmrService.Command
import MmrService.CommandSetting
import MmrService.CommandEnd
import MmrService.NetBuffer
import MmrService.NetBufferFifo
import MmrService.Variant
import MmrService.VariantValues
import MmrService.VariantOwnership
import MmrService.TypeDict
import MmrService.TypeDictSet
import MmrService.Lib.HeapOrder
import MmrService.Heap
import MmrService.HeapLinks
import MmrService.HeapOps
import MmrService.Timers
import MmrService.TimersLife
import MmrService.TimersDue
import MmrService.Queue
import MmrService.Hio
import MmrService.HioQueue
import MmrService.HioStream
import MmrService.HioRun
import MmrService.HioDrain
import MmrService.HioEvents
import MmrService.CustomEvents
import MmrService.CustomEventsOnce
import MmrService.CustomEventsRun
import MmrService.EventLoop
import MmrService.Lib.Framing
import MmrService.Unpack
import MmrService.UnpackHeads
import MmrService.UnpackLoops
import MmrService.UnpackRun
import MmrService.UnpackStream
import MmrService.Connection
import MmrService.TcpServer
import MmrService.TcpConnections
