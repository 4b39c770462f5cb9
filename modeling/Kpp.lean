import Kpp.PacketHooks
import Kpp.NetlinkHandoff
import Kpp.DebugfsTree
import Kpp.UniqueOwnership
import Kpp.UniqueStorage
import Kpp.DeviceClasses
import Kpp.NetDeviceRefs
import Kpp.XdpSlots
import Kpp.KernelNames
import Kpp.TimerProtocol
import Kpp.EchoStream
import Kpp.EchoModule
import Kpp.FirewallModule
import Kpp.DeferredWork
import Kpp.HashBuckets
import Kpp.FileDispatch
import Kpp.SharedThreadsCorrect
import Kpp.SharedReclaim
import Kpp.SharedAssign
import Kpp.IoctlDispatch
import Kpp.HashMapMemory
import Kpp.KernelRegistrations
import Kpp.StringParams
import Kpp.EchoFaults
import Kpp.EchoWords
import Kpp.FirewallPackets
import Kpp.UniqueChains
import Kpp.ExpectedLifetimes
import Kpp.HashFrames
import Kpp.BucketFaults
import Kpp.ViewEquality
import Kpp.DeferredFunctors
import Kpp.AtomicCounter
import Kpp.StringPages
import Kpp.KernelLog
import Kpp.KfreeLookup
import Kpp.IntrusiveLists
import Kpp.HeldLocks
import Kpp.ScopedLocks
import Kpp.EchoBoard
import Kpp.EchoGuards
import Kpp.HashRings
import Kpp.SharedCycles
import Kpp.CallResolution
import Kpp.KernelHandles
import Kpp.WrapperCalls
import Kpp.Krefs
import Kpp.ListIterators
import Kpp.IoctlRuns
import Kpp.KObjectTrees
import Kpp.NotifierChains
import Kpp.FirewallTraffic
import Kpp.StatusModule
