import AdvCpp.Dpdk.EthdevLifecycle
import AdvCpp.Dpdk.PortId
import AdvCpp.Dpdk.StaticCompat
import AdvCpp.Lib.ChunkedCopy
import AdvCpp.Lib.Exclusive
import AdvCpp.Uring.BatchLoop
import AdvCpp.Uring.EchoBench
import AdvCpp.Uring.EpollEcho
import AdvCpp.Uring.FdQueue
import AdvCpp.Uring.FileCopy
import AdvCpp.Uring.GracefulShutdown
import AdvCpp.Uring.HandlerServers
import AdvCpp.Uring.MultishotFifo
import AdvCpp.Uring.LinkedTimeout
import AdvCpp.Uring.MultithreadEcho
import AdvCpp.Uring.PipelineBuffers
import AdvCpp.Uring.ProvidedEcho
import AdvCpp.Uring.RegisteredSlots
import AdvCpp.Vfio.ConfigDump
import AdvCpp.Vfio.DmaMap
import AdvCpp.Vfio.DriverBinding
import AdvCpp.Vfio.ExactTransfer
import AdvCpp.Vfio.Mapping
import AdvCpp.Vfio.PciCommand
import AdvCpp.Vfio.ResourceTable
import AdvCpp.Vfio.SriovVfs
import AdvCpp.Vfio.VirtioCaps
import AdvCpp.Virtio.ControlTransaction
import AdvCpp.Virtio.Echo
import AdvCpp.Virtio.EchoMemory
import AdvCpp.Virtio.EchoReplies
import AdvCpp.Virtio.Features
import AdvCpp.Virtio.HexOptions
import AdvCpp.Virtio.Interrupts
import AdvCpp.Virtio.IrqRouting
import AdvCpp.Virtio.RxMatch
import AdvCpp.Virtio.RxObserve
import AdvCpp.Virtio.RxReport
import AdvCpp.Virtio.Teardown
import AdvCpp.Virtio.TxFrame
