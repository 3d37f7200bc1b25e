import Ninjastorms.InterruptTransparency
import Ninjastorms.FirstActivation
import Ninjastorms.Network.RxInterrupt
import Ninjastorms.Network.PacketBytes
import Ninjastorms.Network.ArpExchange
import Ninjastorms.Network.ArpEviction
import Ninjastorms.Lib.TableScan
import Ninjastorms.Libc.AllocatorSafety
import Ninjastorms.Libc.SbrkRuns
import Ninjastorms.Lib.Tiling
import Ninjastorms.Pci.BaseAddresses
import Ninjastorms.SchedulerRuns
import Ninjastorms.Libc.TransientAllocations
import Ninjastorms.Drivers.Gpio
import Ninjastorms.Drivers.UnlistedPins
import Ninjastorms.Libc.PrintfRendering
import Ninjastorms.TaskOrder
import Ninjastorms.SyscallHandler
import Ninjastorms.ClockString
import Ninjastorms.Libc.SignedConversions
import Ninjastorms.Libc.DigitBuffers
import Ninjastorms.Network.EthernetFraming
import Ninjastorms.Network.Ipv4Send
import Ninjastorms.Network.EthernetExhaustion
import Ninjastorms.Network.PayloadReads
import Ninjastorms.Network.PacketOverrun
import Ninjastorms.BootOrder
import Ninjastorms.Network.ReceiveProgress
import Ninjastorms.Network.CardAndHeap
import Ninjastorms.Network.TxRing
import Ninjastorms.Drivers.Devices
import Ninjastorms.InterruptDispatch
import Ninjastorms.Network.AddressResolution
