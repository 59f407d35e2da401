import Rs485.Framework.Bits
import Rs485.Framework.Lts
import Rs485.Impl.Modbus.Crc
import Rs485.Impl.Modbus.Functions
import Rs485.Impl.Modbus.Mb
import Rs485.Impl.Modbus.Port
import Rs485.Impl.Modbus.Regs
import Rs485.Impl.Modbus.Rtu
import Rs485.Impl.Modbus.Service
import Rs485.Impl.Modbus.Utils
import Rs485.Proof.Modbus.Store
import Rs485.Spec.Maps
import Rs485.Impl.UsbRs485
import Rs485.Proof.Modbus.Bounds
import Rs485.Proof.Modbus.Coils
import Rs485.Proof.Modbus.Requests
import Rs485.Proof.Modbus.Steps
import Rs485.Proof.Modbus.Transmitter
import Rs485.Proof.UsbRs485.Exclusion
import Rs485.Proof.UsbRs485.Toggle
import Rs485.Proof.Modbus.Dispatch
import Rs485.Proof.Modbus.Events
import Rs485.Proof.Modbus.Runs
import Rs485.Impl.CQueue
import Rs485.Impl.Logger
import Rs485.Impl.Transfer
import Rs485.Impl.UsbDevice
import Rs485.Impl.Zigbee.Poll
import Rs485.Proof.CQueue
import Rs485.Proof.Transfer
import Rs485.Proof.UsbRs485.Logger
import Rs485.Proof.Zigbee.Process
import Rs485.Proof.Zigbee.Queue
import Rs485.Proof.Zigbee.Verdicts
import Rs485.Proof.Zigbee.Writes
import Rs485.Framework.Local
import Rs485.Impl.Modbus.Multi
import Rs485.Impl.Shell
import Rs485.Proof.Modbus.Multi
import Rs485.Proof.Shell
import Rs485.Framework.Words
import Rs485.Impl.Modbus.Timed
import Rs485.Proof.Modbus.Agree
import Rs485.Proof.Modbus.Assertions
import Rs485.Proof.Modbus.BitBounds
import Rs485.Proof.Modbus.Framing
import Rs485.Proof.Modbus.Timed
import Rs485.Proof.Zigbee.Read
import Rs485.Impl.Modbus.Handover
import Rs485.Proof.Modbus.Handover
import Rs485.Impl.Modbus.Lifecycle
import Rs485.Proof.Modbus.Lifecycle
import Rs485.Proof.Zigbee.Codec
import Rs485.Spec.Fifo
import Rs485.Impl.CQueueBytes
import Rs485.Proof.CQueueBytes
import Rs485.Proof.ShellSafety
import Rs485.Impl.SocketServer
import Rs485.Proof.SocketServer
import Rs485.Impl.RfApp
import Rs485.Proof.RfApp
import Rs485.Impl.UartReceive
import Rs485.Proof.UartReceive
import Rs485.Framework.Crc
import Rs485.Framework.Tlv
import Rs485.Spec.Server
import Rs485.Spec.Scanner
import Rs485.Spec.Leases
import Rs485.Spec.Names
import Rs485.Impl.Modbus.Ascii
import Rs485.Impl.Dhcp
import Rs485.Impl.Dns
import Rs485.Proof.Modbus.Crc
import Rs485.Proof.Modbus.Server
import Rs485.Proof.Modbus.Served
import Rs485.Proof.Modbus.Ascii
import Rs485.Proof.Modbus.AsciiSend
import Rs485.Proof.Dhcp
import Rs485.Proof.Dns
import Rs485.Framework.Ring
import Rs485.Impl.TuFifo
import Rs485.Proof.TuFifo
import Rs485.Proof.TuFifoShared
import Rs485.Framework.Wakeups
import Rs485.Spec.Deque
import Rs485.Impl.RtosQueue
import Rs485.Impl.RtosTasks
import Rs485.Proof.RtosQueue
import Rs485.Proof.RtosTasks
import Rs485.Proof.RtosUart
