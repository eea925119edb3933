import VehicleComm.Library.GuardedRun
import VehicleComm.Library.Ownership
import VehicleComm.Library.ThreadFamily
import VehicleComm.SharedMemory.RingSafety
import VehicleComm.SharedMemory.Attach
import VehicleComm.SharedMemory.Departure
import VehicleComm.SharedMemory.Delivery
import VehicleComm.Channel.Sptp
import VehicleComm.Channel.SptpOffset
import VehicleComm.Channel.SptpMeasurements
import VehicleComm.Channel.BufferSteps
import VehicleComm.SmartData.Producer
import VehicleComm.SmartData.Announcements
import VehicleComm.Channel.BufferPool
import VehicleComm.Channel.Construction
import VehicleComm.Channel.Ledger
import VehicleComm.Traffic.Segment
import VehicleComm.Traffic.Provenance
import VehicleComm.Traffic.Messages
import VehicleComm.Traffic.Paths
import VehicleComm.Traffic.Forwarding
import VehicleComm.Core.Clock
import VehicleComm.Core.Observed
import VehicleComm.Core.ObserverQueue
import VehicleComm.Core.PeriodicThread
import VehicleComm.SmartData.Periods
import VehicleComm.Channel.SptpPackets
import VehicleComm.SmartData.Release
import VehicleComm.SmartData.Lease
import VehicleComm.SmartData.Lapse
import VehicleComm.SmartData.Responding
import VehicleComm.Kernel.Gps
import VehicleComm.Network.RawSocket
import VehicleComm.Traffic.Sizes
import VehicleComm.Library.Exhaustion
import VehicleComm.Library.CommonOrder
import VehicleComm.SharedMemory.Order
import VehicleComm.SharedMemory.Draining
import VehicleComm.Channel.SptpNetwork
import VehicleComm.Channel.SptpAccuracy
import VehicleComm.Channel.SptpAgreement
import VehicleComm.Channel.SptpWatchdog
import VehicleComm.SmartData.Consumer
import VehicleComm.SmartData.Farewell
import VehicleComm.SmartData.LiveValue
import VehicleComm.SmartData.Demand
import VehicleComm.Traffic.Utterances
import VehicleComm.Traffic.Values
import VehicleComm.Traffic.Demand
import VehicleComm.Network.QuadrantChange
import VehicleComm.Application.Launcher
