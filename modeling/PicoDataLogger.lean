import PicoDataLogger.Interaction
import PicoDataLogger.NorFlash
import PicoDataLogger.Record
import PicoDataLogger.Crc
import PicoDataLogger.Checksum
import PicoDataLogger.SectorLog
import PicoDataLogger.LiveRecords
import PicoDataLogger.FlashQueue
import PicoDataLogger.SlotView
import PicoDataLogger.ReclaimSpec
import PicoDataLogger.QueueSpec
import PicoDataLogger.Runs
import PicoDataLogger.Versions
import PicoDataLogger.Schedule
import PicoDataLogger.SleepClock
import PicoDataLogger.CrashStates
import PicoDataLogger.LogReplay
import PicoDataLogger.LogImage
import PicoDataLogger.Recovery
import PicoDataLogger.Consistency
import PicoDataLogger.FirstSteps
import PicoDataLogger.Counters
import PicoDataLogger.CrashConsistency
import PicoDataLogger.Primitives
import PicoDataLogger.SequenceHistory
import PicoDataLogger.Retirement
import PicoDataLogger.Discipline
import PicoDataLogger.Replay
import PicoDataLogger.InterruptedErase
import PicoDataLogger.Availability
import PicoDataLogger.BoundedFifo
import PicoDataLogger.FifoRefinement
import PicoDataLogger.SlotUsage
import PicoDataLogger.EraseBudget
import PicoDataLogger.Device
import PicoDataLogger.Identity
import PicoDataLogger.ReadingJson
import PicoDataLogger.DeviceSpec
import PicoDataLogger.FirstCycles
import PicoDataLogger.Delivery
import PicoDataLogger.PublicationOrder
import PicoDataLogger.Drain
import PicoDataLogger.Publishable
import PicoDataLogger.Ntp
import PicoDataLogger.Cooperative
import PicoDataLogger.Voltage
import PicoDataLogger.FreshVoltage
import PicoDataLogger.SingleFault
import PicoDataLogger.FailedCalls
import PicoDataLogger.Atomicity
import PicoDataLogger.LossAccounting
import PicoDataLogger.Cyw43.Structs
import PicoDataLogger.Cyw43.Runner
import PicoDataLogger.Cyw43.Frames
import PicoDataLogger.Cyw43.Driver
import PicoDataLogger.Cyw43.Received
import PicoDataLogger.Cyw43.Exchange
import PicoDataLogger.Cyw43.Credit
import PicoDataLogger.Since
import PicoDataLogger.Cyw43.Link
import PicoDataLogger.Sleeper
import PicoDataLogger.FlatMemory
import PicoDataLogger.Cyw43.Spi
import PicoDataLogger.Cyw43.Backplane
import PicoDataLogger.Cyw43.Control
import PicoDataLogger.Cyw43.Join
import PicoDataLogger.ClockSync
import PicoDataLogger.SharedPin
import PicoDataLogger.GoodCycle
import PicoDataLogger.CycleOrder
import PicoDataLogger.Connect
