import PandaBridge.Concurrent.Logic
import PandaBridge.Lqr.GainBuffer
import PandaBridge.Lqr.Publisher
import PandaBridge.Lqr.GainWorld
import PandaBridge.Lqr.GainSession
import PandaBridge.Lqr.ResetRecovery
import PandaBridge.Lqr.StateAbi
import PandaBridge.Lqr.StateExport
import PandaBridge.Lqr.ExportBus
import PandaBridge.Lqr.ExportFraming
import PandaBridge.Lqr.StateWindow
import PandaBridge.Concurrent.Optimistic
import PandaBridge.Lqr.SeqlockSource
import PandaBridge.Lqr.StampWord
import PandaBridge.Lqr.BridgeLoop
import PandaBridge.Lqr.SolveOrder
import PandaBridge.Lqr.BridgeStall
import PandaBridge.FixedPoint.Rounding
import PandaBridge.FixedPoint.Signed
import PandaBridge.Lqr.FpUtils
import PandaBridge.Lqr.Quantise
import PandaBridge.Lqr.QuantiseInto
import PandaBridge.Clocked.Run
import PandaBridge.Coding.Crc
import PandaBridge.Clocked.ChangeFlag
import PandaBridge.Clocked.Events
import PandaBridge.Lqr.MacLane
import PandaBridge.Lqr.SplitProduct
import PandaBridge.Lqr.MacEngine
import PandaBridge.Lqr.MacPass
import PandaBridge.Lqr.CondInput
import PandaBridge.Lqr.NmScale
import PandaBridge.Lqr.LqrTop
import PandaBridge.Lqr.ClosedLoop
import PandaBridge.Lqr.ControlLaw
import PandaBridge.Lqr.GainLayout
import PandaBridge.Transition.System
import PandaBridge.Server.BlockChannel
import PandaBridge.Server.Table
import PandaBridge.Server.TableFailure
import PandaBridge.Server.TableModes
import PandaBridge.Server.CaptureBuffer
import PandaBridge.Server.CaptureCycle
import PandaBridge.Ring.Index
import PandaBridge.Server.RingReader
import PandaBridge.Server.RingSession
import PandaBridge.Chunk.Uniform
import PandaBridge.Server.Capture
import PandaBridge.Server.CaptureLayout
import PandaBridge.Server.CaptureHeader
import PandaBridge.Concurrent.Eval
import PandaBridge.Chunk.Pieces
import PandaBridge.Server.DataStream
import PandaBridge.Server.StreamEval
import PandaBridge.Server.Passthrough
import PandaBridge.Server.StreamRace
import PandaBridge.Server.StreamRules
import PandaBridge.Server.StreamSafety
import PandaBridge.Server.StreamSession
import PandaBridge.Server.ChangeIndex
import PandaBridge.Server.ChangeSets
import PandaBridge.Server.ChangeReport
import PandaBridge.Server.BusRefresh
import PandaBridge.Server.BusReport
import PandaBridge.Server.PolledAttr
import PandaBridge.Server.Parse
import PandaBridge.Server.RegisterMap
import PandaBridge.Server.RegisterOffsets
import PandaBridge.Server.ParamCache
import PandaBridge.Server.Names
import PandaBridge.Server.Base64
import PandaBridge.Server.TableText
import PandaBridge.Server.BufferedFile
import PandaBridge.Server.ConfigServer
import PandaBridge.Server.ConfigProtocol
import PandaBridge.Server.StateFile
import PandaBridge.Server.IndentedFile
import PandaBridge.Server.IndentedReading
import PandaBridge.Server.IndentedLines
import PandaBridge.Server.TextLines
import PandaBridge.Server.IndentedBuffer
import PandaBridge.Server.Metadata
import PandaBridge.Server.SystemCommand
import PandaBridge.Server.MetadataState
import PandaBridge.Server.MetadataPersistence
import PandaBridge.Server.FieldTypes
import PandaBridge.Server.FieldClasses
import PandaBridge.Server.Persistence
import PandaBridge.Server.PersistenceInv
import PandaBridge.Server.PersistenceCheck
import PandaBridge.Server.PersistenceWrite
import PandaBridge.Server.PersistenceRun
import PandaBridge.Probe.Perturbed
import PandaBridge.Server.HashTable
import PandaBridge.Server.HashTableSlots
import PandaBridge.Server.HashTableMap
import PandaBridge.Server.HashTableResize
import PandaBridge.Server.HashTableCalls
import PandaBridge.Server.EnumerationTable
import PandaBridge.Driver.PandaStream
import PandaBridge.Driver.StreamRing
import PandaBridge.Driver.StreamReads
import PandaBridge.Driver.StreamIsr
import PandaBridge.Driver.StreamDelivery
import PandaBridge.Generator.Configs
import PandaBridge.Generator.AddressSpace
import PandaBridge.Server.EntityNames
import PandaBridge.Server.ExtensionRegister
import PandaBridge.Generator.ExtensionLine
import PandaBridge.Resource.Log
import PandaBridge.Memory.Range
import PandaBridge.Server.LineReading
import PandaBridge.Server.BufferedOutput
import PandaBridge.Search.Sorted
import PandaBridge.Driver.StreamFile
import PandaBridge.Driver.PandaBlock
import PandaBridge.Driver.BlockConservation
import PandaBridge.Driver.BlockLengths
import PandaBridge.Driver.BlockConfig
import PandaBridge.Fpga.Fifo
import PandaBridge.Fpga.PcapFrame
import PandaBridge.Fpga.PcapCore
import PandaBridge.Fpga.PcapWindow
import PandaBridge.Fpga.PcapReadout
import PandaBridge.Fpga.PcapAcquisition
import PandaBridge.Fpga.PcapRows
import PandaBridge.Fpga.PcapAggregates
import PandaBridge.Fpga.PcapTimestamps
import PandaBridge.Fpga.RegBus
import PandaBridge.Fpga.BusChanges
import PandaBridge.Fpga.SerialParts
import PandaBridge.Fpga.SerialReceiver
import PandaBridge.Fpga.BissSlave
import PandaBridge.Fpga.BissFrame
import PandaBridge.Fpga.BissMaster
import PandaBridge.Fpga.BissReception
import PandaBridge.Fpga.BissSniffer
import PandaBridge.Fpga.SnifferReception
import PandaBridge.Fpga.BissDamage
import PandaBridge.Fpga.PcompRun
import PandaBridge.Fpga.PcompCompare
import PandaBridge.Fpga.PcompPulses
import PandaBridge.Fpga.PulseTrain
import PandaBridge.Fpga.PulseShape
import PandaBridge.Fpga.PulsePeriod
import PandaBridge.Fpga.Quadrature
import PandaBridge.Fpga.QuadLink
import PandaBridge.Fpga.Pulse
import PandaBridge.Fpga.PulseRun
import PandaBridge.Fpga.AxiWriteMaster
import PandaBridge.Fpga.PcapDma
import PandaBridge.Fpga.PcapWorld
import PandaBridge.Fpga.PcapDriver
import PandaBridge.Fpga.PcapBursts
import PandaBridge.Fpga.PcapPhases
import PandaBridge.Fpga.PcapDelivery
import PandaBridge.Driver.IrqWorld
import PandaBridge.Driver.IrqDelivery
import PandaBridge.Server.StdDev
import PandaBridge.Kernel.L2Lockdown
import PandaBridge.Server.MissedData
import PandaBridge.Server.CaptureLimit
import PandaBridge.Server.Base64Stream
import PandaBridge.FixedPoint.Significant
import PandaBridge.Server.DecimalText
import PandaBridge.Server.TimeRoundTrip
import PandaBridge.Server.TimeRegisters
import PandaBridge.Server.ScalarField
import PandaBridge.Server.LutParser
import PandaBridge.Server.LutGrammar
import PandaBridge.Server.LutSound
import PandaBridge.Server.LutComplete
import PandaBridge.Memory.Stack
import PandaBridge.Server.LutMemory
import PandaBridge.Server.TypeText
import PandaBridge.Server.FieldSound
import PandaBridge.Server.FieldReload
import PandaBridge.Server.Base64Memory
import PandaBridge.Fpga.Pcomp
import PandaBridge.Fpga.PcompTrain
import PandaBridge.Server.FieldNameBuffer
import PandaBridge.Server.FieldInit
import PandaBridge.Generator.FieldLine
import PandaBridge.Fpga.FifoQueue
import PandaBridge.Fpga.SequencerReplay
import PandaBridge.Fpga.SequencerOutputs
import PandaBridge.Fpga.LutBlock
import PandaBridge.Ring.Interval
import PandaBridge.Fpga.Counter
