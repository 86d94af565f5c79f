import Ncd15.Emulator.Cpu
import Ncd15.Emulator.Step
import Ncd15.Emulator.Interrupts
import Ncd15.Emulator.Syscall
import Ncd15.Emulator.DelaySlots
import Ncd15.Emulator.Memory
import Ncd15.Emulator.FlashLoad
import Ncd15.Emulator.BusSafety
import Ncd15.Emulator.IcacheCoherence
import Ncd15.Emulator.IcacheRuns
import Ncd15.Emulator.Duart
import Ncd15.Emulator.NvramCommands
import Ncd15.Library.Buffer
import Ncd15.Library.SlidingWindow
import Ncd15.Xcpm.Lzss
import Ncd15.Xcpm.LzssTokens
import Ncd15.Xcpm.LzssBounds
import Ncd15.Xcpm.ScratchWindow
import Ncd15.Xcpm.WindowTenants
import Ncd15.Xcpm.WindowRuns
import Ncd15.Fat.Driver
import Ncd15.Fat.Table
import Ncd15.Fat.Directory
import Ncd15.Fat.Files
import Ncd15.Fat.Coherence
import Ncd15.Fat.Geometry
import Ncd15.Fat.TableImage
import Ncd15.Fat.TableRuns
import Ncd15.Fat.Allocation
import Ncd15.Fat.SharedBuffer
import Ncd15.Fat.SharedBufferRuns
import Ncd15.Fat.Contents
import Ncd15.Fat.RootDirectory
import Ncd15.Fat.RecordWrite
import Ncd15.Fat.Flush
import Ncd15.Fat.Growth
import Ncd15.Fat.ReadCuts
import Ncd15.Bdos.Handles
import Ncd15.Bdos.SequentialRead
import Ncd15.Bdos.SequentialWrite
import Ncd15.Bdos.StaleBlocks
import Ncd15.Library.StructPack
import Ncd15.Firmware.EcoffWrap
import Ncd15.Firmware.FlashRoundTrip
import Ncd15.Library.Blocks
import Ncd15.Library.StopAndWait
import Ncd15.Tftp.Packets
import Ncd15.Tftp.ReadTransfer
import Ncd15.Tftp.WriteTransfer
import Ncd15.Tftp.RawTftpd
import Ncd15.Lance.Chip
import Ncd15.Lance.Paths
import Ncd15.Lance.Interrupts
import Ncd15.Lance.Stopped
import Ncd15.Fat.Walks
import Ncd15.Bdos.CurrentDirectory
import Ncd15.Library.Watched
import Ncd15.Xcpm.LineEditor
import Ncd15.Xcpm.LineEditorRuns
import Ncd15.Xcpm.HistoryRing
import Ncd15.Emulator.FlashStub
import Ncd15.Emulator.MulDiv
import Ncd15.Emulator.Unaligned
import Ncd15.Fat.Listing
import Ncd15.Lance.Fcs
import Ncd15.Lance.HostMemory
import Ncd15.Lance.Transmit
import Ncd15.Lance.TransmitChain
import Ncd15.Lance.ReceiveScatter
import Ncd15.Fat.EntryLaw
import Ncd15.Fat.SeekWrite
import Ncd15.Emulator.NvramStartBit
import Ncd15.Fat.AllocatorLaw
import Ncd15.Fat.WideTable
import Ncd15.Fat.FreeChain
import Ncd15.Fat.MountGeometry
import Ncd15.Fat.Enumeration
import Ncd15.Fat.WalkEnds
import Ncd15.Library.Fuel
import Ncd15.Fat.LongNames
import Ncd15.Xcpm.Environment
import Ncd15.Xcpm.Prompt
import Ncd15.Xcpm.ScriptLines
import Ncd15.Xcpm.Arguments
import Ncd15.Xcpm.Tokenizer
import Ncd15.Xcpm.PipeSplit
import Ncd15.Xcpm.Console
import Ncd15.Xcpm.Encodings
import Ncd15.Xcpm.Numbers
import Ncd15.Xcpm.Factor
import Ncd15.Xcpm.SRecords
import Ncd15.Xcpm.SRecordLines
import Ncd15.Xcpm.SRecordLoad
import Ncd15.Xcpm.SRecordDump
import Ncd15.Xcpm.Nano
import Ncd15.Xcpm.Dispatch
import Ncd15.Fat.FileEnds
import Ncd15.Bdos.LoadRun
import Ncd15.Bdos.LoadBounds
import Ncd15.Bdos.Search
import Ncd15.Bdos.PathCalls
import Ncd15.Fat.PathWalk
import Ncd15.Emulator.DuartRegisters
import Ncd15.Firmware.NvramImage
import Ncd15.Tftp.SafePath
import Ncd15.Tftp.RawFrames
import Ncd15.Bdos.NameCodecs
import Ncd15.Lance.BlockDma
import Ncd15.Lance.RingRuns
