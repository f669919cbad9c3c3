import NopOS.Lib.BitField
import NopOS.Lib.RadixTree
import NopOS.Lib.LabelledRun
import NopOS.Lib.StatefulProgram
import NopOS.Mmu.PageTableEntry
import NopOS.Mmu.AddressTranslation
import NopOS.Mmu.PhysicalMachine
import NopOS.Mmu.Mapper
import NopOS.Mmu.TableInvariant
import NopOS.Mmu.TableUpdate
import NopOS.Mmu.MapperSteps
import NopOS.Mmu.MapperSpecs
import NopOS.Mmu.MapRefinement
import NopOS.Mmu.MapRuns
import NopOS.Mmu.MappedCheck
import NopOS.Mmu.PageFrames
import NopOS.Acpi.MapMemory
import NopOS.Acpi.MappingRuns
import NopOS.Acpi.InterruptHandlers
import NopOS.Acpi.PhysicalAddress
import NopOS.Lib.Blocks
import NopOS.Lib.BlockStack
import NopOS.Heap.MallocPool
import NopOS.Heap.PoolRefinement
import NopOS.Heap.HeapRuns
import NopOS.Heap.PoolBounds
import NopOS.Heap.GuardedPool
import NopOS.Heap.Reclaim
import NopOS.Heap.EmptyBlocks
import NopOS.Heap.ReallocData
import NopOS.Acpi.Allocator
import NopOS.Lib.Interleaving
import NopOS.Smp.ApStartup
import NopOS.Smp.Rendezvous
import NopOS.Smp.ApicDriver
import NopOS.Smp.ParseMadt
import NopOS.Lib.LittleEndian
import NopOS.Acpi.PciConfiguration
import NopOS.Lib.RecordScan
import NopOS.Boot.E820
import NopOS.Boot.E820Agreement
import NopOS.Boot.E820Bounds
import NopOS.Lib.IndexedBuffer
import NopOS.Console.Stdio
import NopOS.Console.Buffering
import NopOS.Console.FirstFlush
import NopOS.Console.ConsoleRuns
import NopOS.Lib.WordStack
import NopOS.Traps.EntryCode
import NopOS.Traps.FrameTransparency
import NopOS.Traps.DescriptorTable
import NopOS.Lib.ByteRange
import NopOS.Boot.LoaderImage
import NopOS.Boot.ReadDisk
import NopOS.Shell.Linenoise
import NopOS.Shell.EditorHeap
import NopOS.Shell.EditorCommands
import NopOS.Shell.ShellRuns
import NopOS.Lib.WordBytes
import NopOS.Mmu.LargePageSplit
import NopOS.Acpi.MemoryAccess
import NopOS.Lib.PartialAssignment
import NopOS.Cpu.CpuidFeatures
import NopOS.Acpi.PciRequests
import NopOS.Acpi.HandlerTable
import NopOS.Boot.MaxPageAddr
import NopOS.Console.NumberFormat
import NopOS.Console.Printf
import NopOS.Mmu.VirtualAddress
import NopOS.Mmu.EntryAccessors
import NopOS.Lib.LinkedList
import NopOS.Smp.StackPop
import NopOS.Mmu.TableTree
import NopOS.Lib.Lz77
import NopOS.Lz.Decompress
import NopOS.Lz.TokenFormat
import NopOS.Lz.Compress
import NopOS.Lz.CompressedBlocks
import NopOS.Lz.CompressorRuns
import NopOS.Lz.KernelImage
import NopOS.Lz.CorruptInput
import NopOS.Lib.TextCursor
import NopOS.Shell.EditorText
import NopOS.Shell.EditSession
import NopOS.Shell.FreedLog
import NopOS.Shell.TypedLines
import NopOS.Smp.Spinlock
import NopOS.Smp.LockedSections
import NopOS.Smp.IoApic
import NopOS.Smp.Launch
import NopOS.Lib.Numeral
import NopOS.Console.Strtol
import NopOS.Console.Int2base
import NopOS.Console.ReadBack
import NopOS.Console.PrintFormat
import NopOS.Console.FormatPieces
import NopOS.Console.Rendering
import NopOS.Console.Snprintf
import NopOS.Shell.CursorSequence
