import MiniMem.Bytes
import MiniMem.BitFields
import MiniMem.Lz77
import MiniMem.WildCopy
import MiniMem.Lz4Block
import MiniMem.Compressors.Bdi
import MiniMem.Compressors.Wkdm
import MiniMem.Compressors.Wkdm.Roundtrip
import MiniMem.Compressors.Wkdm.Overflow
import MiniMem.Compressors.Blocks
import MiniMem.Compressors.TypeTables
import MiniMem.Compressors.BlockClass
import MiniMem.Compressors.AiWeights
import MiniMem.Compressors.SamePage
import MiniMem.Compressors.Registry
import MiniMem.Compressors.Wkdm.Scratch
import MiniMem.Compressors.Contract
import MiniMem.Compressors.Malformed
import MiniMem.Compressors.MalformedBlocks
import MiniMem.Advisor
import MiniMem.SamePageAdvice
import MiniMem.Vram.Buffers
import MiniMem.Vram.Cycle
import MiniMem.Vram.Tiers
import MiniMem.Vram.Transparency
import MiniMem.Vram.Idle
import MiniMem.Vram.Bookkeeping
import MiniMem.Machine
import MiniMem.XArray
import MiniMem.Resume
import MiniMem.CheckedLoop
import MiniMem.Refinement
import MiniMem.Stages
import MiniMem.GroupBy
import MiniMem.Sprintf
import MiniMem.Kernel.Compress
import MiniMem.Kernel.Incompressible
import MiniMem.Compressors.Lz4.Decode
import MiniMem.Compressors.Lz4.Copies
import MiniMem.Compressors.Lz4.DecodeReads
import MiniMem.Compressors.Lz4.DecodeSound
import MiniMem.Compressors.Lz4.Encode
import MiniMem.Compressors.Lz4.Search
import MiniMem.Compressors.Lz4.Sequences
import MiniMem.Compressors.Lz4.EncodeWrites
import MiniMem.Compressors.Lz4.EncodeSound
import MiniMem.Compressors.Lz4.Roundtrip
import MiniMem.CompressFile
import MiniMem.Kernel.State
import MiniMem.Kernel.PteBits
import MiniMem.Kernel.Map
import MiniMem.Kernel.Zswap
import MiniMem.Kernel.Hook
import MiniMem.Kernel.Mmu
import MiniMem.Kernel.Shrinker
import MiniMem.Kernel.DrainRun
import MiniMem.Kernel.Scanner
import MiniMem.Kernel.Ops
import MiniMem.Kernel.Replace
import MiniMem.Kernel.Threads
import MiniMem.Kernel.NoLeak
import MiniMem.Kernel.FaultAtomic
import MiniMem.Kernel.FaultPaths
import MiniMem.Kernel.ShrinkerSafety
import MiniMem.Kernel.AddressSpaces
import MiniMem.Kernel.Unload
import MiniMem.Kernel.Accounting
import MiniMem.Kernel.PoolLimit
import MiniMem.Kernel.Rss
import MiniMem.Kernel.ScanRefs
import MiniMem.Kernel.MarkWalk
import MiniMem.Kernel.MarkCycle
import MiniMem.Kernel.ZapRange
import MiniMem.Kernel.ScanCursor
import MiniMem.Kernel.Lifetime
import MiniMem.Kernel.ConcurrentFaults
import MiniMem.Kernel.LostUpdate
import MiniMem.Kernel.Parallel
import MiniMem.Kernel.SerialDecompress
import MiniMem.Kernel.Notifier
import MiniMem.Kernel.ColdPages
import MiniMem.Kernel.EntryPoints
import MiniMem.Kernel.ErrorAtomic
import MiniMem.Kernel.BudgetChecks
import MiniMem.Kernel.EventCounts
import MiniMem.Kernel.ScanThread
import MiniMem.Kernel.SkipDecay
import MiniMem.Kernel.ProcStats
import MiniMem.Kernel.ProcStatsRaces
import MiniMem.Kernel.UidSummary
import MiniMem.Kernel.SummaryPage
import MiniMem.Kernel.Memory
import MiniMem.Kernel.Transparency
import MiniMem.Kernel.Interleaving
import MiniMem.Kernel.InterleavingFrame
import MiniMem.Kernel.InterleavingSteps
import MiniMem.Kernel.ConcurrentTransparency
import MiniMem.Kernel.Lifecycle
import MiniMem.Kernel.LoadUnload
