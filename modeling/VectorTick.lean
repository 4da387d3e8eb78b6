import VectorTick.Apps.Arrivals
import VectorTick.Apps.Ingest
import VectorTick.Apps.Query
import VectorTick.Codec.BitPack
import VectorTick.Codec.BitPackRoundTrip
import VectorTick.Codec.DeltaBitPack
import VectorTick.Codec.Dictionary
import VectorTick.Codec.Rle
import VectorTick.Codec.RleStreams
import VectorTick.Codec.VarInt
import VectorTick.Codec.VarIntStreams
import VectorTick.Common.CheckedMath
import VectorTick.Common.Crc32C
import VectorTick.Common.CrcDetection
import VectorTick.Common.CrcMachines
import VectorTick.Common.CrcRemainder
import VectorTick.Common.Hash
import VectorTick.Common.Sha256
import VectorTick.Common.Sha256Standard
import VectorTick.Common.Status
import VectorTick.Common.Types
import VectorTick.Concurrency.PoolRuns
import VectorTick.Concurrency.SpscRing
import VectorTick.Concurrency.VirtualClock
import VectorTick.Concurrency.WorkerPool
import VectorTick.Execution.Aggregates
import VectorTick.Execution.Agreement
import VectorTick.Execution.Averages
import VectorTick.Execution.Batches
import VectorTick.Execution.Calls
import VectorTick.Execution.ColumnNames
import VectorTick.Execution.Evaluation
import VectorTick.Execution.ExactAggregates
import VectorTick.Execution.FilterLaws
import VectorTick.Execution.LoweredCode
import VectorTick.Execution.Lowering
import VectorTick.Execution.MatchCount
import VectorTick.Execution.NeonKernels
import VectorTick.Execution.Permutations
import VectorTick.Execution.Positions
import VectorTick.Execution.Progress
import VectorTick.Execution.ReferenceInterpreter
import VectorTick.Execution.Selection
import VectorTick.Execution.SignedRange
import VectorTick.Execution.VectorExecutor
import VectorTick.Foundation.AddressSpace
import VectorTick.Foundation.BitView
import VectorTick.Foundation.BlockStream
import VectorTick.Foundation.Blocks
import VectorTick.Foundation.Buffers
import VectorTick.Foundation.Bytes
import VectorTick.Foundation.Effects
import VectorTick.Foundation.Folds
import VectorTick.Foundation.KeyedLog
import VectorTick.Foundation.Layout
import VectorTick.Foundation.Ledger
import VectorTick.Foundation.MachineIntegers
import VectorTick.Foundation.Memory
import VectorTick.Foundation.Processor
import VectorTick.Foundation.Ratchet
import VectorTick.Foundation.Regions
import VectorTick.Foundation.ShiftRegister
import VectorTick.Foundation.StridedLoops
import VectorTick.Foundation.Transitions
import VectorTick.Foundation.WordStack
import VectorTick.Ir.Builder
import VectorTick.Ir.Instruction
import VectorTick.Ir.KnownColumns
import VectorTick.Ir.TypeAgreement
import VectorTick.Jit.A64Assembler
import VectorTick.Jit.A64Codegen
import VectorTick.Jit.A64Convention
import VectorTick.Jit.A64Correctness
import VectorTick.Jit.A64Machine
import VectorTick.Jit.A64Memory
import VectorTick.Jit.Bodies
import VectorTick.Jit.CodeGenerator
import VectorTick.Jit.CompiledFilters
import VectorTick.Jit.CompiledText
import VectorTick.Jit.Operations
import VectorTick.Jit.X86Assembler
import VectorTick.Jit.X86Codegen
import VectorTick.Jit.X86Convention
import VectorTick.Jit.X86Correctness
import VectorTick.Jit.X86Machine
import VectorTick.Jit.X86Memory
import VectorTick.Memory.AlignedBuffer
import VectorTick.Memory.Arena
import VectorTick.Protocol.Acceptance
import VectorTick.Protocol.Decoder
import VectorTick.Protocol.Frame
import VectorTick.Protocol.FrameDamage
import VectorTick.Protocol.Ingest
import VectorTick.Protocol.Messages
import VectorTick.Protocol.PcapByteOrder
import VectorTick.Protocol.PcapLayers
import VectorTick.Protocol.PcapReader
import VectorTick.Protocol.PcapRuns
import VectorTick.Protocol.Rejection
import VectorTick.Protocol.StreamRoundTrip
import VectorTick.Query.Ast
import VectorTick.Query.Grammar
import VectorTick.Query.Lexer
import VectorTick.Query.LexerRange
import VectorTick.Query.Literals
import VectorTick.Query.Parser
import VectorTick.Query.Printing
import VectorTick.Query.Soundness
import VectorTick.Query.Spelling
import VectorTick.Query.StickyErrors
import VectorTick.Query.Termination
import VectorTick.Query.TokenStream
import VectorTick.Query.TypeChecker
import VectorTick.Replay.CrashReplay
import VectorTick.Replay.ReplayCounters
import VectorTick.Replay.ReplayEngine
import VectorTick.Storage.AtomicStore
import VectorTick.Storage.Catalog
import VectorTick.Storage.CatalogEffects
import VectorTick.Storage.CatalogRuns
import VectorTick.Storage.CatalogSteps
import VectorTick.Storage.Compaction
import VectorTick.Storage.CompactionCrash
import VectorTick.Storage.CompactionLists
import VectorTick.Storage.Durability
import VectorTick.Storage.FileFormat
import VectorTick.Storage.History
import VectorTick.Storage.Isolation
import VectorTick.Storage.Journal
import VectorTick.Storage.JournalLog
import VectorTick.Storage.JournalPrefix
import VectorTick.Storage.JournalReads
import VectorTick.Storage.Manifest
import VectorTick.Storage.ManifestErrors
import VectorTick.Storage.RangeMetadata
import VectorTick.Storage.ReaderBounds
import VectorTick.Storage.RecordChecks
import VectorTick.Storage.RecoverAgain
import VectorTick.Storage.Replay
import VectorTick.Storage.SegmentDamage
import VectorTick.Storage.SegmentDecode
import VectorTick.Storage.SegmentLayout
import VectorTick.Storage.SegmentReader
import VectorTick.Storage.SegmentRoundTrip
import VectorTick.Storage.SegmentWriter
import VectorTick.Storage.Statistics
import VectorTick.Storage.StoredAnswers
import VectorTick.Storage.WriterBounds
import VectorTick.Storage.WriterCalls
import VectorTick.Storage.WriterState
