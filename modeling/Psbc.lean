import Psbc.Lib.Atomic
import Psbc.Lib.Turnstile
import Psbc.Lib.Additive
import Psbc.Lib.Packing
import Psbc.Lib.Cells
import Psbc.Lib.Mask
import Psbc.Lib.Bytes
import Psbc.Lib.Fallible
import Psbc.Lib.Numbering
import Psbc.Lib.AgreeTable
import Psbc.Lib.Placement
import Psbc.Lib.Records
import Psbc.Lib.Traced
import Psbc.Lib.Lanes
import Psbc.Lib.Waves
import Psbc.Lib.Ranges
import Psbc.Lib.Scatter
import Psbc.Lib.Buffer
import Psbc.Lib.Contract
import Psbc.Lib.Ledger
import Psbc.Lib.Regions
import Psbc.Lib.Runs
import Psbc.Lib.Mutex
import Psbc.Lib.Scan
import Psbc.Lib.Probing
import Psbc.Lib.Slots
import Psbc.Lib.Trial
import Psbc.Lib.Simulation
import Psbc.Stage
import Psbc.ColorFormat
import Psbc.Compute.SubgroupId
import Psbc.Streamout.BufferInfo
import Psbc.Streamout.Capture
import Psbc.Streamout.Ordered
import Psbc.Streamout.Holding
import Psbc.Streamout.Sharing
import Psbc.Streamout.Unordered
import Psbc.Streamout.ByPrimitive
import Psbc.Container.Crc
import Psbc.Container.Build
import Psbc.Container.Read
import Psbc.Container.Tables
import Psbc.Linkage.Outputs
import Psbc.Linkage.OutputSemantics
import Psbc.Linkage.Inputs
import Psbc.Linkage.InputSemantics
import Psbc.Linkage.Pairing
import Psbc.Linkage.Distance
import Psbc.Tess.Layout
import Psbc.Tess.Agreement
import Psbc.Merged.Io
import Psbc.Merged.EsGs
import Psbc.Merged.LsHs
import Psbc.Compile.Request
import Psbc.Container.ExportTable
import Psbc.Container.Accessors
import Psbc.Args.Declare
import Psbc.Args.Metadata
import Psbc.Args.Blocks
import Psbc.Args.Frame
import Psbc.Args.Window
import Psbc.Args.Base
import Psbc.Args.Overlap
import Psbc.Spirv.Module
import Psbc.Spirv.Reader
import Psbc.Spirv.Capabilities
import Psbc.Compile.Options
import Psbc.Descriptors.Bindings
import Psbc.Descriptors.Layout
import Psbc.Nir.Program
import Psbc.Nir.PushDwords
import Psbc.Descriptors.StaticUse
import Psbc.Compile.Impl
import Psbc.Compile.Gated
import Psbc.Compile.Finish
import Psbc.Compile.Output
import Psbc.Compile.Loadable
import Psbc.Compile.Specialization
import Psbc.Compile.VertexInput
import Psbc.Compile.Steps
import Psbc.Compile.Bounds
import Psbc.Compile.Ownership
import Psbc.Aco.Arena
import Psbc.Aco.ArenaRanges
import Psbc.Aco.ArenaBlocks
import Psbc.Util.Futex
import Psbc.Util.LostWake
import Psbc.Util.SimpleMtx
import Psbc.Util.Moves
import Psbc.Util.Exclusion
import Psbc.Util.FastUrem
import Psbc.Util.HashTable
import Psbc.Util.HashTableMap
import Psbc.Cli.Options
import Psbc.Cli.Settings
import Psbc.Cli.RoundTrip
import Psbc.Lib.Reciprocal
import Psbc.Util.FastUdiv
import Psbc.Util.FastSdiv
import Psbc.Util.BigMath
import Psbc.Nir.Alu
import Psbc.Nir.IdivConst
import Psbc.Nir.Machine
import Psbc.Nir.OptIdivConst
import Psbc.Lib.Phase
import Psbc.Gs.Strips
import Psbc.Gs.Streams
import Psbc.Gs.Query
import Psbc.Ngg.Repack
import Psbc.Ngg.GsLds
import Psbc.Ngg.GsFinale
import Psbc.Ngg.GsMarks
import Psbc.Ngg.GsPhases
import Psbc.Ngg.GsExports
