import OpenGauss.Undo.RecordRoundTrip
import OpenGauss.Undo.Prevurp
import OpenGauss.Undo.FetchRange
import OpenGauss.Undo.ZoneCheckpoint
import OpenGauss.Undo.RecycleMain
import OpenGauss.Replication.SyncRep
import OpenGauss.Replication.ReleasedPosition
import OpenGauss.Segment.ExtentRedo
import OpenGauss.Segment.BlockMapTree
import OpenGauss.Segment.InversePointer
import OpenGauss.CStore.FreeSpace
import OpenGauss.Bloom.Inclusion
import OpenGauss.CStore.RoughCheck
import OpenGauss.Ustore.InplaceUndo
import OpenGauss.Ustore.MultiInsert
import OpenGauss.Ustore.Compaction
import OpenGauss.Ustore.TupleAccess
import OpenGauss.Cfs.RecycleRun
import OpenGauss.RowCompress.Batches
import OpenGauss.RowCompress.CmprLossless
import OpenGauss.Security.IpLookup
import OpenGauss.Security.IpMask
import OpenGauss.Freespace.FsmAddress
import OpenGauss.Undo.SlotBufferIntegrity
import OpenGauss.Hll.StoredChecks
import OpenGauss.Cfs.UsageBitmap
import OpenGauss.Cfs.ChunkCapacity
import OpenGauss.Hll.Trees
import OpenGauss.CStore.IntegerRoundTrip
import OpenGauss.CStore.StringCoder
import OpenGauss.Base.BitPacking
import OpenGauss.CStore.NumericRoundTrip
import OpenGauss.Numerics.Lossless
import OpenGauss.Numerics.Arithmetic
import OpenGauss.Numerics.Hash
import OpenGauss.Mot.RedoSegments
import OpenGauss.Replication.LogicalQueue
import OpenGauss.CStore.XorCodec
import OpenGauss.CStore.Delta2Codec
import OpenGauss.CStore.RunBound
import OpenGauss.CStore.DictionaryProbe
import OpenGauss.Partition.RangeRouting
import OpenGauss.Base.Moves
import OpenGauss.Compression.PageConvert
import OpenGauss.Compression.Transpose
import OpenGauss.CStore.AscaleCodes
import OpenGauss.CStore.NumberString
import OpenGauss.CStore.ColumnHoles
import OpenGauss.Numerics.Division
import OpenGauss.Numerics.Comparison
import OpenGauss.Numerics.MinMax
import OpenGauss.Numerics.Output
