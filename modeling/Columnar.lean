import Columnar.Bytes
import Columnar.Guarded
import Columnar.Bitmap
import Columnar.Binary64
import Columnar.Wire.Encoding
import Columnar.Wire.Reader
import Columnar.Wire.RoundTrip
import Columnar.Wire.Stream
import Columnar.Wire.GuardedReader
import Columnar.ValueType
import Columnar.Field
import Columnar.Column.Basic
import Columnar.Column.Guarded
import Columnar.Column.Cells
import Columnar.Column.Layout
import Columnar.Column.View
import Columnar.Column.Items
import Columnar.Column.Edits
import Columnar.Column.Wire
import Columnar.NullIndex
import Columnar.Column.Slice
import Columnar.Log
import Columnar.Batch.Basic
import Columnar.Batch.Rows
import Columnar.Batch.Validation
import Columnar.Batch.Wire
import Columnar.Batch.Listing
import Columnar.TimeOrder
import Columnar.Sorter
import Columnar.Sorter.Guarded
import Columnar.Sorter.Merged
import Columnar.Pool
import Columnar.Proofs.Guarded
import Columnar.Proofs.Bitmap
import Columnar.Proofs.Column.Layout
import Columnar.Proofs.Column.Spans
import Columnar.Proofs.Column.SameRows
import Columnar.Proofs.Column.Slice
import Columnar.Proofs.Column.GuardedSlice
import Columnar.Proofs.Column.Filled
import Columnar.Proofs.Column.SliceCells
import Columnar.Proofs.TimeOrder
import Columnar.Proofs.Sorter.MergedRows
import Columnar.Proofs.Sorter.Columns
import Columnar.Proofs.Column.Integers
import Columnar.Proofs.Column.Edits
import Columnar.Proofs.Sorter.Merging
import Columnar.Proofs.Sorter.Sorted
import Columnar.Proofs.Wire.Exact
import Columnar.Proofs.Wire.Steady
import Columnar.Proofs.Wire.Stream
import Columnar.Proofs.Wire.Guarded
import Columnar.Proofs.Batch.Wire
import Columnar.Proofs.Batch.Whole
import Columnar.Proofs.Batch.Bounds
import Columnar.Proofs.Batch.NameOrder
import Columnar.Proofs.Batch.Validation
import Columnar.Proofs.Batch.Revalidation
import Columnar.Proofs.Batch.ValidWire
import Columnar.Proofs.Column.NullCount
import Columnar.Proofs.Sorter.Guarded
import Columnar.Proofs.Sorter.History
import Columnar.Proofs.Sorter.Refusal
import Columnar.Proofs.Sorter.Resorted
import Columnar.Proofs.Sorter.Accepted
import Columnar.Proofs.Sorter.Validated
import Columnar.Proofs.Batch.Rows
import Columnar.Proofs.Sorter.Early
import Columnar.Proofs.Pool.Accounting
import Columnar.Proofs.Pool.Conservation
import Columnar.Proofs.Column.LastRow
import Columnar.Proofs.Column.AppendedBits
import Columnar.Proofs.Batch.Canonical
import Columnar.Proofs.Batch.RowCounts
import Columnar.Proofs.Batch.Sizes
import Columnar.TimeOrder.Guarded
import Columnar.Proofs.TimeOrder.Runs
import Columnar.Proofs.TimeOrder.Guarded
import Columnar.Proofs.NullIndex.Values
