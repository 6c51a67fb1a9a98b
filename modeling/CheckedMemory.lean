import CheckedMemory.Array.Fixed
import CheckedMemory.Array.Matrix
import CheckedMemory.Array.Tailed
import CheckedMemory.Binary64
import CheckedMemory.Bounds
import CheckedMemory.Bulk
import CheckedMemory.CString.Basic
import CheckedMemory.CString.Tokenizer
import CheckedMemory.Description
import CheckedMemory.Element.Kind
import CheckedMemory.Element.Sequence
import CheckedMemory.Element.Value
import CheckedMemory.Heap.Allocate
import CheckedMemory.Heap.Mark
import CheckedMemory.Heap.Release
import CheckedMemory.Heap.Table
import CheckedMemory.Layout
import CheckedMemory.LittleEndian
import CheckedMemory.Memory.Area
import CheckedMemory.Memory.Cell
import CheckedMemory.Numeral.Digits
import CheckedMemory.Numeral.Integer
import CheckedMemory.Numeral.Real
import CheckedMemory.Numeral.Shortest
import CheckedMemory.Pointer.Array
import CheckedMemory.Pointer.Basic
import CheckedMemory.Pointer.Cast
import CheckedMemory.Pointer.Convert
import CheckedMemory.Pointer.Object
import CheckedMemory.Proofs.Access
import CheckedMemory.Proofs.Aliasing
import CheckedMemory.Proofs.Assignment
import CheckedMemory.Proofs.Backing
import CheckedMemory.Proofs.Bytes
import CheckedMemory.Proofs.Calls
import CheckedMemory.Proofs.Carving
import CheckedMemory.Proofs.Cells
import CheckedMemory.Proofs.Cloning
import CheckedMemory.Proofs.Comparison
import CheckedMemory.Proofs.Confined
import CheckedMemory.Proofs.Contents
import CheckedMemory.Proofs.Conversion
import CheckedMemory.Proofs.Creation
import CheckedMemory.Proofs.Custody
import CheckedMemory.Proofs.Disposal
import CheckedMemory.Proofs.Distance
import CheckedMemory.Proofs.Downcast
import CheckedMemory.Proofs.Dropped
import CheckedMemory.Proofs.Estate
import CheckedMemory.Proofs.Grants
import CheckedMemory.Proofs.Guarded
import CheckedMemory.Proofs.HeapOnly
import CheckedMemory.Proofs.Indexing
import CheckedMemory.Proofs.Ledger
import CheckedMemory.Proofs.Lookup
import CheckedMemory.Proofs.Making
import CheckedMemory.Proofs.Marking
import CheckedMemory.Proofs.Motion
import CheckedMemory.Proofs.Offers
import CheckedMemory.Proofs.OpenStreams
import CheckedMemory.Proofs.Outcome
import CheckedMemory.Proofs.Overlap
import CheckedMemory.Proofs.Patches
import CheckedMemory.Proofs.Pieces
import CheckedMemory.Proofs.Plot
import CheckedMemory.Proofs.Positions
import CheckedMemory.Proofs.Probes
import CheckedMemory.Proofs.Program
import CheckedMemory.Proofs.Reallocation
import CheckedMemory.Proofs.Records
import CheckedMemory.Proofs.Recovery
import CheckedMemory.Proofs.Refusal
import CheckedMemory.Proofs.Release
import CheckedMemory.Proofs.Resize
import CheckedMemory.Proofs.Rewrites
import CheckedMemory.Proofs.Room
import CheckedMemory.Proofs.Routes
import CheckedMemory.Proofs.RowMajor
import CheckedMemory.Proofs.Scanning
import CheckedMemory.Proofs.Settled
import CheckedMemory.Proofs.Sound
import CheckedMemory.Proofs.Spatial
import CheckedMemory.Proofs.Steps
import CheckedMemory.Proofs.Strategies
import CheckedMemory.Proofs.Strings
import CheckedMemory.Proofs.Table
import CheckedMemory.Proofs.TailLayout
import CheckedMemory.Proofs.Temporal
import CheckedMemory.Proofs.Tokens
import CheckedMemory.Proofs.Upcoming
import CheckedMemory.Proofs.Views
import CheckedMemory.Proofs.Words
import CheckedMemory.Proofs.Writers
import CheckedMemory.Runs.Basic
import CheckedMemory.Runs.Order
import CheckedMemory.Session.Access
import CheckedMemory.Session.Aggregate
import CheckedMemory.Session.Conversion
import CheckedMemory.Session.Datum
import CheckedMemory.Session.Handle
import CheckedMemory.Session.Inspection
import CheckedMemory.Session.Making
import CheckedMemory.Session.Report
import CheckedMemory.Session.State
import CheckedMemory.Session.Step
import CheckedMemory.Session.Text
import CheckedMemory.Span
import CheckedMemory.Stack.Bound
import CheckedMemory.Stack.Frames
import CheckedMemory.Stream.Block
import CheckedMemory.Stream.Character
import CheckedMemory.Stream.CharsetName
import CheckedMemory.Stream.Directory
import CheckedMemory.Stream.Handle
import CheckedMemory.Stream.Mapping
import CheckedMemory.Stream.Mode
import CheckedMemory.Stream.Position
import CheckedMemory.Stream.Transfer
import CheckedMemory.Stream.Word
import CheckedMemory.Thread
import CheckedMemory.Violation
import CheckedMemory.Word
import CheckedMemory.World
