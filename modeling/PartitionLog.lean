import PartitionLog.Batch.Basic
import PartitionLog.Batch.Draft
import PartitionLog.Batch.Header
import PartitionLog.Batch.Record
import PartitionLog.Batch.Stream
import PartitionLog.ByteStream
import PartitionLog.Bytes
import PartitionLog.Bytes.Lemmas
import PartitionLog.Checksum
import PartitionLog.Cli.Arguments
import PartitionLog.Cli.Report
import PartitionLog.Cli.Run
import PartitionLog.Decimal
import PartitionLog.DecodeError
import PartitionLog.FileTree
import PartitionLog.FileTree.Place
import PartitionLog.IoError
import PartitionLog.Json
import PartitionLog.KeyValue.Entry
import PartitionLog.KeyValue.Fixture
import PartitionLog.KeyValue.Key
import PartitionLog.KeyValue.KeySpace
import PartitionLog.KeyValue.Snapshot
import PartitionLog.KeyValue.Store
import PartitionLog.KeyValue.Value
import PartitionLog.Main
import PartitionLog.Ntp
import PartitionLog.Partition.Basic
import PartitionLog.Partition.Discovery
import PartitionLog.Partition.Fixture
import PartitionLog.Path
import PartitionLog.Proofs.Batch.Building
import PartitionLog.Proofs.Batch.Corruption
import PartitionLog.Proofs.Batch.HeaderLayout
import PartitionLog.Proofs.Batch.Reading
import PartitionLog.Proofs.Batch.SizeLimit
import PartitionLog.Proofs.ByteStream
import PartitionLog.Proofs.Bytes.Damage
import PartitionLog.Proofs.Checksum
import PartitionLog.Proofs.Except
import PartitionLog.Proofs.KeyValue.KeyOrder
import PartitionLog.Proofs.KeyValue.LastWrite
import PartitionLog.Proofs.KeyValue.Log
import PartitionLog.Proofs.KeyValue.SnapshotSuffix
import PartitionLog.Proofs.Partition.ReplayOrder
import PartitionLog.Proofs.Segment.Items
import PartitionLog.Proofs.Segment.RoundTrip
import PartitionLog.Proofs.Segment.Truncation
import PartitionLog.Raft.Config
import PartitionLog.Raft.Vnode
import PartitionLog.Reader
import PartitionLog.ReaderConfig
import PartitionLog.Segment.Cursor
import PartitionLog.Segment.File
import PartitionLog.Segment.Name
import PartitionLog.Shape
import PartitionLog.Snapshot
import PartitionLog.SortedMap
import PartitionLog.Timestamp
import PartitionLog.Varint
import PartitionLog.Wire
import PartitionLog.Proofs.KeyValue.ForeignBatches
import PartitionLog.Proofs.KeyValue.Failures
import PartitionLog.Proofs.Varint
import PartitionLog.Proofs.Wire
import PartitionLog.Proofs.Batch.Records
import PartitionLog.Proofs.KeyValue.Writes
import PartitionLog.Proofs.KeyValue.Division
import PartitionLog.Proofs.KeyValue.SnapshotLayout
import PartitionLog.Proofs.KeyValue.SnapshotRecords
import PartitionLog.Proofs.Canonical
import PartitionLog.Proofs.KeyValue.Surplus
import PartitionLog.Proofs.Segment.Position
import PartitionLog.Proofs.KeyValue.TornSegment
import PartitionLog.Proofs.Forward
import PartitionLog.Proofs.KeyValue.Accounting
import PartitionLog.Proofs.SelfDelimiting
import PartitionLog.Proofs.Presence
import PartitionLog.Proofs.Raft.Config
import PartitionLog.Proofs.Batch.RoundTrip
import PartitionLog.Proofs.Shape
import PartitionLog.Proofs.Path
import PartitionLog.Proofs.Decimal
import PartitionLog.Proofs.FileTree.WellFormed
import PartitionLog.Proofs.FileTree.Reordered
import PartitionLog.Proofs.Partition.Contents
import PartitionLog.Proofs.Partition.Visited
import PartitionLog.Proofs.Partition.Discovery
import PartitionLog.Proofs.Partition.Exclusion
import PartitionLog.Proofs.Partition.ListingOrder
import PartitionLog.Proofs.Varint.Groups
import PartitionLog.Proofs.Varint.Exactness
import PartitionLog.Proofs.KeyValue.RaisedLimit
import PartitionLog.Proofs.Batch.HeaderCodecs
import PartitionLog.Proofs.Batch.Unchecked
import PartitionLog.Proofs.Batch.RecordFrames
import PartitionLog.Proofs.Segment.Delivery
import PartitionLog.Proofs.Batch.LastOffset
import PartitionLog.Proofs.KeyValue.ByteOrder
import PartitionLog.Proofs.KeyValue.Counters
import PartitionLog.Proofs.Width
import PartitionLog.Proofs.KeyValue.ValueLayout
import PartitionLog.Proofs.Sized
import PartitionLog.Proofs.KeyValue.KeyForms
import PartitionLog.Proofs.KeyValue.Envelope
import PartitionLog.Proofs.Counts
import PartitionLog.Proofs.Segment.Name
import PartitionLog.Proofs.Ntp
import PartitionLog.Proofs.FileTree.Descent
import PartitionLog.Proofs.FileTree.Directories
import PartitionLog.Proofs.FileTree.Growth
import PartitionLog.Proofs.Partition.Opening
import PartitionLog.Proofs.Partition.Creation
import PartitionLog.Proofs.Batch.RecordCursor
import PartitionLog.Proofs.Positions
