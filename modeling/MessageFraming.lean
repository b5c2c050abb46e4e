import MessageFraming.Units
import MessageFraming.Cursor.Mixed
import MessageFraming.Sink.Memory
import MessageFraming.LengthPrefixed.Format
import MessageFraming.Lines.Format
import MessageFraming.Frame.FormatWriter
import MessageFraming.SharedWriter
import MessageFraming.SharedWriter.Producers
import MessageFraming.SharedBuffer
import MessageFraming.Closing.Layers
import MessageFraming.Closing.Callers
import MessageFraming.Chunk.Chunker
import MessageFraming.Decode.Pipeline
import MessageFraming.Decode.Sequential
import MessageFraming.Gzip
import MessageFraming.Record.Forms
import MessageFraming.Proofs.Lines.Grammar
import MessageFraming.Proofs.Source.Delivery
import MessageFraming.Proofs.Chunk.Emission
import MessageFraming.Proofs.Chunk.Failures
import MessageFraming.Proofs.Chunk.Partition
import MessageFraming.Proofs.Chunk.Streaming
import MessageFraming.Proofs.Decode.Endings
import MessageFraming.Proofs.Decode.InOrder
import MessageFraming.Proofs.Decode.Ledger
import MessageFraming.Proofs.Decode.Refinement
import MessageFraming.Proofs.Cursor.Answers
import MessageFraming.Proofs.Lines.Answers
import MessageFraming.Proofs.Varint.Grammar
import MessageFraming.Proofs.LengthPrefixed.Grammar
import MessageFraming.Proofs.Varint.Reading
import MessageFraming.Proofs.Varint.Classification
import MessageFraming.Proofs.Varint.RoundTrip
import MessageFraming.Proofs.LengthPrefixed.Reading
import MessageFraming.Proofs.Frame.Writing
import MessageFraming.Proofs.LengthPrefixed.RoundTrip
import MessageFraming.Proofs.Decode.Progress
import MessageFraming.Proofs.Lines.RoundTrip
import MessageFraming.Proofs.SharedWriter.Calls
import MessageFraming.Proofs.SharedWriter.Interleaving
import MessageFraming.Proofs.Chunk.Fragmentation
import MessageFraming.Proofs.Chunk.Boundaries
import MessageFraming.Proofs.Decode.EndToEnd
import MessageFraming.Proofs.Decode.Accounting
import MessageFraming.Proofs.Chunk.LongLines
import MessageFraming.Proofs.Decode.Arrivals
import MessageFraming.Proofs.Sink.Buffered
import MessageFraming.Proofs.Frame.Torn
import MessageFraming.Proofs.Frame.Batches
import MessageFraming.Proofs.Lines.Failures
import MessageFraming.Proofs.Closing.Resumption
import MessageFraming.Proofs.Closing.OneOutcome
import MessageFraming.Proofs.Cursor.Failures
import MessageFraming.Proofs.Chunk.Fused
import MessageFraming.Proofs.Cursor.Composition
import MessageFraming.Proofs.Lines.Staging
import MessageFraming.Proofs.SharedWriter.Poison
import MessageFraming.Proofs.Decode.Backpressure
import MessageFraming.Proofs.Source.Exact
import MessageFraming.Proofs.Cursor.Iteration
