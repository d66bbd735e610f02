import MarketWire.Encoder.Binary
import MarketWire.Main
import MarketWire.Sink.File
import MarketWire.Sink.Stream
import MarketWire.Source.Memory
import MarketWire.Proofs.ArenaQueue
import MarketWire.Proofs.ArenaRuns
import MarketWire.Proofs.VisitedMembers
import MarketWire.Proofs.FieldCoverage
import MarketWire.Proofs.Frames
import MarketWire.Proofs.ScanSteps
import MarketWire.Proofs.PreambleLength
import MarketWire.Proofs.PreamblePrefixes
import MarketWire.Proofs.ScanBounds
import MarketWire.Proofs.Standing
import MarketWire.Proofs.DecoderRefinement
import MarketWire.Proofs.DecoderRuns
import MarketWire.Proofs.DecoderPhases
import MarketWire.Proofs.DecoderFraming
import MarketWire.Proofs.DecodeForms
import MarketWire.Proofs.AlignedCopies
import MarketWire.Proofs.StreamAhead
import MarketWire.Proofs.StreamCalls
import MarketWire.Proofs.RecordAccess
import MarketWire.Proofs.ListCodecs
import MarketWire.Proofs.MetadataRoundTrip
import MarketWire.Proofs.Recognizers
import MarketWire.Proofs.BlockGrammar
import MarketWire.Proofs.BlockAcceptance
import MarketWire.Proofs.Reencoding
import MarketWire.Proofs.PatchedTotals
import MarketWire.Proofs.WritableMetadata
import MarketWire.Proofs.UncheckedMetadata
import MarketWire.Proofs.StreamRecords
import MarketWire.Proofs.EncoderRuns
import MarketWire.Proofs.StampedStreams
import MarketWire.Proofs.BatchCalls
import MarketWire.Proofs.Passthrough
import MarketWire.Proofs.SinkLaws
import MarketWire.Proofs.FailingSinks
import MarketWire.Proofs.FileReads
import MarketWire.Proofs.FileFaults
import MarketWire.Proofs.SinkSizes
import MarketWire.Proofs.RowsReadBack
import MarketWire.Proofs.HeaderRows
import MarketWire.Proofs.OutputPaths
import MarketWire.Proofs.CommandLines
