import MarketWire.Convert.Options
import MarketWire.Csv.Encoder
import MarketWire.Encoder.Bulk
import MarketWire.Json.Encoder
import MarketWire.RecordStream.Decoding
import MarketWire.Source.File

/-!
# Conversion of a binary stream

A conversion opens the input, reads its metadata, and only then writes anything: the metadata says
whether records carry send timestamps and which header the rows have.

## Main definitions

* `Options.openInput` — the stream of the input file.
* `Options.writeRecords` — its records in the encoding asked for.
* `Options.outputPath` — where they go.
-/

namespace MarketWire

namespace Convert

namespace Options

/-- The output file, or none for the standard output. -/
def outputPath (o : Options) (encoding : Encoding) : Option Text :=
  if o.toStdout then none else some (o.output.getD (defaultOutputPath o.input encoding))

/-- The stream of the input file, which the system found or refused. -/
def openInput (o : Options) (found : Except SystemError FileHandle) :
    Except Fault (DecodingStream FileSource) :=
  match FileSource.closed.openFile o.input found with
  | (.ok (), source) => .ok { source := source, chunkSize := DecodingStream.defaultChunkSize }
  | (.error fault, _) => .error fault

/-- How the records of a stream with the given metadata are shown. -/
def style (o : Options) (metadata : Metadata) : TextStyle where
  prettyPrices := o.prettyPrices
  prettyTimestamps := o.prettyTimestamps
  tsOut := metadata.tsOut

/-- Writes the records of a stream, and gives back the sink and what is left of the stream. -/
def writeRecords {σ ς : Type} [Sink σ] [RecordStream ς] (o : Options) (encoding : Encoding)
    (metadata : Metadata) (stream : ς) (sink : σ) : Outcome × σ × ς :=
  match encoding with
  | .json =>
    let encoder : JsonEncoder σ := { sink := sink, style := o.style metadata }
    match if o.metadata then encoder.encodeMetadata metadata else (.ok (), encoder) with
    | (.error fault, encoder) => (.error fault, encoder.sink, stream)
    | (.ok (), encoder) =>
      let (outcome, encoder, rest) := RecordEncoder.encodeStreamOf encoder stream metadata.schema
      (outcome, encoder.sink, rest)
  | _ =>
    let encoder : CsvEncoder σ := { sink := sink, style := o.style metadata }
    let (outcome, encoder, rest) := RecordEncoder.encodeStreamOf encoder stream metadata.schema
    (outcome, encoder.sink, rest)

end Options

end Convert

end MarketWire
