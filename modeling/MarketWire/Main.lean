import MarketWire.Convert.Conversion
import MarketWire.Sink.Buffer

/-!
# The converter

Reads a binary stream from a file and writes its records as text, to a file or to the standard
output. What goes wrong is reported on the standard error, a line for each fault.
-/

namespace MarketWire

namespace Program

/-! ### Texts and errors of the system -/

/-- The bytes of a string. -/
def textOf (s : String) : Text :=
  s.toUTF8.toList

/-- The bytes of a text in a row. -/
def pack (bs : Bytes) : ByteArray :=
  ⟨bs.toArray⟩

/-- The string for a text that came from one. -/
def stringOf (t : Text) : String :=
  (String.fromUTF8? (pack t)).getD ""

/-- The number of an error that the system reported. -/
def systemError : IO.Error → SystemError
  | .noFileOrDirectory _ code _ => ⟨code.toNat⟩
  | .permissionDenied _ code _ => ⟨code.toNat⟩
  | .inappropriateType _ code _ => ⟨code.toNat⟩
  | .invalidArgument _ code _ => ⟨code.toNat⟩
  | .alreadyExists _ code _ => ⟨code.toNat⟩
  | .resourceExhausted _ code _ => ⟨code.toNat⟩
  | .resourceVanished code _ => ⟨code.toNat⟩
  | .resourceBusy code _ => ⟨code.toNat⟩
  | .otherError code _ => ⟨code.toNat⟩
  -- Anything else is an error of the device.
  | _ => ⟨5⟩

/-! ### Reports -/

/-- Writes bytes to the standard error. -/
def report (t : Text) : IO Unit := do
  (← IO.getStderr).write (pack t)

/-- Reports a fault in its own words. -/
def complain (words : Text) : IO Unit :=
  report (Text.ofAscii "! " ++ words ++ [0x0A])

/-- Reports how the program is called. -/
def reportUsage : IO Unit := do
  (← IO.getStderr).putStr
    ("Usage: marketwire <input.dbn> [-o <output> | -c] [-e infer|csv|json] [-f] [--pretty-px] " ++
      "[--pretty-ts] [--metadata]\n" ++
      "  -o, --output     path of the output file\n" ++
      "  -c, --stdout     write to standard output\n" ++
      "  -e, --encoding   output encoding, inferred from the output extension by default\n" ++
      "  -f, --force      overwrite an existing output file\n" ++
      "  --pretty-px      format prices as decimals\n" ++
      "  --pretty-ts      format timestamps as ISO 8601\n" ++
      "  --metadata       write the metadata as the first JSON line\n")

/-! ### Files -/

/-- Opens a file and reads what is in it. Of a file that cannot be read nothing is known but that
reading it fails, so it counts as one with a byte that cannot be had. -/
def findFile (path : Text) : IO (Except SystemError FileHandle) := do
  match ← (IO.FS.Handle.mk (stringOf path) .read).toBaseIO with
  | .error e => return .error (systemError e)
  | .ok handle =>
    match ← handle.readBinToEnd.toBaseIO with
    | .ok content => return .ok { content := content.data }
    | .error e => return .ok { content := #[0], readError := some (systemError e) }

/-- Opens the output. A file that exists is opened only if it may be overwritten. -/
def openOutput (path : Text) (force : Bool) : IO (Except Text IO.FS.Handle) := do
  let mode : IO.FS.Mode := if force then .write else .writeNew
  match ← (IO.FS.Handle.mk (stringOf path) mode).toBaseIO with
  | .ok handle => return .ok handle
  | .error (.alreadyExists ..) =>
    return .error (Text.ofAscii "output file \"" ++ path ++
      Text.ofAscii "\" exists, pass --force to overwrite it")
  | .error _ => return .error (Fault.openForWriting path).message

/-- Whether bytes could be written, a reader that no longer listens aside. -/
def deliver (bs : Bytes) (write : ByteArray → IO Unit) : IO Outcome := do
  match ← (write (pack bs)).toBaseIO with
  | .ok () => return .ok ()
  | .error e =>
    let fault := Fault.ofWriteError (Text.ofAscii "fwrite") (systemError e)
    return if fault.kind = .sinkClosed then .ok () else .error fault

/-! ### The program -/

/-- Reports problems and then, if there is one, a fault. -/
def conclude (problems : List Fault) (outcome : Outcome) : IO UInt32 := do
  problems.forM fun problem => complain problem.message
  match outcome with
  | .ok () => return 0
  | .error fault =>
    complain fault.message
    return 1

/-- Converts the input of the given options. -/
def convert (o : Convert.Options) (encoding : Convert.Encoding) : IO UInt32 := do
  match o.openInput (← findFile o.input) with
  | .error fault => conclude [] (.error fault)
  | .ok stream =>
    let (outcome, stream) := stream.readMetadata
    match outcome, stream.metadata? with
    | .ok (), some metadata =>
      let known := stream.problems.length
      let (outcome, sink, rest) := o.writeRecords encoding metadata stream ({} : BufferSink)
      let early := rest.problems.take known
      let late := rest.problems.drop known
      match o.outputPath encoding with
      | none =>
        let delivered ← deliver sink.content.toList (← IO.getStdout).write
        conclude (early ++ late) (outcome *> delivered)
      | some path =>
        match ← openOutput path o.force with
        | .error words =>
          let _ ← conclude early (.ok ())
          complain words
          return 1
        | .ok handle =>
          let delivered ← deliver sink.content.toList handle.write
          conclude (early ++ late) (outcome *> delivered)
    | outcome, _ => conclude stream.problems outcome

/-- Runs the program with the given arguments. -/
def run (arguments : List String) : IO UInt32 := do
  if arguments.isEmpty then
    reportUsage
    return 1
  match Convert.Options.parse (arguments.map textOf) with
  | (.error e, _) =>
    complain e.message
    reportUsage
    return 1
  | (.ok (), o) =>
    match o.outputEncoding with
    | .error e =>
      complain e.message
      return 1
    | .ok encoding => convert o encoding

end Program

end MarketWire

/-- The program. -/
def main (arguments : List String) : IO UInt32 :=
  MarketWire.Program.run arguments
