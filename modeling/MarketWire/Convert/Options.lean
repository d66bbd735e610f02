import MarketWire.Path.Extension

/-!
# Command line of the converter

The arguments are read from left to right: options in any order, some with a value behind them, and
the input file. An option may be given again, and the last value counts.

## Main definitions

* `Options`, `Encoding` — what the command line asks for.
* `UsageError` — what may be wrong with it.
* `Options.parse` — reads the arguments.
* `Options.inferEncoding`, `Options.outputEncoding` — the encoding of the output, by itself and in
  view of the other options.
* `defaultOutputPath` — the output file when none is named.
-/

namespace MarketWire

namespace Convert

/-! ### Options -/

/-- The encoding of the output. -/
inductive Encoding
  /-- The one that the name of the output file suggests. -/
  | infer
  | csv
  | json
  deriving DecidableEq, Repr

/-- What the command line asks for. -/
structure Options where
  /-- The input file. -/
  input : Text := []
  /-- The output file. -/
  output : Option Text := none
  /-- The output goes to the standard output. -/
  toStdout : Bool := false
  /-- The encoding of the output. -/
  encoding : Encoding := .infer
  /-- An output file that exists is overwritten. -/
  force : Bool := false
  /-- Prices are written as decimals. -/
  prettyPrices : Bool := false
  /-- Timestamps are written as date and time. -/
  prettyTimestamps : Bool := false
  /-- The metadata is written too. -/
  metadata : Bool := false
  deriving DecidableEq, Repr

/-- What is wrong with a command line. -/
inductive UsageError
  /-- An option stands at the end without its value. -/
  | missingValue (option : String)
  /-- The encoding does not exist. -/
  | unknownEncoding (value : Text)
  /-- The option does not exist. -/
  | unknownOption (argument : Text)
  /-- There is an input file already. -/
  | unexpectedArgument (argument : Text)
  /-- There is no input file. -/
  | missingInput
  /-- The output goes to a file and to the standard output. -/
  | exclusiveOutputs
  /-- The output file has no extension that suggests an encoding. -/
  | noExtension
  /-- The extension of the output file suggests no encoding. -/
  | unknownExtension (extension : Text)
  /-- The metadata is asked for in an encoding without a place for it. -/
  | misplacedMetadata
  deriving DecidableEq, Repr

open Text in
/-- The wording of an error. -/
def UsageError.message : UsageError → Text
  | .missingValue option => ofAscii "missing value for " ++ ofAscii option
  | .unknownEncoding value => ofAscii "unknown encoding \"" ++ value ++ ofAscii "\""
  | .unknownOption argument => ofAscii "unknown option \"" ++ argument ++ ofAscii "\""
  | .unexpectedArgument argument => ofAscii "unexpected argument \"" ++ argument ++ ofAscii "\""
  | .missingInput => ofAscii "missing input file"
  | .exclusiveOutputs => ofAscii "--output and --stdout are mutually exclusive"
  | .noExtension =>
    ofAscii "unable to infer output encoding from output file without an extension, " ++
      ofAscii "pass --encoding"
  | .unknownExtension extension =>
    ofAscii "unable to infer output encoding from output file with extension \"" ++ extension ++
      ofAscii "\""
  | .misplacedMetadata => ofAscii "--metadata requires the json encoding"

/-! ### Arguments -/

/-- What an argument means by itself. -/
inductive Argument
  /-- The output file follows. -/
  | output
  /-- The encoding follows. -/
  | encoding
  | toStdout
  | force
  | prettyPrices
  | prettyTimestamps
  | metadata
  /-- A text that begins with a hyphen and is no option. -/
  | unknown
  /-- Any other text. -/
  | positional
  deriving DecidableEq, Repr

/-- The spellings of the options. -/
def Argument.spellings : List (Text × Argument) :=
  [(Text.ofAscii "-o", .output), (Text.ofAscii "--output", .output),
    (Text.ofAscii "-c", .toStdout), (Text.ofAscii "--stdout", .toStdout),
    (Text.ofAscii "-e", .encoding), (Text.ofAscii "--encoding", .encoding),
    (Text.ofAscii "-f", .force), (Text.ofAscii "--force", .force),
    (Text.ofAscii "--pretty-px", .prettyPrices), (Text.ofAscii "--pretty-ts", .prettyTimestamps),
    (Text.ofAscii "--metadata", .metadata)]

/-- What a text means as an argument. -/
def Argument.ofText (text : Text) : Argument :=
  match spellings.lookup text with
  | some argument => argument
  | none => if text.head? = some 0x2D then .unknown else .positional

/-- The encoding with the given name. -/
def Encoding.ofText? (text : Text) : Option Encoding :=
  [(Text.ofAscii "infer", .infer), (Text.ofAscii "csv", .csv), (Text.ofAscii "json", .json)].lookup
    text

namespace Options

/-- Reads arguments into the options. After an error the options stand as they were then. -/
def read (o : Options) : List Text → Except UsageError Unit × Options
  | [] => (.ok (), o)
  | text :: rest =>
    match Argument.ofText text, rest with
    | .output, value :: rest => read { o with output := some value } rest
    | .output, [] => (.error (.missingValue "--output"), o)
    | .encoding, value :: rest =>
      match Encoding.ofText? value with
      | some encoding => read { o with encoding := encoding } rest
      | none => (.error (.unknownEncoding value), o)
    | .encoding, [] => (.error (.missingValue "--encoding"), o)
    | .toStdout, rest => read { o with toStdout := true } rest
    | .force, rest => read { o with force := true } rest
    | .prettyPrices, rest => read { o with prettyPrices := true } rest
    | .prettyTimestamps, rest => read { o with prettyTimestamps := true } rest
    | .metadata, rest => read { o with metadata := true } rest
    | .unknown, _ => (.error (.unknownOption text), o)
    | .positional, rest =>
      if o.input.isEmpty then read { o with input := text } rest
      else (.error (.unexpectedArgument text), o)

/-- Checks what must hold of the options together. -/
def check (o : Options) : Except UsageError Unit :=
  if o.input.isEmpty then
    .error .missingInput
  else if o.output.isSome && o.toStdout then
    .error .exclusiveOutputs
  else
    .ok ()

/-- Reads the arguments behind the name of the program. -/
def parse (arguments : List Text) : Except UsageError Unit × Options :=
  match read {} arguments with
  | (.ok (), o) => (o.check, o)
  | (.error error, o) => (.error error, o)

/-- The encoding of the output: the one asked for, or else the one that the extension of the output
file names. -/
def inferEncoding (o : Options) : Except UsageError Encoding :=
  if o.encoding ≠ .infer then
    .ok o.encoding
  else
    let extension := Path.extension (o.output.getD [])
    if extension = Text.ofAscii ".csv" then
      .ok .csv
    else if extension = Text.ofAscii ".json" then
      .ok .json
    else if extension.isEmpty then
      .error .noExtension
    else
      .error (.unknownExtension extension)

/-- The encoding of the output, if it has a place for all that is asked for. -/
def outputEncoding (o : Options) : Except UsageError Encoding := do
  let encoding ← o.inferEncoding
  if o.metadata ∧ encoding ≠ .json then
    throw .misplacedMetadata
  else
    return encoding

end Options

/-- The output file for an input file when none is named. -/
def defaultOutputPath (input : Text) (encoding : Encoding) : Text :=
  Path.replaceExtension input (Text.ofAscii (if encoding = .json then ".json" else ".csv"))

end Convert

end MarketWire
