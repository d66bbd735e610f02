import MarketWire.SystemError

/-!
# Faults

Whatever can go wrong has a constructor that names its cause and carries the numbers and texts
that identify it. The kind of a fault, which callers branch on, and its wording, which people read,
are functions of the cause.

## Main definitions

* `FaultKind` — the classes of faults, with the words for each when nothing more is known.
* `Fault` — the causes.
* `Fault.kind`, `Fault.message` — class and wording of a cause.
* `Outcome` — success or a fault.
-/

namespace MarketWire

/-! ### Kinds -/

/-- The class of a fault. -/
inductive FaultKind
  | unknownRecordType
  | truncatedRecord
  | invalidMetadata
  | unsupportedVersion
  | incompleteStream
  | openFailed
  | readFailed
  | writeFailed
  | sinkClosed
  | mismatchedRecordType
  | invalidArgument
  deriving DecidableEq, Repr

namespace FaultKind

/-- The words for a fault of which only the class is known. -/
def summary : FaultKind → Text
  | .unknownRecordType => Text.ofAscii "unknown record type"
  | .truncatedRecord => Text.ofAscii "truncated record"
  | .invalidMetadata => Text.ofAscii "invalid metadata"
  | .unsupportedVersion => Text.ofAscii "unsupported DBN version"
  | .incompleteStream => Text.ofAscii "stream ended with an incomplete record"
  | .openFailed => Text.ofAscii "open failed"
  | .readFailed => Text.ofAscii "read failed"
  | .writeFailed => Text.ofAscii "write failed"
  | .sinkClosed => Text.ofAscii "sink closed"
  | .mismatchedRecordType => Text.ofAscii "record type does not match the encoder's schema"
  | .invalidArgument => Text.ofAscii "invalid argument"

/-- The kinds in the order of their status codes, the first of which is 1. -/
def all : List FaultKind :=
  [.unknownRecordType, .truncatedRecord, .invalidMetadata, .unsupportedVersion, .incompleteStream,
    .openFailed, .readFailed, .writeFailed, .sinkClosed, .mismatchedRecordType, .invalidArgument]

/-- The kind that a status code stands for. Zero is success and so none. -/
def ofCode? (code : Int) : Option FaultKind :=
  if 1 ≤ code then all[(code - 1).toNat]? else none

end FaultKind

/-- The words for a status code: none for success, and a catch-all outside the list. -/
def statusSummary (code : Int) : Text :=
  if code = 0 then [] else
    match FaultKind.ofCode? code with
    | some kind => kind.summary
    | none => Text.ofAscii "unknown"

/-! ### Causes -/

/-- The cause of a failure. -/
inductive Fault
  /-- A byte of the preamble differs from the magic. -/
  | badMagic (byte : UInt8) (offset : Nat)
  /-- The preamble announces a version that cannot be read. -/
  | unsupportedVersion (version : UInt8)
  /-- The announced frame has no room for the fixed fields and the list counts. -/
  | shortFrame (length : Nat)
  /-- The preamble ends before the announced frame does. -/
  | incompletePreamble (available : Nat)
  /-- The schema is neither listed nor the mark for mixed schemas. -/
  | invalidSchema (code : UInt16)
  /-- One of the symbology types is not listed. -/
  | invalidSymbolTypes (stypeIn stypeOut : UInt8)
  /-- The flag for send timestamps is neither 0 nor 1. -/
  | invalidTsOutFlag (flag : UInt8)
  /-- The preamble carries a schema definition. -/
  | schemaDefinition (length : Nat)
  /-- A 32-bit number does not fit into what is left. -/
  | shortWord (available : Nat)
  /-- The count of a symbol list does not fit into what is left. -/
  | shortSymbolCount (available : Nat)
  /-- The symbols of a list do not fit into what is left. -/
  | excessSymbols (count remaining : Nat)
  /-- The mappings do not fit into what is left. -/
  | excessMappings (count remaining : Nat)
  /-- A text field does not fit into what is left. -/
  | shortText (width remaining : Nat)
  /-- The intervals of a mapping do not fit into what is left. -/
  | excessIntervals (count : Nat) (symbol : Text) (remaining : Nat)
  /-- Metadata of another version is to be written. -/
  | unwritableVersion (version : UInt8)
  /-- A text is as long as its field or longer. -/
  | overlongText (field text : Text) (width : Nat)
  /-- The frame length does not fit into its 32 bits. -/
  | oversizedFrame (length : Nat)
  /-- A buffer does not hold a whole preamble to update. -/
  | unpatchable (size : Nat)
  /-- A record type code is not in the catalog. -/
  | unknownRType (code : UInt8)
  /-- A record is shorter than its type. -/
  | undersizedRecord (code : UInt8) (size expected : Nat)
  /-- A record has no room for a send timestamp behind its type. -/
  | missingTsOut (size : Nat)
  /-- A record in a stream is shorter than a header. -/
  | undersizedHeader (offset size : Nat)
  /-- A record in a stream is shorter than its type. -/
  | undersizedFrame (code : UInt8) (offset size expected : Nat)
  /-- A record in a stream was passed over, its type being unknown. -/
  | skippedRecord (size : Nat) (code : UInt8) (offset : Nat)
  /-- A source gave no data where it claims to have some. -/
  | emptyRead (count offset size : Nat)
  /-- A source ended within the preamble. -/
  | endedInPreamble (offset : Nat)
  /-- A source ended within a record. -/
  | endedInRecord (remaining offset : Nat)
  /-- A file could not be opened for reading. -/
  | openForReading (path : Text) (error : SystemError)
  /-- A file could not be opened for writing. -/
  | openForWriting (path : Text)
  /-- The position of a file could not be set. -/
  | seekFailed (offset : Nat) (error : SystemError)
  /-- A file could not be read. -/
  | readFailed (offset : Nat) (error : SystemError)
  /-- A file could not be written or flushed. -/
  | writeFailed (operation : Text) (error : SystemError)
  /-- Nobody reads what is written any more. -/
  | sinkClosed
  /-- An output stream has failed, now or earlier. -/
  | streamFailed
  /-- The preamble of a binary stream was given twice. -/
  | preambleRepeated
  /-- A record was given ahead of the preamble. -/
  | preambleMissing
  /-- A record or header row is of another type than the header row already written. -/
  | rowTypeMismatch (code : UInt8)
  /-- A record of a batch could not be encoded. -/
  | inRecord (code : UInt8) (publisherId : UInt16) (productId : UInt32) (tsEvent : UInt64)
      (cause : Fault)
  /-- The header of a batch could not be encoded. -/
  | inHeader (code : UInt8) (cause : Fault)
  /-- A source or sink outside the library failed, in its own words. -/
  | reported (kind : FaultKind) (words : Text)
  deriving DecidableEq, Repr

/-- Success or the fault that prevented it. -/
abbrev Outcome := Except Fault Unit

namespace Fault

/-- The fault of which only the class is known. -/
def ofKind (kind : FaultKind) : Fault :=
  .reported kind kind.summary

/-- What a failed write of a file amounts to: a broken pipe means that the sink is closed. -/
def ofWriteError (operation : Text) (error : SystemError) : Fault :=
  if error = .brokenPipe then .sinkClosed else .writeFailed operation error

/-- The class of a fault. A fault in a batch has the class of its cause. -/
def kind : Fault → FaultKind
  | .badMagic .. | .shortFrame .. | .incompletePreamble .. | .invalidSchema ..
  | .invalidSymbolTypes .. | .invalidTsOutFlag .. | .schemaDefinition .. | .shortWord ..
  | .shortSymbolCount .. | .excessSymbols .. | .excessMappings .. | .shortText ..
  | .excessIntervals .. | .unpatchable .. => .invalidMetadata
  | .unsupportedVersion .. | .unwritableVersion .. => .unsupportedVersion
  | .overlongText .. | .oversizedFrame .. | .preambleRepeated | .preambleMissing => .invalidArgument
  | .unknownRType .. | .skippedRecord .. => .unknownRecordType
  | .undersizedRecord .. | .missingTsOut .. | .undersizedHeader .. | .undersizedFrame .. =>
    .truncatedRecord
  | .endedInPreamble .. | .endedInRecord .. => .incompleteStream
  | .openForReading .. | .openForWriting .. => .openFailed
  | .emptyRead .. | .seekFailed .. | .readFailed .. => .readFailed
  | .writeFailed .. | .streamFailed => .writeFailed
  | .sinkClosed => .sinkClosed
  | .rowTypeMismatch .. => .mismatchedRecordType
  | .inRecord _ _ _ _ cause => cause.kind
  | .inHeader _ cause => cause.kind
  | .reported kind _ => kind

open Text in
/-- The wording of a fault. -/
def message : Fault → Text
  | .badMagic byte offset =>
    ofAscii "invalid magic byte 0x" ++ hexByte byte ++ ofAscii " at offset " ++ decimal offset ++
      ofAscii ", expected \"DBN\""
  | .unsupportedVersion version =>
    ofAscii "unsupported DBN version " ++ decimal version.toNat ++ ofAscii ", expected 1"
  | .shortFrame length =>
    ofAscii "metadata frame length " ++ decimal length ++
      ofAscii " is less than the minimum of 120"
  | .incompletePreamble available =>
    ofAscii "metadata is incomplete, only " ++ decimal available ++ ofAscii " bytes available"
  | .invalidSchema code => ofAscii "invalid schema " ++ decimal code.toNat
  | .invalidSymbolTypes stypeIn stypeOut =>
    ofAscii "invalid stype_in " ++ decimal stypeIn.toNat ++ ofAscii " or stype_out " ++
      decimal stypeOut.toNat
  | .invalidTsOutFlag flag => ofAscii "invalid ts_out flag " ++ decimal flag.toNat
  | .schemaDefinition length =>
    ofAscii "schema definitions are not supported, found " ++ decimal length ++ ofAscii " bytes"
  | .shortWord available =>
    ofAscii "cannot read uint32 from " ++ decimal available ++ ofAscii " bytes"
  | .shortSymbolCount available =>
    ofAscii "cannot read symbol count: cannot read uint32 from " ++ decimal available ++
      ofAscii " bytes"
  | .excessSymbols count remaining =>
    ofAscii "symbol count " ++ decimal count ++ ofAscii " exceeds remaining bytes " ++
      decimal remaining
  | .excessMappings count remaining =>
    ofAscii "mapping count " ++ decimal count ++ ofAscii " exceeds remaining bytes " ++
      decimal remaining
  | .shortText width remaining =>
    ofAscii "cannot read " ++ decimal width ++ ofAscii "-byte string from " ++ decimal remaining ++
      ofAscii " remaining bytes"
  | .excessIntervals count symbol remaining =>
    ofAscii "interval count " ++ decimal count ++ ofAscii " for symbol \"" ++ symbol ++
      ofAscii "\" exceeds remaining bytes " ++ decimal remaining
  | .unwritableVersion version => ofAscii "cannot encode DBN version " ++ decimal version.toNat
  | .overlongText field text width =>
    -- The length a text may have is a 64-bit word, so a field without any room wraps around.
    field ++ ofAscii " \"" ++ text ++ ofAscii "\" is longer than " ++
      decimal (UInt64.ofNat width - 1).toNat ++ ofAscii " characters"
  | .oversizedFrame length =>
    ofAscii "encoded metadata of " ++ decimal length ++ ofAscii " bytes is too large"
  | .unpatchable size =>
    ofAscii "cannot update metadata in " ++ decimal size ++ ofAscii "-byte buffer"
  | .unknownRType code => ofAscii "unknown rtype 0x" ++ hexByte code
  | .undersizedRecord code size expected =>
    ofAscii "rtype 0x" ++ hexByte code ++ ofAscii " record is " ++ decimal size ++
      ofAscii " bytes, expected at least " ++ decimal expected
  | .missingTsOut size =>
    ofAscii "record of " ++ decimal size ++ ofAscii " bytes is too short to carry ts_out"
  | .undersizedHeader offset size =>
    ofAscii "record at offset " ++ decimal offset ++ ofAscii " has length " ++ decimal size ++
      ofAscii " bytes, less than the 16-byte record header"
  | .undersizedFrame code offset size expected =>
    ofAscii "rtype 0x" ++ hexByte code ++ ofAscii " record at offset " ++ decimal offset ++
      ofAscii " has length " ++ decimal size ++ ofAscii " bytes, expected at least " ++
      decimal expected
  | .skippedRecord size code offset =>
    ofAscii "skipped " ++ decimal size ++ ofAscii "-byte record with unknown rtype 0x" ++
      hexByte code ++ ofAscii " at offset " ++ decimal offset
  | .emptyRead count offset size =>
    ofAscii "read of " ++ decimal count ++ ofAscii " bytes at offset " ++ decimal offset ++
      ofAscii " returned no data, source size is " ++ decimal size
  | .endedInPreamble offset =>
    ofAscii "source ended after " ++ decimal offset ++
      ofAscii " bytes, before the end of the metadata"
  | .endedInRecord remaining offset =>
    ofAscii "source ended with " ++ decimal remaining ++
      ofAscii " bytes of an incomplete record at offset " ++ decimal offset
  | .openForReading path error =>
    ofAscii "failed to open file \"" ++ path ++ ofAscii "\" for reading: " ++ error.description
  | .openForWriting path =>
    ofAscii "failed to open file \"" ++ path ++ ofAscii "\" for writing"
  | .seekFailed offset error =>
    ofAscii "seek to offset " ++ decimal offset ++ ofAscii " failed: " ++ error.description
  | .readFailed offset error =>
    ofAscii "read at offset " ++ decimal offset ++ ofAscii " failed: " ++ error.description
  | .writeFailed operation error => operation ++ ofAscii " failed: " ++ error.description
  | .sinkClosed => FaultKind.sinkClosed.summary
  | .streamFailed => ofAscii "output stream is in a failed state"
  | .preambleRepeated => ofAscii "metadata has already been encoded"
  | .preambleMissing => ofAscii "metadata must be encoded before records"
  | .rowTypeMismatch code =>
    ofAscii "rtype 0x" ++ hexByte code ++
      ofAscii " does not match the type of the CSV header row"
  | .inRecord code publisherId productId tsEvent cause =>
    ofAscii "failed to encode record with rtype 0x" ++ hexByte code ++
      ofAscii ", publisher_id " ++ decimal publisherId.toNat ++ ofAscii ", product_id " ++
      decimal productId.toNat ++ ofAscii ", ts_event " ++ decimal tsEvent.toNat ++
      ofAscii ": " ++ cause.message
  | .inHeader code cause =>
    ofAscii "failed to encode header for rtype 0x" ++ hexByte code ++ ofAscii ": " ++ cause.message
  | .reported _ words => words

end Fault

end MarketWire
