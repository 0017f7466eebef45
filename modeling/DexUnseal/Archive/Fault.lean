import DexUnseal.Archive.EntryName
import DexUnseal.IoFault
import DexUnseal.Text.Numeral
/-!
What goes wrong with archives.
-/

namespace DexUnseal.Archive

inductive ZipFault where
  | tooShort
  | noEndRecord
  | misplacedDirectory
  | directoryOutOfReach
  | directorySignature
  | localSignature
  | offsetOverflow
  | noRoomForZip64
  | noZip64EndRecord
  | severalDisks
  | missingAesField
  | aesFieldLength
  | aesVendor
  | aesVendorVersion
  | aesStrength
  | passwordRequired
  | unsupportedMethod
  | entryNotFound
  deriving DecidableEq

namespace ZipFault

def invalid (detail : String) : String := "invalid Zip archive: " ++ detail

def unsupported (detail : String) : String := "unsupported Zip archive: " ++ detail

def message : ZipFault → String
  | tooShort => invalid "Invalid zip header"
  | noEndRecord => invalid "Could not find central directory end"
  | misplacedDirectory => invalid "Invalid central directory size or offset"
  | directoryOutOfReach => invalid "Could not seek to start of central directory"
  | directorySignature => invalid "Invalid Central Directory header"
  | localSignature => invalid "Invalid local file header"
  | offsetOverflow => invalid "Archive header is too large"
  | noRoomForZip64 => invalid "File cannot contain ZIP64 central directory end"
  | noZip64EndRecord => invalid "Could not find ZIP64 central directory end"
  | severalDisks => unsupported "Support for multi-disk files is not implemented"
  | missingAesField => invalid "AES encryption without AES extra data field"
  | aesFieldLength => unsupported "AES extra data field has an unsupported length"
  | aesVendor => invalid "Invalid AES vendor"
  | aesVendorVersion => invalid "Invalid AES vendor version"
  | aesStrength => invalid "Invalid AES encryption strength"
  | passwordRequired => unsupported "Password required to decrypt file"
  | unsupportedMethod => unsupported "Compression method not supported"
  | entryNotFound => "specified file not found in archive"

end ZipFault

inductive InputFault where
  | name (fault : NameFault)
  | tooLarge (name : String)
  | tooManyEntries (count : Nat)
  | described (text : String)
  deriving DecidableEq

namespace InputFault

def message : InputFault → String
  | .name fault => fault.message
  | tooLarge entry => entry ++ " is too large for a zip entry"
  | tooManyEntries count => "too many entries: " ++ Text.decimal count
  | described text => text

end InputFault

inductive Fault where
  | io (fault : IoFault)
  | zipIo (fault : IoFault)
  | zip (fault : ZipFault)
  | input (fault : InputFault)
  deriving DecidableEq

namespace Fault

def message? : Fault → Option String
  | io fault => fault.text?.map ("I/O error: " ++ ·)
  | zipIo fault => fault.text?.map ("ZIP error: " ++ ·)
  | zip fault => some ("ZIP error: " ++ fault.message)
  | input fault => some fault.message

def sources : Fault → List String
  | io fault => fault.text?.toList
  | zipIo fault => fault.text?.toList ++ fault.text?.toList
  | zip fault => [fault.message]
  | input _ => []

end Fault

end DexUnseal.Archive
