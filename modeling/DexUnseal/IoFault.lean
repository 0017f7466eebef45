/-!
Faults of input and output.
-/

namespace DexUnseal

inductive IoKind where
  | notFound
  | permissionDenied
  | alreadyExists
  | notADirectory
  | isADirectory
  | directoryNotEmpty
  | readOnlyFilesystem
  | storageFull
  | fileTooLarge
  | resourceBusy
  | invalidFilename
  | invalidInput
  | invalidData
  | timedOut
  | writeZero
  | wouldBlock
  | brokenPipe
  | interrupted
  | unsupported
  | unexpectedEof
  | outOfMemory
  | other
  deriving DecidableEq

/-- A fault that the system reports brings its own text, which is not known here. -/
structure IoFault where
  kind : IoKind
  text? : Option String
  deriving DecidableEq

namespace IoFault

def ofSystem (kind : IoKind) : IoFault := ⟨kind, none⟩

def described (kind : IoKind) (text : String) : IoFault := ⟨kind, some text⟩

end IoFault

end DexUnseal
