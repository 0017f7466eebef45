import DexUnseal.Archive.Fault
import DexUnseal.Dex.Fault
/-!
Why a class cannot be served. Malformed dex files and archives count as invalid input data.
-/

namespace DexUnseal

inductive IllegalState where
  | notFound (className archive : String)
  | emptyBatches
  | invalidSettings (file : String)
  | described (text : String)
  deriving DecidableEq

namespace IllegalState

def message : IllegalState → String
  | notFound className archive => className ++ " was not found in " ++ archive
  | emptyBatches => "batch_size must be at least 1"
  | invalidSettings file => "invalid config " ++ file ++ ": "
  | described text => text

end IllegalState

inductive Failure where
  | io (fault : IoFault)
  | dex (fault : Dex.Fault)
  | zip (fault : Archive.ZipFault)
  | input (fault : Archive.InputFault)
  | illegalState (state : IllegalState)
  | loader (text : String)
  | unexpected (text : String)

instance : Inhabited Failure := ⟨.unexpected ""⟩

namespace Failure

def ofArchive : Archive.Fault → Failure
  | .io fault => io fault
  | .zipIo fault => io fault
  | .zip fault => zip fault
  | .input fault => input fault

def ioKind? : Failure → Option IoKind
  | io fault => some fault.kind
  | dex _ => some .invalidData
  | zip _ => some .invalidData
  | input _ => some .invalidData
  | _ => none

def detail? : Failure → Option String
  | io fault => fault.text?
  | dex fault => some fault.message
  | zip fault => (Archive.Fault.zip fault).message?
  | input fault => (Archive.Fault.input fault).message?
  | _ => none

def message? : Failure → Option String
  | illegalState state => some ("illegal state: " ++ state.message)
  | loader text => some ("loader error: " ++ text)
  | unexpected text => some ("unexpected error: " ++ text)
  | failure => failure.detail?.map ("I/O error: " ++ ·)

def sources (f : Failure) : List String :=
  f.detail?.toList ++
    match f with
    | zip fault => (Archive.Fault.zip fault).sources
    | _ => []

end Failure

end DexUnseal
