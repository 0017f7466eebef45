import DexUnseal.FileTree
/-!
Steps that work on the files. What a step has changed stays changed if a later one fails.
-/

namespace DexUnseal

abbrev Filing (ε : Type) := ExceptT ε (StateM FileTree)

namespace Filing

def given (result : Except ε α) : Filing ε α := fun files => (result, files)

/-- A change of the files, which are left alone if it is not possible. -/
def change (f : FileTree → Except IoFault FileTree) : Filing IoFault Unit := fun files =>
  match f files with
  | .ok files => (.ok (), files)
  | .error fault => (.error fault, files)

def read (p : Path) : Filing IoFault Bytes := fun files => (files.read p, files)

def write (p : Path) (bytes : Bytes) : Filing IoFault Unit := change fun files => files.write p bytes

/-- Directories that were made stay if one further down cannot be made. -/
def createDirectories (l : Location) : Filing IoFault Unit := do
  change fun files => do
    files.checkAbove l
    return files
  (FileTree.way l).forM fun above => change fun files => files.createDirectory above

def removeIfPresent (p : Path) : Filing IoFault Unit := change fun files =>
  match files.remove p with
  | .ok files => pure files
  | .error fault => if fault.kind = .notFound then pure files else throw fault

end Filing

end DexUnseal
