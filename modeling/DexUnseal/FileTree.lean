import DexUnseal.Bytes
import DexUnseal.IoFault
import DexUnseal.Path
/-!
A tree of files and directories, and what the operations on it report. Relative paths start at the
root of the tree as absolute ones do.
-/

namespace DexUnseal

abbrev Location := List String

namespace Path

/-- One component further; the parent of the root is the root. -/
def Component.step (here : Location) : Component → Location
  | .root => []
  | .current => here
  | .parent => here.dropLast
  | .name text => here ++ [text]

def location (p : Path) : Location := p.components.foldl Component.step []

def ofLocation (l : Location) : Path := ⟨"/" ++ String.intercalate "/" l⟩

end Path

inductive FileNode where
  | file (bytes : Bytes)
  | directory
  deriving DecidableEq

structure FileTree where
  nodes : List (Location × FileNode)

namespace FileTree

def empty : FileTree := ⟨[]⟩

instance : Inhabited FileTree := ⟨empty⟩

def node? (t : FileTree) (l : Location) : Option FileNode :=
  if l = [] then some .directory else t.nodes.lookup l

def set (t : FileTree) (l : Location) (n : FileNode) : FileTree :=
  ⟨(l, n) :: t.nodes.filter (·.1 ≠ l)⟩

def erase (t : FileTree) (l : Location) : FileTree := ⟨t.nodes.filter (·.1 ≠ l)⟩

def way : Location → List Location
  | [] => []
  | name :: rest => [name] :: (way rest).map (name :: ·)

def nameLimit : Nat := 255

def isTooLong (name : String) : Bool := nameLimit < name.utf8ByteSize

/-- Why nothing is at a location, which is given by a place and the way ahead: the first step that
is not possible tells. -/
def absence (t : FileTree) : (here : Location) → (ahead : List String) → IoFault
  | _, [] => .ofSystem .notFound
  | here, name :: ahead =>
    match t.node? here with
    | some .directory =>
      if isTooLong name then .ofSystem .invalidFilename else t.absence (here ++ [name]) ahead
    | some (.file _) => .ofSystem .notADirectory
    | none => .ofSystem .notFound

/-- Names hold no zero characters; a path that does is refused before anything is looked up. -/
def checkNames (l : Location) : Except IoFault Unit :=
  if l.any fun name => name.toList.contains '\x00' then
    throw (.described .invalidInput "file name contained an unexpected NUL byte")
  else pure ()

def exists? (t : FileTree) (p : Path) : Bool := (t.node? p.location).isSome

def read (t : FileTree) (p : Path) : Except IoFault Bytes := do
  checkNames p.location
  match t.node? p.location with
  | some (.file bytes) => return bytes
  | some .directory => throw (.ofSystem .isADirectory)
  | none => throw (t.absence [] p.location)

def write (t : FileTree) (p : Path) (bytes : Bytes) : Except IoFault FileTree := do
  let l := p.location
  checkNames l
  match t.node? l with
  | some .directory => throw (.ofSystem .isADirectory)
  | some (.file _) => return t.set l (.file bytes)
  | none =>
    if t.node? l.dropLast = some .directory ∧ ¬ l.any isTooLong then return t.set l (.file bytes)
    else throw (t.absence [] l)

def createDirectory (t : FileTree) (l : Location) : Except IoFault FileTree :=
  match t.node? l with
  | some .directory => pure t
  | some (.file _) => throw (.ofSystem .alreadyExists)
  | none => if l.any isTooLong then throw (t.absence [] l) else pure (t.set l .directory)

def checkAbove (t : FileTree) (l : Location) : Except IoFault Unit := do
  checkNames l
  if (way l.dropLast).any fun above => t.node? above matches some (.file _) then
    throw (.ofSystem .notADirectory)

def createDirectories (t : FileTree) (l : Location) : Except IoFault FileTree := do
  t.checkAbove l
  (way l).foldlM createDirectory t

def remove (t : FileTree) (p : Path) : Except IoFault FileTree := do
  checkNames p.location
  match t.node? p.location with
  | some (.file _) => return t.erase p.location
  | some .directory => throw (.ofSystem .isADirectory)
  | none => throw (t.absence [] p.location)

def walk? (t : FileTree) : (here : Location) → List Path.Component → Option Location
  | here, [] => if (t.node? here).isSome then some here else none
  | here, c :: rest => if t.node? here = some .directory then t.walk? (c.step here) rest else none

/-- The path from the root to a place that exists; any other path as it is. The empty path leads
nowhere. -/
def canonical (t : FileTree) (p : Path) : Path :=
  if p.components = [] then p
  else
    match t.walk? [] p.components with
    | some l => .ofLocation l
    | none => p

end FileTree

end DexUnseal
