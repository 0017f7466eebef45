import DexUnseal.Loader
/-!
The work on one batch: opening its classes, putting them into the cache, and loading them.
-/

namespace DexUnseal

structure DexSource where
  name : String
  bytes : Bytes

def DexSource.describe (s : DexSource) : String :=
  "DexSource \x7b name: " ++ Text.quoted s.name ++ ", len: " ++ Text.decimal s.bytes.length ++ " \x7d"

structure LoadCall where
  source : Path
  sourceExists : Bool
  optimizedExists : Bool

structure Workspace where
  files : FileTree
  loads : List LoadCall

namespace Workspace

def filing (steps : Filing ε α) : StateM Workspace (Except ε α) := fun w =>
  let (result, files) := steps w.files
  (result, { w with files })

def load (loader : Loader) (entry : Cache.Entry) : StateM Workspace (Ending Loaded) := fun w =>
  let call : LoadCall := ⟨entry.source, w.files.exists? entry.source, w.files.exists? entry.optimized⟩
  let (ending, files) := loader entry w.files
  (ending, ⟨files, w.loads ++ [call]⟩)

end Workspace

structure BatchTask where
  source : DexSource
  index : Nat
  descriptors : List String
  layout : Cache.Layout
  loader : Loader

namespace BatchTask

def opened (t : BatchTask) : Except Dex.Fault Bytes := do
  let container ← Dex.Container.decode t.source.bytes
  (Unsealing.container (container.select t.descriptors)).encode

def entry (t : BatchTask) : Cache.Entry := t.layout.entry t.index

def run (t : BatchTask) : StateM Workspace (Ending Loaded) :=
  match t.opened with
  | .error fault => pure (.failure (.dex fault))
  | .ok dex => do
    match ← Workspace.filing (t.entry.store dex) with
    | .error failure => return .failure failure
    | .ok () => Workspace.load t.loader t.entry

end BatchTask

end DexUnseal
