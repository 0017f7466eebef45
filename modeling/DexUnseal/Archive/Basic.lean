import DexUnseal.Archive.DexEntry
import DexUnseal.Archive.Fault
import DexUnseal.Bytes
import Std.Data.TreeMap
/-!
Zip archives in memory: entries by name, in the order of their names.
-/

namespace DexUnseal

namespace Archive

inductive Compression where
  | stored
  | deflated
  deriving DecidableEq

structure Entry where
  data : Bytes
  /-- How the entry is to be written, or was; nothing if its name decides. -/
  compression : Option Compression

end Archive

structure Archive where
  entries : Std.TreeMap String Archive.Entry

namespace Archive

def empty : Archive := ⟨∅⟩

instance : Inhabited Archive := ⟨empty⟩

def toList (a : Archive) : List (String × Entry) := a.entries.toList

def names (a : Archive) : List String := a.entries.keys

def entry? (a : Archive) (name : String) : Option Entry := a.entries[name]?

def insert (a : Archive) (name : String) (e : Entry) : Archive := ⟨a.entries.insert name e⟩

def replace (a : Archive) (name : String) (data : Bytes) : Except NameFault Archive := do
  let name ← EntryName.ofPath ⟨name⟩
  return a.insert name ⟨data, none⟩

def replaceInto (name : String) (data : Bytes) : ExceptT NameFault (StateM Archive) Unit := do
  let name ← ExceptT.mk (pure (EntryName.ofPath ⟨name⟩))
  modify fun a => a.insert name ⟨data, none⟩

def dexEntries (a : Archive) : List (String × Bytes) :=
  let numbered := a.toList.filterMap fun (name, entry) =>
    (DexEntry.index? name).map fun number => (number, name, entry.data)
  (numbered.mergeSort fun x y => x.1 ≤ y.1).map fun (_, name, data) => (name, data)

end Archive

end DexUnseal
