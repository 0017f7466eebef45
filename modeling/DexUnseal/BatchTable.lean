import DexUnseal.Batch
import DexUnseal.BatchTask
import DexUnseal.ClassFilter
import DexUnseal.Dex.Scan
import Std.Data.TreeMap
/-!
The batches of an archive, and the batch of each class name.
-/

namespace DexUnseal

structure Batch where
  /-- Counted from one through the whole archive. -/
  index : Nat
  source : DexSource
  names : List String
  holder : Holder Workspace Loaded

structure BatchTable where
  batches : List Batch
  indices : Std.TreeMap String Nat

namespace BatchTable

def empty : BatchTable := ⟨[], ∅⟩

def contains (t : BatchTable) (name : String) : Bool := t.indices.contains name

def batch? (t : BatchTable) (name : String) : Option Batch := do
  let index ← t.indices[name]?
  t.batches.find? fun b => b.index = index

def toList (t : BatchTable) : List (String × Batch) :=
  t.indices.keys.filterMap fun name => (t.batch? name).map fun batch => (name, batch)

def setHolder (t : BatchTable) (index : Nat) (holder : Holder Workspace Loaded) : BatchTable :=
  { t with batches := t.batches.map fun b => if b.index = index then { b with holder } else b }

def materialize (t : BatchTable) (batch : Batch) : StateM Workspace (Outcome Loaded × BatchTable) := do
  let (outcome, holder) ← batch.holder.materialize
  return (outcome, t.setHolder batch.index holder)

end BatchTable

structure BatchMapper where
  filter : ClassFilter
  batchSize : Nat
  layout : Cache.Layout
  loader : Loader

namespace BatchMapper

def task (m : BatchMapper) (source : DexSource) (index : Nat) (descriptors : List String) : BatchTask :=
  { source, index, descriptors, layout := m.layout, loader := m.loader }

def batch (m : BatchMapper) (source : DexSource) (index : Nat) (names : List String) : Batch :=
  let task := m.task source index (names.map fun name => (ClassName.ofDotted name).descriptor)
  { index, source, names
    holder := .ofJob (source.name ++ " batch " ++ Text.decimal index) task.run }

def add (m : BatchMapper) (source : DexSource) (t : BatchTable) (names : List String) : BatchTable :=
  let index := t.batches.length + 1
  { batches := t.batches ++ [m.batch source index names]
    indices := names.foldl (fun indices name => indices.insert name index) t.indices }

/-- Adds the accepted classes of a dex file. Dex files have to come in the order of their numbers: a
name that the table holds already was defined by an earlier one and stays with that. -/
def map (m : BatchMapper) (source : DexSource) (t : BatchTable) : Except Dex.Fault BatchTable := do
  let declared ← Dex.Scan.classNames source.bytes
  let names := declared.filter fun name => m.filter.accepts name && !t.contains name
  return (batches m.batchSize names).foldl (m.add source) t

/-- The same on a table that is changed in place, batch by batch. What has been changed stays so after a fault. -/
def mapInto (m : BatchMapper) (source : DexSource) : ExceptT Dex.Fault (StateM BatchTable) Unit := do
  let declared ← ExceptT.mk (pure (Dex.Scan.classNames source.bytes))
  let t ← get
  let names := declared.filter fun name => m.filter.accepts name && !t.contains name
  (batches m.batchSize names).forM fun names => modify fun t => m.add source t names

end BatchMapper

end DexUnseal
