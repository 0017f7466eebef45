import DexUnseal.Bytes
import DexUnseal.Dex.ItemKind
/-!
The data section of a dex file while it is laid out. Since the id sections come first and their
sizes are known, an item's offset is final when the item is placed. Offsets are words and wrap.
-/

namespace DexUnseal.Dex

structure MapItem where
  kind : ItemKind
  count : UInt32
  offset : UInt32
  deriving DecidableEq

def MapItem.encode (run : MapItem) : Bytes :=
  Bytes.word16 run.kind.typeCode ++ Bytes.word16 0 ++ Bytes.word32 run.count ++ Bytes.word32 run.offset

structure DataSection where
  base : UInt32
  bytes : Array UInt8
  runs : List MapItem

namespace DataSection

def empty (base : UInt32) : DataSection := ⟨base, #[], []⟩

def position (d : DataSection) : UInt32 := d.base + UInt32.ofNat d.bytes.size

def alignUp (alignment position : UInt32) : UInt32 :=
  let last := position + (alignment - 1)
  last - last % alignment

def padding (alignment position : UInt32) : Nat :=
  let target := alignUp alignment position
  if position < target then (target - position).toNat else 0

def align (alignment : UInt32) (d : DataSection) : DataSection :=
  { d with bytes := d.bytes ++ List.replicate (padding alignment d.position) (0 : UInt8) }

def countItem (kind : ItemKind) (d : DataSection) : DataSection :=
  match d.runs with
  | run :: runs =>
    if run.kind = kind then { d with runs := { run with count := run.count + 1 } :: runs }
    else { d with runs := ⟨kind, 1, d.position⟩ :: run :: runs }
  | [] => { d with runs := [⟨kind, 1, d.position⟩] }

def append (bytes : Bytes) (d : DataSection) : DataSection := { d with bytes := d.bytes ++ bytes }

end DataSection

abbrev Placing := StateM DataSection

namespace Placing

def start (kind : ItemKind) : Placing UInt32 := do
  modify (DataSection.align kind.alignment)
  let offset := (← get).position
  modify (DataSection.countItem kind)
  return offset

def placeFrom (kind : ItemKind) (item : DataSection → Bytes) : Placing UInt32 := do
  let offset ← start kind
  modify fun d => d.append (item d)
  return offset

def place (kind : ItemKind) (item : Bytes) : Placing UInt32 := placeFrom kind fun _ => item

/-- Absent items have offset zero. -/
def placeIf (kind : ItemKind) (item : Option Bytes) : Placing UInt32 :=
  match item with
  | some item => place kind item
  | none => pure 0

end Placing

end DexUnseal.Dex
