import DexUnseal.Dex.ClassDef
/-!
Containers: the decoded form of one dex file.
-/

namespace DexUnseal.Dex

structure Container where
  magic : Block 8
  pools : Pools
  classes : List ClassDef

namespace Container

def decode (file : Bytes) : Except Fault Container := do
  let header ← (Header.read file).readAt file 0
  let pools ← Pools.read file header
  let classDef (number : Nat) := Reader.within (.classDef number) (ClassDef.read file pools)
  let classes ←
    (Reader.counted classDef 0 header.classes.size.toNat).readAt file header.classes.offset.toNat
  return ⟨header.magic, pools, classes⟩

def class? (c : Container) (descriptor : String) : Option ClassDef :=
  c.classes.find? fun d => d.descriptor = descriptor

def withClasses (c : Container) (classes : List ClassDef) : Container := { c with classes }

def select (c : Container) (descriptors : List String) : Container :=
  c.withClasses (c.classes.filter fun d => d.descriptor ∈ descriptors)

end Container

end DexUnseal.Dex
