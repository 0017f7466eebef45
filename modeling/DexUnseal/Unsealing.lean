import DexUnseal.Dex.Container
/-!
Opens classes to subclassing: clears the final flag of classes, of their methods, and of the flags
that inner class annotations repeat. All else stays as it is.
-/

namespace DexUnseal.Unsealing

open Dex

structure InnerClassKeys where
  typeIdx : UInt32
  nameIdx : UInt32

def accessFlagsName : String := "accessFlags"

def InnerClassKeys.ofPools? (p : Pools) : Option InnerClassKeys := do
  let typeIdx ← p.typeIdx? ClassDef.innerClassType
  let nameIdx ← p.stringIdx? accessFlagsName
  return ⟨typeIdx, nameIdx⟩

def element (nameIdx : UInt32) (e : Element) : Element :=
  match e.value with
  | .int v => if e.nameIdx = nameIdx then ⟨e.nameIdx, .int (v &&& ~~~0x10)⟩ else e
  | _ => e

def item (keys : InnerClassKeys) (item : AnnotationItem) : AnnotationItem :=
  if item.typeIdx = keys.typeIdx then
    { item with elements := item.elements.map (element keys.nameIdx) }
  else item

def method (m : MethodDef) : MethodDef := { m with flags := m.flags.withoutFinal }

def directory (keys : Option InnerClassKeys) (d : AnnotationDirectory) : AnnotationDirectory :=
  match keys with
  | some keys => { d with ofClass := d.ofClass.map (·.map (item keys)) }
  | none => d

def classDef (keys : Option InnerClassKeys) (c : ClassDef) : ClassDef :=
  { c with
    flags := c.flags.withoutFinal
    annotations := directory keys c.annotations
    directMethods := c.directMethods.map method
    virtualMethods := c.virtualMethods.map method }

def container (c : Container) : Container :=
  c.withClasses (c.classes.map (classDef (InnerClassKeys.ofPools? c.pools)))

end DexUnseal.Unsealing
