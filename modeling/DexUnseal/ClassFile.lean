import DexUnseal.Dex.Layout
import DexUnseal.Unsealing
/-!
Single classes of a container.
-/

namespace DexUnseal

open Dex

structure ClassFile where
  container : Container
  definition : ClassDef

namespace ClassFile

def ofIndex? (c : Container) (index : Nat) : Option ClassFile :=
  c.classes[index]?.map fun definition => ⟨c, definition⟩

/-- The class of a name in a loaded container; of several the last. -/
def resolve? (c : Container) (name : String) : Option ClassFile :=
  (c.classes.reverse.find? fun d => d.dottedName = name).map fun definition => ⟨c, definition⟩

def name (f : ClassFile) : String := f.definition.dottedName

def innerClassFlags? (f : ClassFile) : Option Int32 := do
  let nameIdx ← f.container.pools.stringIdx? Unsealing.accessFlagsName
  let item ← f.definition.innerClassAnnotation? f.container.pools
  let element ← item.element? nameIdx
  element.value.int?

def method? (f : ClassFile) (name : String) : Option MethodDef :=
  f.definition.methods.find? fun m => f.container.pools.methodName? m.methodIdx = some name

def encode (f : ClassFile) : Except Fault Bytes := (f.container.withClasses [f.definition]).encode

def describe (f : ClassFile) : String := "ClassFile \x7b name: " ++ Text.quoted f.name ++ ", .. \x7d"

end ClassFile

end DexUnseal
