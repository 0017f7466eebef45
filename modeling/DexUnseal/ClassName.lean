/-!
Class names: `foo.Bar$Baz` in the language, `Lfoo/Bar$Baz;` as a type descriptor.
-/

namespace DexUnseal

structure ClassName where
  path : String
  deriving DecidableEq

namespace ClassName

def replaceChar (old new : Char) (s : String) : String :=
  String.ofList (s.toList.map fun c => if c = old then new else c)

/-- Nothing for primitive types, arrays, and whatever else does not read `L…;` around some name. -/
def ofDescriptor? (descriptor : String) : Option ClassName :=
  match descriptor.toList with
  | 'L' :: rest =>
    if rest.getLast? = some ';' ∧ rest.dropLast ≠ [] then some ⟨String.ofList rest.dropLast⟩ else none
  | _ => none

def ofDotted (name : String) : ClassName := ⟨replaceChar '.' '/' name⟩

def descriptor (n : ClassName) : String := "L" ++ n.path ++ ";"

def dotted (n : ClassName) : String := replaceChar '/' '.' n.path

end ClassName

end DexUnseal
