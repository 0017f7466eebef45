import DexUnseal.Dex.Container
/-!
Equality of containers with floating point numbers compared as numbers: no NaN agrees with
anything, and the two zeros agree.
-/

namespace DexUnseal.Dex.Agreement

def floats (sign infinity : Nat) (a b : Nat) : Bool :=
  let magnitude (n : Nat) := n % sign
  magnitude a ≤ infinity && magnitude b ≤ infinity && (a == b || magnitude a == 0 && magnitude b == 0)

mutual

def values : Value → Value → Bool
  | .byte a, .byte b => a == b
  | .short a, .short b => a == b
  | .char a, .char b => a == b
  | .int a, .int b => a == b
  | .long a, .long b => a == b
  | .float a, .float b => floats 0x80000000 0x7f800000 a.toNat b.toNat
  | .double a, .double b => floats 0x8000000000000000 0x7ff0000000000000 a.toNat b.toNat
  | .index k a, .index l b => k == l && a == b
  | .array as, .array bs => eachValue as bs
  | .annotated a, .annotated b => annotations a b
  | .null, .null => true
  | .boolean a, .boolean b => a == b
  | _, _ => false

def eachValue : List Value → List Value → Bool
  | [], [] => true
  | a :: as, b :: bs => values a b && eachValue as bs
  | _, _ => false

def annotations : Annotation → Annotation → Bool
  | ⟨t, as⟩, ⟨u, bs⟩ => t == u && eachElement as bs

def elements : Element → Element → Bool
  | ⟨m, a⟩, ⟨n, b⟩ => m == n && values a b

def eachElement : List Element → List Element → Bool
  | [], [] => true
  | a :: as, b :: bs => elements a b && eachElement as bs
  | _, _ => false

end

def each (agree : α → α → Bool) : List α → List α → Bool
  | [], [] => true
  | a :: as, b :: bs => agree a b && each agree as bs
  | _, _ => false

def options (agree : α → α → Bool) : Option α → Option α → Bool
  | none, none => true
  | some a, some b => agree a b
  | _, _ => false

def sets : AnnotationSet → AnnotationSet → Bool :=
  each fun a b => a.visibility == b.visibility && annotations a.toAnnotation b.toAnnotation

def keyed (agree : α → α → Bool) (a b : UInt32 × α) : Bool := a.1 == b.1 && agree a.2 b.2

def directories (a b : AnnotationDirectory) : Bool :=
  options sets a.ofClass b.ofClass && each (keyed sets) a.ofFields b.ofFields
    && each (keyed sets) a.ofMethods b.ofMethods
    && each (keyed (each (options sets))) a.ofParameters b.ofParameters

def pools (a b : Pools) : Bool :=
  a.strings == b.strings && a.types == b.types && a.protos == b.protos && a.fields == b.fields
    && a.methods == b.methods && a.handles == b.handles && each eachValue a.callSites b.callSites

def classes (a b : ClassDef) : Bool :=
  a.toClassData == b.toClassData && a.classIdx == b.classIdx && a.descriptor == b.descriptor
    && a.flags == b.flags && a.superclassIdx == b.superclassIdx && a.interfaces == b.interfaces
    && a.sourceFileIdx == b.sourceFileIdx && directories a.annotations b.annotations
    && eachValue a.staticValues b.staticValues

def containers (a b : Container) : Bool :=
  a.magic == b.magic && pools a.pools b.pools && each classes a.classes b.classes

end DexUnseal.Dex.Agreement
