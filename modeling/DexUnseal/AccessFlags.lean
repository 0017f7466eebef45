/-!
The access flags of classes, fields and methods.
-/

namespace DexUnseal

structure AccessFlags where
  bits : UInt32
  deriving DecidableEq

namespace AccessFlags

def final : UInt32 := 0x10

def isFinal (f : AccessFlags) : Bool := f.bits &&& final != 0

def withoutFinal (f : AccessFlags) : AccessFlags := ⟨f.bits &&& ~~~final⟩

end AccessFlags

end DexUnseal
