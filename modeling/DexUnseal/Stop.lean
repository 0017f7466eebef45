/-!
How work ends early.
-/

namespace DexUnseal

inductive Stop (ε : Type) where
  | fault (f : ε)
  /-- Nobody asked for this end, and it can only be passed on. -/
  | crash (text : String)
  deriving DecidableEq

namespace Stop

def map (f : ε → ε') : Stop ε → Stop ε'
  | fault x => fault (f x)
  | crash text => crash text

end Stop

end DexUnseal
