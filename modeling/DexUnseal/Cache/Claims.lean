import DexUnseal.Path
import DexUnseal.Text.Numeral
/-!
Which directories are in use. A directory that is taken gets a number behind its name instead, the
least from two on that is free.
-/

namespace DexUnseal.Cache

structure Claim where
  dir : Path
  holders : Nat

structure Claims where
  claims : List Claim

namespace Claims

def empty : Claims := ⟨[]⟩

instance : Inhabited Claims := ⟨empty⟩

def contains (c : Claims) (dir : Path) : Bool := c.claims.any fun claim => claim.dir.same dir

def numbered (base : Path) (k : Nat) : Path := ⟨base.text ++ "-" ++ Text.decimal k⟩

/-- The base itself or a numbered one. Of one more candidates than there are claims one is free. -/
def firstFree (c : Claims) (base : Path) : Path :=
  let candidates := base :: (List.range' 2 c.claims.length).map (numbered base)
  (candidates.find? fun dir => !c.contains dir).getD base

def acquire (c : Claims) (base : Path) : Path × Claims :=
  let dir := c.firstFree base
  (dir, ⟨⟨dir, 1⟩ :: c.claims⟩)

def retain (c : Claims) (dir : Path) : Claims :=
  ⟨c.claims.map fun claim => if claim.dir.same dir then { claim with holders := claim.holders + 1 } else claim⟩

def lower (c : Claims) (dir : Path) : Claims :=
  ⟨c.claims.map fun claim => if claim.dir.same dir then { claim with holders := claim.holders - 1 } else claim⟩

def isHeld (c : Claims) (dir : Path) : Bool := c.claims.any fun claim => claim.dir.same dir && claim.holders != 0

def free (c : Claims) (dir : Path) : Claims := ⟨c.claims.filter fun claim => !claim.dir.same dir⟩

/-- One holder less; the last one frees the directory. -/
def release (c : Claims) (dir : Path) : Claims :=
  let c := c.lower dir
  if c.isHeld dir then c else c.free dir

end Claims

end DexUnseal.Cache
