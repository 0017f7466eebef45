/-!
File paths with slashes. Two paths are the same place if they have the same components: repeated
slashes, slashes at the end and inner dots do not count.
-/

namespace DexUnseal

structure Path where
  text : String
  deriving DecidableEq

namespace Path

inductive Component where
  | root
  | current
  | parent
  | name (text : String)
  deriving DecidableEq

def pieces : List Char → List (List Char)
  | [] => [[]]
  | c :: rest =>
    if c = '/' then [] :: pieces rest
    else
      match pieces rest with
      | [] => [[c]]
      | piece :: more => (c :: piece) :: more

def component? : List Char → Option Component
  | [] => none
  | ['.'] => none
  | ['.', '.'] => some .parent
  | piece => some (.name (String.ofList piece))

def components (p : Path) : List Component :=
  match pieces p.text.toList with
  | [[]] => []
  | [] :: rest => .root :: rest.filterMap component?
  | ['.'] :: rest => .current :: rest.filterMap component?
  | all => all.filterMap component?

def same (p q : Path) : Bool := p.components = q.components

def isAbsolute (p : Path) : Bool := p.text.toList.head? = some '/'

/-- An absolute second path stands alone. -/
def join (p q : Path) : Path :=
  if q.isAbsolute then q
  else if p.text.toList.getLast?.all (· = '/') then ⟨p.text ++ q.text⟩
  else ⟨p.text ++ "/" ++ q.text⟩

def fileName? (p : Path) : Option String :=
  match p.components.getLast? with
  | some (.name text) => some text
  | _ => none

/-- A name up to its last dot; a dot in front does not count. -/
def stem (name : String) : String :=
  let chars := name.toList
  match (chars.reverse.dropWhile (· ≠ '.')).drop 1 with
  | [] => name
  | front => String.ofList front.reverse

def fileStem? (p : Path) : Option String := p.fileName?.map stem

end Path

end DexUnseal
