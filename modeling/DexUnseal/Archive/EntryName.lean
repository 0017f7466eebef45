import DexUnseal.Path
/-!
Names of archive entries: relative paths without dots, with slashes between their parts.
-/

namespace DexUnseal.Archive

inductive NameFault where
  | absolute (path : String)
  | parent
  | empty
  deriving DecidableEq

namespace NameFault

def message : NameFault → String
  | absolute path => "invalid entry path component in " ++ path
  | parent => "entry paths may not contain parent components"
  | empty => "entry name must not be empty"

end NameFault

namespace EntryName

/-- Backslashes separate too. -/
def withSlashes (s : String) : String :=
  String.ofList (s.toList.map fun c => if c = '\\' then '/' else c)

def parts (path : Path) : List Path.Component → Except NameFault (List String)
  | [] => pure []
  | .root :: _ => throw (.absolute path.text)
  | .parent :: _ => throw .parent
  | .current :: rest => parts path rest
  | .name text :: rest => do
    let more ← parts path rest
    return withSlashes text :: more

def ofPath (path : Path) : Except NameFault String := do
  let parts ← parts path path.components
  if parts.isEmpty then throw .empty
  return String.intercalate "/" parts

end EntryName

end DexUnseal.Archive
