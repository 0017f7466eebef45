import DexUnseal.BatchTable
import DexUnseal.Settings
/-!
Serves the classes of one archive, opened. The archive is looked through at the first request for
a class that may be opened; each batch is worked on at the first request for one of its classes.
-/

namespace DexUnseal

structure ClassSource where
  archive : Path
  mapper : BatchMapper
  /-- Nothing until the archive has been looked through. -/
  table? : Option BatchTable

namespace ClassSource

def ofSettings (s : Settings) (loader : Loader) (archive : Path) (files : FileTree)
    (claims : Cache.Claims) : Except Failure (ClassSource × Cache.Claims) := do
  s.check
  let (layout, claims) := Cache.Layout.forArchive files s.cacheDir archive claims
  return (⟨archive, ⟨s.filter, s.batchSize, layout, loader⟩, none⟩, claims)

def scan (mapper : BatchMapper) (a : Archive) : Except Dex.Fault BatchTable :=
  a.dexEntries.foldlM (fun table (name, bytes) => mapper.map ⟨name, bytes⟩ table) .empty

def table (s : ClassSource) : Filing (Stop Failure) BatchTable :=
  match s.table? with
  | some table => pure table
  | none => do
    let a ← ExceptT.adapt (Stop.map Failure.ofArchive) (Archive.loadDexEntries s.archive)
    Filing.given ((scan s.mapper a).mapError fun fault => .fault (.dex fault))

/-- The opened class of a name. There is none for a name that the filter rejects, or if the loaded
batch does not define it; an accepted name that no dex file declares is a failure. -/
def get (s : ClassSource) (name : String) : StateM Workspace (Outcome (Option ClassFile) × ClassSource) :=
  if s.mapper.filter.accepts name then do
    match ← Workspace.filing s.table with
    | .error stop => return (.ofStop stop, s)
    | .ok table =>
      match table.batch? name with
      | none =>
        return (.failure (.illegalState (.notFound name s.archive.text)), { s with table? := some table })
      | some batch =>
        let (outcome, table) ← table.materialize batch
        return (outcome.map fun loaded => loaded.resolve? name, { s with table? := some table })
  else
    return (.value none, s)

end ClassSource

end DexUnseal
