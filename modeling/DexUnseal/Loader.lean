import DexUnseal.Cache.Layout
import DexUnseal.ClassFile
import DexUnseal.Holder
/-!
Loaders turn the files of a batch into something classes can be looked up in.
-/

namespace DexUnseal

structure Loaded where
  resolve? : String → Option ClassFile

namespace Loaded

def ofContainer (c : Dex.Container) : Loaded := ⟨ClassFile.resolve? c⟩

end Loaded

/-- The source archive exists when a loader is called, the optimized file does not. -/
abbrev Loader := Cache.Entry → FileTree → Ending Loaded × FileTree

namespace Loader

def ofFiling (steps : Cache.Entry → Filing (Stop Failure) Loaded) : Loader := fun entry files =>
  match steps entry files with
  | (.ok loaded, files) => (.value loaded, files)
  | (.error stop, files) => (.ofStop stop, files)

def decoding : Loader := ofFiling fun entry => do
  let archive ← ExceptT.adapt (Stop.map Failure.ofArchive) (Archive.load entry.source)
  match archive.entry? Cache.Entry.dexName with
  | none =>
    throw (.fault (.io (.described .notFound ("no " ++ Cache.Entry.dexName ++ " in " ++ entry.source.text))))
  | some dex =>
    let container ← Filing.given ((Dex.Container.decode dex.data).mapError fun fault => .fault (.dex fault))
    ExceptT.adapt (fun fault => .fault (.io fault)) (Filing.write entry.optimized dex.data)
    return .ofContainer container

end Loader

end DexUnseal
