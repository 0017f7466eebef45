import DexUnseal.Archive.File
import DexUnseal.Cache.Claims
import DexUnseal.Digest.Sha1
import DexUnseal.Failure
/-!
Where opened batches are kept. Each archive has a directory named for it and for a digest of its
path; batch `n` has the files `classesn.zip` and, written by the loader, `classesn.zip.dex`.
-/

namespace DexUnseal.Cache

structure Layout where
  dir : Path

structure Entry where
  source : Path
  optimized : Path
  deriving DecidableEq

namespace Layout

def keyLength : Nat := 12

def key (archive : Path) : String :=
  let digits := (Digest.Sha1.digest (Text.Utf8.encode archive.text)).val.flatMap fun b =>
    (Text.hexPadded 2 b.toNat).toList
  String.ofList (digits.take keyLength)

def baseDir (files : FileTree) (cacheDir archive : Path) : Path :=
  let name := archive.fileStem?.getD "archive"
  cacheDir.join ⟨name ++ "-" ++ key (files.canonical archive)⟩

def forArchive (files : FileTree) (cacheDir archive : Path) (claims : Claims) : Layout × Claims :=
  let (dir, claims) := claims.acquire (baseDir files cacheDir archive)
  (⟨dir⟩, claims)

def entry (l : Layout) (index : Nat) : Entry :=
  let source := "classes" ++ Text.decimal index ++ ".zip"
  ⟨l.dir.join ⟨source⟩, l.dir.join ⟨source ++ ".dex"⟩⟩

end Layout

namespace Entry

def dexName : String := "classes.dex"

def store (e : Entry) (dex : Bytes) : Filing Failure Unit := do
  let archive ← Filing.given ((Archive.empty.replace dexName dex).mapError fun fault => .input (.name fault))
  ExceptT.adapt Failure.ofArchive (archive.save e.source)
  ExceptT.adapt Failure.io (Filing.removeIfPresent e.optimized)

end Entry

end DexUnseal.Cache
