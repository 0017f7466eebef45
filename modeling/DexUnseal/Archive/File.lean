import DexUnseal.Archive.Contents
import DexUnseal.Filing
/-!
Archives as files.
-/

namespace DexUnseal.Archive

def readFile (decode : Bytes → Except (Stop Fault) Archive) (p : Path) : Filing (Stop Fault) Archive := do
  let bytes ← ExceptT.adapt (fun fault => .fault (.io fault)) (Filing.read p)
  Filing.given (decode bytes)

def load (p : Path) : Filing (Stop Fault) Archive := readFile decode p

def loadDexEntries (p : Path) : Filing (Stop Fault) Archive := readFile decodeDexEntries p

def saveWith (deflate : Bytes → Bytes) (a : Archive) (p : Path) : Filing Fault Unit := do
  ExceptT.adapt Fault.io (Filing.createDirectories p.location.dropLast)
  let bytes ← Filing.given ((a.encodeWith deflate).mapError Fault.input)
  ExceptT.adapt Fault.io (Filing.write p bytes)

def save (a : Archive) (p : Path) : Filing Fault Unit := a.saveWith Deflate.encode p

end DexUnseal.Archive
