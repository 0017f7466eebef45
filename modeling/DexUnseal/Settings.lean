import DexUnseal.ClassFilter
import DexUnseal.Failure
import DexUnseal.Filing
import DexUnseal.Text.Json
import DexUnseal.Text.Utf8
/-!
Settings of a class source, which can be read from a JSON file.
-/

namespace DexUnseal

structure Settings where
  batchSize : Nat
  disallowed : List String
  cacheDir : Path
  deriving DecidableEq

namespace Settings

def default (temporary : Path) : Settings :=
  ⟨100, ClassFilter.defaultDisallowed, temporary.join ⟨"dexopener"⟩⟩

def forDataDir (temporary dataDir : Path) : Settings :=
  { default temporary with cacheDir := (dataDir.join ⟨"code_cache"⟩).join ⟨"dexopener"⟩ }

def filter (s : Settings) : ClassFilter := ⟨s.disallowed⟩

def check (s : Settings) : Except Failure Unit :=
  if s.batchSize = 0 then throw (.illegalState .emptyBatches) else pure ()

open Text (Json)

def batchSize? : Json → Option Nat
  | .natural n => if n < UInt64.size then some n else none
  | _ => none

def disallowed? : Json → Option (List String)
  | .array items => items.mapM Json.text?
  | _ => none

def cacheDir? (j : Json) : Option Path := j.text?.map Path.mk

/-- Sets one field; fields of other names are ignored. -/
def withField? (s : Settings) (name : String) (value : Json) : Option Settings :=
  match name with
  | "batch_size" => (batchSize? value).map fun batchSize => { s with batchSize }
  | "disallowed_packages" => (disallowed? value).map fun disallowed => { s with disallowed }
  | "cache_dir" => (cacheDir? value).map fun cacheDir => { s with cacheDir }
  | _ => some s

def fieldNames : List String := ["batch_size", "disallowed_packages", "cache_dir"]

/-- Sets fields one by one; none of those known may come twice. -/
def withFields? : (seen : List String) → Settings → List (String × Json) → Option Settings
  | _, s, [] => some s
  | seen, s, (name, value) :: rest => do
    if name ∈ seen ∧ name ∈ fieldNames then none
    withFields? (name :: seen) (← s.withField? name value) rest

/-- An object, or the values of the fields in their order; what is missing keeps its default. -/
def ofJson? (default : Settings) : Json → Option Settings
  | .object members => do
    let fields ← members.mapM fun (name?, value) => name?.map fun name => (name, value)
    withFields? [] default fields
  | .array values =>
    if values.length ≤ fieldNames.length then withFields? [] default (fieldNames.zip values) else none
  | _ => none

def read (default : Settings) (file : Path) : Filing Failure Settings := do
  let bytes ← ExceptT.adapt Failure.io (Filing.read file)
  match Text.Utf8.decode bytes with
  | none => throw (.io (.described .invalidData "stream did not contain valid UTF-8"))
  | some text =>
    match (Json.parse? text).bind (ofJson? default) with
    | none => throw (.illegalState (.invalidSettings file.text))
    | some settings =>
      Filing.given settings.check
      return settings

end Settings

end DexUnseal
