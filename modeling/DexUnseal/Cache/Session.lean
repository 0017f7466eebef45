import DexUnseal.Cache.Layout
/-!
Layouts over the claims of one process, in any order of what is done with them. Dropping the last layout of a
directory takes two steps: after the first nobody holds the directory, after the second it can be claimed again.
-/

namespace DexUnseal.Cache

structure Hold where
  call : Nat
  layout : Layout

def Hold.dir (hold : Hold) : Path := hold.layout.dir

structure Session where
  claims : Claims
  calls : Nat
  live : List Hold
  /-- Dropped as the last ones of their directories, which are still claimed. -/
  leaving : List Hold

namespace Session

def empty : Session := ⟨.empty, 0, [], []⟩

def openArchive (s : Session) (files : FileTree) (cacheDir archive : Path) : Session :=
  let (layout, claims) := Layout.forArchive files cacheDir archive s.claims
  { s with claims, calls := s.calls + 1, live := s.live ++ [⟨s.calls, layout⟩] }

def clone (s : Session) (number : Nat) : Session :=
  match s.live[number]? with
  | none => s
  | some hold => { s with claims := s.claims.retain hold.dir, live := s.live ++ [hold] }

def drop (s : Session) (number : Nat) : Session :=
  match s.live[number]? with
  | none => s
  | some hold =>
    let claims := s.claims.lower hold.dir
    { s with
      claims, live := s.live.eraseIdx number
      leaving := if claims.isHeld hold.dir then s.leaving else s.leaving ++ [hold] }

def free (s : Session) (number : Nat) : Session :=
  match s.leaving[number]? with
  | none => s
  | some hold => { s with claims := s.claims.free hold.dir, leaving := s.leaving.eraseIdx number }

inductive Event where
  | openArchive (files : FileTree) (cacheDir archive : Path)
  | clone (number : Nat)
  | drop (number : Nat)
  | free (number : Nat)

def apply (s : Session) : Event → Session
  | .openArchive files cacheDir archive => s.openArchive files cacheDir archive
  | .clone number => s.clone number
  | .drop number => s.drop number
  | .free number => s.free number

def run (s : Session) (events : List Event) : Session := events.foldl apply s

end Session

end DexUnseal.Cache
