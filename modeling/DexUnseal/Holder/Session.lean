import DexUnseal.Holder
/-!
Several callers of one holder, in any order of their steps. A step is what a caller does while it
has the lock, or the run of the job, for which it has not.
-/

namespace DexUnseal.Holder

inductive Stage (α : Type) where
  | pending
  | running
  | done (outcome : Outcome α)

inductive Caller (α : Type) where
  | arriving
  /-- For the job to end; it may wake up too early. -/
  | waiting
  | working
  | publishing (outcome : Outcome α)
  | returned (outcome : Outcome α)

structure Session (World α : Type) where
  job : Job World α
  stage : Stage α
  world : World
  callers : List (Caller α)

namespace Caller

/-- A look at the stage, which leaves `running` behind. Who finds the job pending takes it; who finds
an outcome puts it back. -/
def look : StateM (Stage α) (Caller α) := do
  match ← modifyGet fun stage => (stage, .running) with
  | .pending => return working
  | .running => return waiting
  | .done outcome =>
    set (Stage.done outcome)
    return returned outcome

def outcome? : Caller α → Option (Outcome α)
  | returned outcome => some outcome
  | _ => none

end Caller

namespace Session

def ofHolder (h : Holder World α) (world : World) : Session World α :=
  ⟨h.job, match h.outcome? with | some outcome => .done outcome | none => .pending, world, []⟩

def holder (s : Session World α) (label : String) : Holder World α :=
  ⟨label, s.job, match s.stage with | .done outcome => some outcome | _ => none⟩

def arrive (s : Session World α) : Session World α := { s with callers := s.callers ++ [.arriving] }

def step (s : Session World α) (number : Nat) : Session World α :=
  match s.callers[number]? with
  | none => s
  | some caller =>
    let become (s : Session World α) (caller : Caller α) : Session World α :=
      { s with callers := s.callers.set number caller }
    match caller with
    | .arriving | .waiting =>
      let (caller, stage) := Caller.look s.stage
      become { s with stage } caller
    | .working =>
      let (ending, world) := s.job s.world
      become { s with world } (.publishing (Outcome.ofEnding ending))
    | .publishing outcome => become { s with stage := .done outcome } (.returned outcome)
    | .returned _ => s

inductive Event where
  | arrival
  | step (number : Nat)

def apply (s : Session World α) : Event → Session World α
  | .arrival => s.arrive
  | .step number => s.step number

def run (s : Session World α) (events : List Event) : Session World α := events.foldl apply s

/-- Steps enough for a caller to return if nobody holds it up. -/
def stepsPerCaller : Nat := 4

def together (n : Nat) : List Event :=
  List.replicate n .arrival ++ (List.replicate stepsPerCaller ((List.range n).map Event.step)).flatten

end Session

end DexUnseal.Holder
