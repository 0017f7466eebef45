import DexUnseal.Failure
import DexUnseal.Stop
import DexUnseal.Text.Quoted
/-!
Work that is done once. The first caller runs it, the others wait for its outcome, and every caller
gets the same one.
-/

namespace DexUnseal

inductive Payload where
  | text (message : String)
  | literal (message : String)
  | other
  deriving DecidableEq

def Payload.message? : Payload → Option String
  | text message => some message
  | literal message => some message
  | other => none

inductive Ending (α : Type) where
  | value (x : α)
  | failure (f : Failure)
  | crash (payload : Payload)

/-- What callers get. A crash reaches every caller with its text. -/
inductive Outcome (α : Type) where
  | value (x : α)
  | failure (f : Failure)
  | crash (text : String)

def Ending.ofStop : Stop Failure → Ending α
  | .fault f => failure f
  | .crash text => crash (.text text)

namespace Outcome

def ofStop : Stop Failure → Outcome α
  | .fault f => failure f
  | .crash text => crash text

/-- A crash without a text is reported as a failure. -/
def ofEnding : Ending α → Outcome α
  | .value x => value x
  | .failure f => failure f
  | .crash payload =>
    match payload.message? with
    | some text => crash text
    | none => failure (.unexpected "Unexpected error")

def map (f : α → β) : Outcome α → Outcome β
  | value x => value (f x)
  | failure f => failure f
  | crash text => crash text

end Outcome

abbrev Job (World α : Type) := StateM World (Ending α)

structure Holder (World α : Type) where
  label : String
  job : Job World α
  outcome? : Option (Outcome α)

namespace Holder

def ofJob (label : String) (job : Job World α) : Holder World α := ⟨label, job, none⟩

def isMaterialized (h : Holder World α) : Bool := h.outcome?.isSome

def materialize (h : Holder World α) : StateM World (Outcome α × Holder World α) :=
  match h.outcome? with
  | some outcome => pure (outcome, h)
  | none => do
    let outcome := Outcome.ofEnding (← h.job)
    return (outcome, { h with outcome? := some outcome })

def describe (h : Holder World α) : String :=
  "ContainerHolder \x7b label: " ++ Text.quoted h.label ++ ", .. \x7d"

end Holder

end DexUnseal
