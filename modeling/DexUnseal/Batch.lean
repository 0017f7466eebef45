/-!
Splitting names into batches.
-/

namespace DexUnseal

/-- Consecutive batches of `size` names, the last perhaps smaller; size zero counts as one. -/
def batches (size : Nat) (names : List String) : List (List String) :=
  match names with
  | [] => []
  | name :: rest =>
    (name :: rest.take (size - 1)) :: batches size (rest.drop (size - 1))
termination_by names.length
decreasing_by simp only [List.length_drop, List.length_cons]; omega

end DexUnseal
