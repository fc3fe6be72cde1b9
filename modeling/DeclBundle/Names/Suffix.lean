/-!
# Names with a number

When a name is taken, the first of `name_$0`, `name_$1`, … that is not taken is used instead. The
search needs no more steps than there are taken names.
-/

namespace DeclBundle

/-- A name with a number after it. -/
def suffixed (base : String) (n : Nat) : String := base ++ "_$" ++ toString n

/-- The first of `base_$n`, `base_$(n+1)`, … that is not `taken`, after at most `steps` that are. -/
def firstSuffixed (taken : List String) (base : String) : Nat → Nat → String
  | 0, n => suffixed base n
  | steps + 1, n =>
    if suffixed base n ∈ taken then firstSuffixed taken base steps (n + 1) else suffixed base n

/-- The first of `base_$0`, `base_$1`, … that is not `taken`. -/
def unusedName (taken : List String) (base : String) : String :=
  firstSuffixed taken base taken.length 0

end DeclBundle
