import DenoPackager.Json.Key

/-!
# Equal values

Two values are equal if they are equal as keys, if they are arrays with equal items, or if they
are objects with equal values under the same names, in whatever order.

## Main definitions

* `Json.same`: whether two values are equal.
-/

namespace DenoPackager.Json

mutual

/-- **Equal values.** -/
def same : Json → Json → Bool
  | .arr as, .arr bs => sameItems as bs
  | .obj ms, .obj ns => ms.length = ns.length && sameMembers ms ns
  | a, b =>
    match Key.ofJson? a, Key.ofJson? b with
    | some k, some l => k == l
    | _, _ => false

/-- Equal items, one by one. -/
def sameItems : List Json → List Json → Bool
  | [], [] => true
  | a :: as, b :: bs => same a b && sameItems as bs
  | _, _ => false

/-- Whether all members are found among others with equal values. -/
def sameMembers : List (String × Json) → Members → Bool
  | [], _ => true
  | (name, v) :: ms, ns =>
    match ns.get? name with
    | some w => same v w && sameMembers ms ns
    | none => false

end

instance : BEq Json := ⟨same⟩

end DenoPackager.Json
