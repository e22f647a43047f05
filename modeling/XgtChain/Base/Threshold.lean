import Mathlib.Algebra.Ring.Nat
import Mathlib.Algebra.BigOperators.Group.List.Basic
import Mathlib.Data.Set.Insert

/-!
# Weighted threshold policies

Who may act for whom, when a principal is controlled by keys and by other principals, each with a weight,
and acting needs a total weight.
-/

namespace Base

structure Policy (κ ω : Type) where
  threshold : Nat
  keys : List (κ × Nat)
  members : List (ω × Nat)

variable {κ ω : Type} {α : Type}

def totalWeight {α : Type} (l : List (α × Nat)) : Nat := (l.map (·.2)).sum

@[simp] theorem totalWeight_nil : totalWeight ([] : List (α × Nat)) = 0 := rfl

@[simp] theorem totalWeight_cons (e : α × Nat) (l : List (α × Nat)) :
    totalWeight (e :: l) = e.2 + totalWeight l := by simp [totalWeight]

@[simp] theorem totalWeight_append (l l' : List (α × Nat)) :
    totalWeight (l ++ l') = totalWeight l + totalWeight l' := by simp [totalWeight]

namespace Policy

def keyWeight (p : Policy κ ω) (signed : κ → Bool) : Nat :=
  totalWeight (p.keys.filter fun e => signed e.1)

end Policy

/-- The members of `W`, with the keys that signed, reach the threshold of the policy. -/
def Meets (signed : κ → Bool) (W : ω → Prop) (p : Policy κ ω) : Prop :=
  ∃ counted : List (ω × Nat), counted.Sublist p.members ∧ (∀ m ∈ counted, W m.1) ∧
    p.threshold ≤ p.keyWeight signed + totalWeight counted

/-- The principals that the keys act for, by the policies of each. -/
inductive Derives (signed : κ → Bool) (policies : ω → Set (Policy κ ω)) : ω → Prop where
  | reach {w : ω} {p : Policy κ ω} (hp : p ∈ policies w) (counted : List (ω × Nat))
      (hsub : counted.Sublist p.members) (hcounted : ∀ m ∈ counted, Derives signed policies m.1)
      (hweight : p.threshold ≤ p.keyWeight signed + totalWeight counted) : Derives signed policies w

theorem Derives.of_meets {signed : κ → Bool} {policies : ω → Set (Policy κ ω)} {w : ω} {p : Policy κ ω}
    (hp : p ∈ policies w) (h : Meets signed (Derives signed policies) p) : Derives signed policies w := by
  obtain ⟨counted, hsub, hcounted, hweight⟩ := h
  exact .reach hp counted hsub hcounted hweight

end Base
