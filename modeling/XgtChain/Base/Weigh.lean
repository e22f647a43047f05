import XgtChain.Base.Result

/-!
# Weighing members one after the other

A vote among weighted members, each of which answers yes or no or fails.
-/

namespace Base

variable {ε : Type}

def weigh (limit threshold : Nat) : List (Except ε Bool × Nat) → Nat → Nat → Except ε Bool
  | [], total, _ => .ok (decide (threshold ≤ total))
  | (answer, w) :: rest, total, asked => do
    let counts ← answer
    let total := if counts then total + w else total
    if counts ∧ threshold ≤ total then .ok true
    else if 0 < limit ∧ limit ≤ asked + 1 then .ok false
    else weigh limit threshold rest total (asked + 1)

def Concedes (r r' : Except ε Bool) : Prop := ∀ b, r = .ok b → ∃ b', r' = .ok b' ∧ (b = true → b' = true)

namespace Concedes

theorem refl (r : Except ε Bool) : Concedes r r := fun b h => ⟨b, h, id⟩

theorem yes {r r' : Except ε Bool} (h : Concedes r r') (hr : r = .ok true) : r' = .ok true := by
  obtain ⟨b', hr', hb⟩ := h true hr
  rw [hr', hb rfl]

theorem of_imp {b b' : Bool} (h : b = true → b' = true) : Concedes (.ok b : Except ε Bool) (.ok b') := by
  rintro _ ⟨⟩
  exact ⟨b', rfl, h⟩

theorem bind {α : Type} {x : Except ε α} {f g : α → Except ε Bool} (h : ∀ a, x = .ok a → Concedes (f a) (g a)) :
    Concedes (x >>= f) (x >>= g) := by
  intro b hb
  obtain ⟨a, ha, hfa⟩ := of_bind hb
  obtain ⟨b', hga, himp⟩ := h a ha b hfa
  exact ⟨b', bind_ok ha hga, himp⟩

end Concedes

theorem weigh_mono {limit threshold : Nat} {l l' : List (Except ε Bool × Nat)}
    (h : List.Forall₂ (fun m m' => m.2 = m'.2 ∧ Concedes m.1 m'.1) l l') {total total' : Nat}
    (htotal : total ≤ total') (asked : Nat) :
    Concedes (weigh limit threshold l total asked) (weigh limit threshold l' total' asked) := by
  induction h generalizing total total' asked with
  | nil =>
    refine .of_imp fun hle => ?_
    exact decide_eq_true (Nat.le_trans (of_decide_eq_true hle) htotal)
  | @cons m m' l l' hm _ ih =>
    obtain ⟨answer, w⟩ := m
    obtain ⟨answer', w'⟩ := m'
    obtain ⟨rfl, hanswer⟩ := hm
    intro b hb
    obtain ⟨counts, hcounts, hb⟩ := of_bind hb
    obtain ⟨counts', hcounts', himp⟩ := hanswer counts hcounts
    dsimp only at hcounts'
    -- the answers differ at most in that the second is yes
    have hsum : (if counts = true then total + w else total) ≤ if counts' =
      true then total' + w else total' := by
      split_ifs with hc hc'
      · omega
      · exact absurd (himp hc) hc'
      · omega
      · exact htotal
    rw [weigh, hcounts', ok_bind]
    dsimp only
    by_cases hreached : counts' = true ∧ threshold ≤ if counts' = true then total' + w else total'
    · rw [if_pos hreached]
      exact ⟨true, rfl, fun _ => rfl⟩
    · have hnot : ¬(counts = true ∧ threshold ≤ if counts = true then total + w else total) :=
        fun ⟨hc, hle⟩ => hreached ⟨himp hc, Nat.le_trans hle hsum⟩
      rw [if_neg hreached]
      rw [if_neg hnot] at hb
      by_cases hlimit : 0 < limit ∧ limit ≤ asked + 1
      · rw [if_pos hlimit] at hb ⊢
        cases hb
        exact ⟨false, rfl, id⟩
      · rw [if_neg hlimit] at hb ⊢
        exact ih hsum (asked + 1) b hb

end Base
