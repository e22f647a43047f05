import Mathlib.Logic.Basic

/-!
# While loops

`whileLoop cond body fuel s` is `while (cond) body` from `s`, for at most `fuel` rounds; `none` is a loop
that still runs. `whileLoop_spec` proves that a loop ends from an invariant that counts the rounds left.
-/

namespace Base

variable {σ : Type} {cond : σ → Bool} {body : σ → σ}

def whileLoop (cond : σ → Bool) (body : σ → σ) : Nat → σ → Option σ
  | 0, s => if cond s then none else some s
  | fuel + 1, s => if cond s then whileLoop cond body fuel (body s) else some s

/-- `I k s` says that at most `k` rounds are left in the state `s`. -/
theorem whileLoop_spec (I : Nat → σ → Prop) {fuel k : Nat} {s : σ} (h : I k s) (hk : k ≤ fuel)
    (hzero : ∀ s, I 0 s → cond s = false) (hstep : ∀ k s, I (k + 1) s → cond s = true → I k (body s)) :
    ∃ k s', whileLoop cond body fuel s = some s' ∧ I k s' ∧ cond s' = false := by
  induction fuel generalizing s k with
  | zero =>
    obtain rfl : k = 0 := Nat.le_zero.1 hk
    exact ⟨0, s, by simp [whileLoop, hzero s h], h, hzero s h⟩
  | succ fuel ih =>
    cases hc : cond s with
    | false => exact ⟨k, s, by simp [whileLoop, hc], h, hc⟩
    | true =>
      cases k with
      | zero => simp [hzero s h] at hc
      | succ k =>
        obtain ⟨k', s', heq, hI, hend⟩ := ih (hstep k s h hc) (Nat.le_of_succ_le_succ hk)
        exact ⟨k', s', by simpa [whileLoop, hc] using heq, hI, hend⟩

end Base
