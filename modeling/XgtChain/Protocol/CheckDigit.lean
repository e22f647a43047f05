import XgtChain.Protocol.AssetSymbol

/-!
# The check digit of an identifier

`damm_checksum_8digit` folds the digits of an identifier through a table.
-/

namespace Xgt

open Base List Function

/-- One digit changed, or two neighbours swapped. -/
inductive Misread {α : Type} : List α → List α → Prop where
  | change {before after : List α} {a b : α} (hne : a ≠ b) :
      Misread (before ++ a :: after) (before ++ b :: after)
  | swap {before after : List α} {a b : α} (hne : a ≠ b) :
      Misread (before ++ a :: b :: after) (before ++ b :: a :: after)

section Fold

variable {α : Type} {op : α → α → α} (hleft : ∀ a, Injective (op · a))
include hleft

theorem foldl_injective (l : List α) : Injective fun x => l.foldl op x := by
  induction l with
  | nil => exact injective_id
  | cons a l ih => exact ih.comp (hleft a)

theorem foldl_ne_of_misread (hright : ∀ x, Injective (op x))
    (hswap : ∀ x a b, op (op x a) b = op (op x b) a → a = b) {l l' : List α} (h : Misread l l') (x : α) :
    l.foldl op x ≠ l'.foldl op x := by
  intro heq
  -- what follows the error is undone by injectivity, and what precedes it is the same
  cases h with
  | change hne =>
    rw [foldl_append, foldl_append] at heq
    exact hne (hright _ (foldl_injective hleft _ heq))
  | swap hne =>
    rw [foldl_append, foldl_append] at heq
    exact hne (hswap _ _ _ (foldl_injective hleft _ heq))

end Fold

def dammStep (x d : Fin 10) : Fin 10 := Fin.ofNat 10 (dammTable.getD (10 * x + d) 0 / 10)

theorem getD_dammTable : ∀ x d : Fin 10, dammTable.getD (10 * x + d) 0 = 10 * (dammStep x d : Nat) := by
  decide

theorem dammStep_left : ∀ d, Injective (dammStep · d) := by
  unfold Injective
  decide

theorem dammStep_right : ∀ x, Injective (dammStep x) := by
  unfold Injective
  decide

theorem dammStep_swap : ∀ x a b, dammStep (dammStep x a) b = dammStep (dammStep x b) a → a = b := by
  decide +kernel

theorem dammStep_eq_zero_iff : ∀ x d, dammStep x d = 0 ↔ d = x := by decide

theorem foldl_dammTable (l : List (Fin 10)) (x : Fin 10) :
    (l.map Fin.val).foldl (fun x d => dammTable.getD (x + d) 0) (10 * x) =
      10 * (l.foldl dammStep x : Fin 10) := by
  induction l generalizing x with
  | nil => rfl
  | cons d l ih =>
    rw [map_cons, foldl_cons, foldl_cons, getD_dammTable]
    exact ih (dammStep x d)

def digitsOf (k n : Nat) : List (Fin 10) := (List.range k).reverse.map fun i => Fin.ofNat 10 (n / 10 ^ i)

theorem dammChecksum8digit_eq {value : Nat} (h : value < 10 ^ 8) :
    dammChecksum8digit value = ((digitsOf 8 value).foldl dammStep 0 : Fin 10) := by
  have hfirst : value / 10 ^ 7 % 10 = value / 10 ^ 7 := Nat.mod_eq_of_lt (by omega)
  have hdigits : (digitsOf 8 value).map Fin.val =
      [value / 10 ^ 7, value / 10 ^ 6 % 10, value / 10 ^ 5 % 10, value / 10 ^ 4 % 10,
        value / 10 ^ 3 % 10, value / 10 ^ 2 % 10, value / 10 % 10, value % 10] := by
    simp only [digitsOf, range_succ, range_zero, nil_append,
      reverse_cons, reverse_nil, cons_append, map_cons, map_nil, Fin.val_ofNat,
      hfirst, pow_zero, pow_one, Nat.div_one]
  have hfold := foldl_dammTable (digitsOf 8 value) 0
  rw [hdigits] at hfold
  exact (congrArg (· / 10) hfold).trans (Nat.mul_div_cancel_left _ (by decide))

theorem digitsOf_nine (nai : Nat) : digitsOf 9 nai = digitsOf 8 (nai / 10) ++ [Fin.ofNat 10 nai] := by
  simp [digitsOf, range_succ, Nat.div_div_eq_div_mul]

theorem checkDigit_iff {nai : Nat} (h : nai < 10 ^ 9) :
    nai % 10 = dammChecksum8digit (nai / 10) ↔ (digitsOf 9 nai).foldl dammStep 0 = 0 := by
  rw [dammChecksum8digit_eq (by omega), digitsOf_nine, foldl_append, foldl_cons, foldl_nil,
    dammStep_eq_zero_iff, Fin.ext_iff, Fin.val_ofNat]

theorem misread_rejected (value nai : Nat) (hvalue : value < 10 ^ 8) (hnai : nai < 10 ^ 9)
    (h : Misread (digitsOf 9 (value * 10 + dammChecksum8digit value)) (digitsOf 9 nai)) :
    nai % 10 ≠ dammChecksum8digit (nai / 10) ∧
      ∀ decimalPlaces, ∃ e, assetNumFromNai nai decimalPlaces = .error e := by
  have hcheck := dammChecksum8digit_lt value
  have hright : (digitsOf 9 (value * 10 + dammChecksum8digit value)).foldl dammStep 0 = 0 := by
    rw [← checkDigit_iff (by omega), nai_div]
    omega
  have hwrong : nai % 10 ≠ dammChecksum8digit (nai / 10) := by
    intro heq
    refine foldl_ne_of_misread dammStep_left dammStep_right dammStep_swap h 0 ?_
    rw [hright, (checkDigit_iff hnai).1 heq]
  refine ⟨hwrong, fun decimalPlaces => ?_⟩
  cases hread : assetNumFromNai nai decimalPlaces with
  | error e => exact ⟨e, rfl⟩
  | ok n =>
    obtain ⟨_, -, hrest⟩ := of_bind hread
    obtain ⟨_, hdigit, -⟩ := of_bind hrest
    exact absurd (of_fcAssert hdigit) hwrong

theorem misread_rejected_swap : ∃ e, assetNumFromNai 100000060 3 = .error e :=
  (misread_rejected 10000000 100000060 (by decide) (by decide)
    (@Misread.swap _ [1, 0, 0, 0, 0, 0, 0] [] 0 6 (by decide))).2 3

end Xgt
