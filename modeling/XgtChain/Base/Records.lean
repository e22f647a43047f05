import Mathlib.Data.List.Basic
import Mathlib.Data.Nat.ModEq

/-!
# Files of records with their positions

A number in a file has its bytes in little endian order (`leBytes`, `leNat`).
-/

namespace Base

open List

abbrev Bytes : Type := List UInt8

def leBytes : Nat → Nat → Bytes
  | 0, _ => []
  | k + 1, n => UInt8.ofNat n :: leBytes k (n / 256)

def leNat : Bytes → Nat
  | [] => 0
  | b :: bs => b.toNat + 256 * leNat bs

@[simp] theorem length_leBytes (k n : Nat) : (leBytes k n).length = k := by
  induction k generalizing n with
  | zero => rfl
  | succ k ih => rw [leBytes, length_cons, ih]

theorem leNat_leBytes (k n : Nat) : leNat (leBytes k n) = n % 256 ^ k := by
  induction k generalizing n with
  | zero => rw [pow_zero, Nat.mod_one]; rfl
  | succ k ih =>
    rw [leBytes, leNat, ih, pow_succ', Nat.mod_mul]
    simp

structure Codec (α : Type) where
  pack : α → Bytes
  unpack : Bytes → Option (α × Bytes)

namespace Codec

variable {α : Type} (codec : Codec α) (pos : Nat) (as : List α) (a : α)

/-- What is packed is read back, whatever follows. -/
def RoundTrips : Prop := ∀ rest, codec.unpack (codec.pack a ++ rest) = some (a, rest)

def record : Bytes := codec.pack a ++ leBytes 8 pos

def records : Nat → List α → Bytes
  | _, [] => []
  | pos, a :: as => codec.record pos a ++ records (pos + (codec.record pos a).length) as

def positions : Nat → List α → List Nat
  | _, [] => []
  | pos, a :: as => pos :: positions (pos + (codec.record pos a).length) as

theorem length_record : (codec.record pos a).length = (codec.pack a).length + 8 := by
  rw [record, length_append, length_leBytes]

theorem records_append (as as' : List α) :
    codec.records pos (as ++ as') =
      codec.records pos as ++ codec.records (pos + (codec.records pos as).length) as' := by
  induction as generalizing pos with
  | nil => rfl
  | cons a as ih =>
    rw [cons_append, records, ih, records, length_append, append_assoc, Nat.add_assoc]

theorem positions_append (as as' : List α) :
    codec.positions pos (as ++ as') =
      codec.positions pos as ++ codec.positions (pos + (codec.records pos as).length) as' := by
  induction as generalizing pos with
  | nil => rfl
  | cons a as ih =>
    rw [cons_append, positions, ih, positions, records, length_append, cons_append, Nat.add_assoc]

@[simp] theorem length_positions : (codec.positions pos as).length = as.length := by
  induction as generalizing pos with
  | nil => rfl
  | cons a as ih => rw [positions, length_cons, ih, length_cons]

theorem drop_records (as as' : List α) (a : α) :
    (codec.records 0 (as ++ a :: as')).drop (codec.records 0 as).length =
      codec.pack a ++ (leBytes 8 (codec.records 0 as).length ++
        codec.records ((codec.records 0 as).length + (codec.record
          (codec.records 0 as).length a).length) as') := by
  rw [records_append, drop_left, Nat.zero_add, records, record, append_assoc]

theorem records_concat :
    codec.records 0 (as ++ [a]) = codec.records 0 as ++ codec.record (codec.records 0 as).length a := by
  rw [records_append, Nat.zero_add]
  exact congrArg _ (append_nil _)

theorem positions_concat :
    codec.positions 0 (as ++ [a]) = codec.positions 0 as ++ [(codec.records 0 as).length] := by
  rw [positions_append, Nat.zero_add]
  rfl

theorem length_records_le (as as' : List α) :
    (codec.records 0 as).length ≤ (codec.records 0 (as ++ as')).length := by
  rw [records_append, length_append]
  exact Nat.le_add_right _ _

theorem length_le_records : as.length ≤ (codec.records pos as).length := by
  induction as generalizing pos with
  | nil => exact le_refl _
  | cons a as ih =>
    have hrest := ih (pos + (codec.record pos a).length)
    have hrecord := codec.length_record pos a
    rw [records, length_append, length_cons]
    omega

end Codec

end Base
