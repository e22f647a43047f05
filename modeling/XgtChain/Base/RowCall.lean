import Mathlib.Algebra.BigOperators.Group.List.Basic
import Mathlib.Algebra.Order.Group.Int
import Mathlib.Algebra.Ring.Int.Defs
import Mathlib.Algebra.Order.BigOperators.Group.List
import XgtChain.Base.ObjectIndex

/-!
# Calls on a table

A `RowCall` is one call of `create?`, `modify?` or `remove`, with the row that it works on, and `Runs`
says what it does to a table.
-/

namespace Base

open List

variable {α : Type}

/-! ## Sums over a table -/

namespace ObjectIndex

variable {t : ObjectIndex α} {id : Nat} {old a : α} {l : List (Nat × α)} {p : α → Bool} {f : α → Int}

theorem rows_split (hrow : (id, old) ∈ t.rows) :
    ∃ before after, t.rows = before ++ (id, old) :: after ∧ (∀ r ∈ before, r.1 ≠ id) ∧
      ∀ r ∈ after, r.1 ≠ id := by
  obtain ⟨before, after, hsplit⟩ := append_of_mem hrow
  have hsorted := t.sorted
  rw [hsplit, pairwise_append, pairwise_cons] at hsorted
  obtain ⟨-, ⟨hafter, -⟩, hbefore⟩ := hsorted
  exact ⟨before, after, hsplit, fun r hr => (hbefore r hr _ (.head _)).ne,
    fun r hr => (hafter r hr).ne'⟩

theorem map_setRow_eq_self (hl : ∀ r ∈ l, r.1 ≠ id) : l.map (setRow id a) = l :=
  (map_congr_left fun r hr => if_neg (hl r hr)).trans (map_id _)

theorem filter_ne_eq_self (hl : ∀ r ∈ l, r.1 ≠ id) : l.filter (fun r => r.1 ≠ id) = l :=
  filter_eq_self.2 fun r hr => decide_eq_true (hl r hr)

theorem rows_remove {before after : List (Nat × α)} (hsplit : t.rows = before ++ (id, old) :: after)
    (hbefore : ∀ r ∈ before, r.1 ≠ id) (hafter : ∀ r ∈ after, r.1 ≠ id) :
    (t.remove id).rows = before ++ after := by
  change t.rows.filter (fun r => r.1 ≠ id) = _
  rw [hsplit, filter_append, filter_cons_of_neg (by simp), filter_ne_eq_self hbefore,
    filter_ne_eq_self hafter]

def sumBy (f : α → Int) (t : ObjectIndex α) : Int := (t.rows.map fun r => f r.2).sum

theorem sumBy_set (f : α → Int) (hrow : (id, old) ∈ t.rows) :
    (t.set id a).sumBy f = t.sumBy f + (f a - f old) := by
  obtain ⟨before, after, hsplit, hbefore, hafter⟩ := rows_split hrow
  simp only [sumBy, set, hsplit, map_append, map_cons, map_setRow_eq_self hbefore,
    map_setRow_eq_self hafter, sum_append, sum_cons, setRow, if_true]
  omega

theorem sumBy_remove (f : α → Int) (hrow : (id, old) ∈ t.rows) :
    (t.remove id).sumBy f = t.sumBy f - f old := by
  obtain ⟨before, after, hsplit, hbefore, hafter⟩ := rows_split hrow
  simp only [sumBy, rows_remove hsplit hbefore hafter, hsplit, map_append, map_cons, sum_append, sum_cons]
  omega

theorem sumBy_eq_zero (h : ∀ a ∈ t.objects, f a = 0) : t.sumBy f = 0 := by
  refine sum_eq_zero fun n hn => ?_
  obtain ⟨r, hr, rfl⟩ := mem_map.1 hn
  exact h r.2 (mem_objects.2 ⟨r.1, hr⟩)

theorem sumBy_nonneg (h : ∀ a ∈ t.objects, 0 ≤ f a) : 0 ≤ t.sumBy f := by
  refine sum_nonneg fun n hn => ?_
  obtain ⟨r, hr, rfl⟩ := mem_map.1 hn
  exact h r.2 (mem_objects.2 ⟨r.1, hr⟩)

theorem mem_objects_remove (h : a ∈ (t.remove id).objects) : ∃ i, (i, a) ∈ t.rows ∧ i ≠ id := by
  obtain ⟨i, hi⟩ := mem_objects.1 h
  obtain ⟨hi, hne⟩ := mem_filter.1 hi
  exact ⟨i, hi, of_decide_eq_true hne⟩

theorem filter_objects_remove (hrow : (id, old) ∈ t.rows) (hold : p old = false) :
    (t.remove id).objects.filter p = t.objects.filter p := by
  obtain ⟨before, after, hsplit, hbefore, hafter⟩ := rows_split hrow
  rw [objects, objects, rows_remove hsplit hbefore hafter, hsplit]
  simp [hold]

theorem removeIf_induction {Q : ObjectIndex α → Prop} (p : α → Bool) (h : Q t)
    (step : ∀ {t : ObjectIndex α} {id : Nat} {old : α}, (id, old) ∈ t.rows → Q t → Q (t.remove id)) :
    Q (t.removeIf p) := by
  -- by induction on the number of rows that are left to remove
  induction hn : (t.rows.filter fun r => p r.2).length generalizing t with
  | zero =>
    have hnone := filter_eq_nil_iff.1 (length_eq_zero_iff.1 hn)
    have heq : t.removeIf p = t :=
      ObjectIndex.ext rfl (filter_eq_self.2 fun r hr => by simpa using hnone r hr)
    rwa [heq]
  | succ n ih =>
    obtain ⟨⟨id, old⟩, hr⟩ := exists_mem_of_length_eq_add_one hn
    obtain ⟨hrow, hp⟩ := mem_filter.1 hr
    obtain ⟨before, after, hsplit, hbefore, hafter⟩ := rows_split hrow
    have hrows := rows_remove hsplit hbefore hafter
    have heq : (t.remove id).removeIf p = t.removeIf p := by
      refine ObjectIndex.ext rfl ?_
      change (t.remove id).rows.filter _ = t.rows.filter _
      simp [hrows, hsplit, hp]
    rw [← heq]
    refine ih (step hrow h) ?_
    rw [hsplit, filter_append, filter_cons_of_pos (by exact hp),
      length_append, length_cons] at hn
    rw [hrows, filter_append, length_append]
    omega

end ObjectIndex

open ObjectIndex

/-! ## Calls -/

def SameKeys [Keyed α] (a b : α) : Prop := ∀ c, Keyed.clash a c = Keyed.clash b c

structure ObjectIndex.Ages [Keyed α] (t t' : ObjectIndex α) : Prop where
  nextId : t.nextId ≤ t'.nextId
  rows : ∀ {id : Nat} {w : α}, (id, w) ∈ t'.rows → id < t.nextId → ∃ v, (id, v) ∈ t.rows ∧ SameKeys w v

variable (t : ObjectIndex α)

theorem ObjectIndex.Ages.refl [Keyed α] : t.Ages t :=
  ⟨le_rfl, fun {_ w} hrow _ => ⟨w, hrow, fun _ => rfl⟩⟩

theorem ObjectIndex.Ages.trans [Keyed α] {t t' t'' : ObjectIndex α} (h : t.Ages t') (h' : t'.Ages t'') :
    t.Ages t'' := by
  refine ⟨h.nextId.trans h'.nextId, fun {id w} hrow hid => ?_⟩
  obtain ⟨v, hv, hkeys⟩ := h'.rows hrow (hid.trans_le h.nextId)
  obtain ⟨x, hx, hkeys'⟩ := h.rows hv hid
  exact ⟨x, hx, fun c => (hkeys c).trans (hkeys' c)⟩

/-- No two rows clash. -/
def ObjectIndex.Unique [Keyed α] : Prop :=
  ∀ r ∈ t.rows, ∀ r' ∈ t.rows, Keyed.clash r.2 r'.2 = true → r = r'

theorem ObjectIndex.unique_empty [Keyed α] : (empty : ObjectIndex α).Unique :=
  fun _ hr => absurd hr not_mem_nil

variable {t}

theorem ObjectIndex.Unique.find?_iff [Keyed α] (h : t.Unique) {p : α → Bool}
    (hp : ∀ a b, p a = true → p b = true → Keyed.clash a b = true) {r : Nat × α} :
    t.find? p = some r ↔ r ∈ t.rows ∧ p r.2 = true := by
  refine ⟨fun hfind => of_find? hfind, fun ⟨hr, hpr⟩ => ?_⟩
  have hsome : (t.find? p).isSome = true := find?_isSome.2 ⟨r, hr, hpr⟩
  obtain ⟨r', hfind⟩ := Option.isSome_iff_exists.1 hsome
  obtain ⟨hr', hpr'⟩ := of_find? hfind
  rwa [h r hr r' hr' (hp _ _ hpr hpr')]

theorem ObjectIndex.Unique.modify? [Keyed α] (h : t.Unique) {id : Nat} {old a : α}
    (hrow : (id, old) ∈ t.rows) (hkeys : SameKeys a old) : t.modify? id a = some (t.set id a) := by
  unfold ObjectIndex.modify?
  rw [if_neg]
  intro hany
  obtain ⟨r, hr, hclash⟩ := any_eq_true.1 hany
  rw [Bool.and_eq_true, decide_eq_true_eq, hkeys] at hclash
  exact hclash.1 (congrArg Prod.fst (h _ hrow r hr hclash.2)).symm

theorem ObjectIndex.modify?_of_sameKeys [Keyed α] {t t' : ObjectIndex α} {id : Nat} {a b : α}
    (h : t.modify? id a = some t') (hkeys : SameKeys b a) : t.modify? id b = some (t.set id b) := by
  unfold modify? at h ⊢
  simp only [hkeys _]
  split_ifs at h ⊢
  rfl

inductive RowCall (α : Type) where
  | create (a : α)
  | modify (id : Nat) (old a : α)
  | remove (id : Nat) (old : α)

namespace RowCall

inductive Runs [Keyed α] : RowCall α → ObjectIndex α → ObjectIndex α → Prop where
  | create {a : α} {t t' : ObjectIndex α} (h : t.create? a = some t') : Runs (.create a) t t'
  | modify {id : Nat} {old a : α} {t t' : ObjectIndex α} (hrow : (id, old) ∈ t.rows)
      (h : t.modify? id a = some t') (hkeys : SameKeys a old) : Runs (.modify id old a) t t'
  | remove {id : Nat} {old : α} {t : ObjectIndex α} (hrow : (id, old) ∈ t.rows) :
      Runs (.remove id old) t (t.remove id)

def delta (f : α → Int) : RowCall α → Int
  | .create a => f a
  | .modify _ old a => f a - f old
  | .remove _ old => -f old

def Writes (Q : α → Prop) : RowCall α → Prop
  | .create a => Q a
  | .modify _ _ a => Q a
  | .remove _ _ => True

variable [Keyed α] {c : RowCall α} {t' : ObjectIndex α}

theorem Runs.sumBy (f : α → Int) (h : c.Runs t t') : t'.sumBy f = t.sumBy f + c.delta f := by
  cases h with
  | create h =>
    rw [create?_eq h]
    simp [sumBy, append, delta]
  | modify hrow h _ =>
    rw [modify?_eq h]
    exact sumBy_set f hrow
  | remove hrow => exact sumBy_remove f hrow

theorem Runs.forall_objects {Q : α → Prop} (h : c.Runs t t') (hc : c.Writes Q)
    (ht : ∀ a ∈ t.objects, Q a) : ∀ a ∈ t'.objects, Q a := by
  intro b hb
  cases h with
  | create h => exact ((mem_create? h).1 hb).elim (ht b) fun heq => heq ▸ hc
  | modify _ h _ => exact (of_mem_modify? h hb).elim (ht b) fun heq => heq ▸ hc
  | remove hrow =>
    obtain ⟨id, hid⟩ := mem_objects.1 hb
    exact ht b (mem_objects.2 ⟨id, mem_of_mem_filter hid⟩)

theorem Runs.ages (h : c.Runs t t') : t.Ages t' := by
  cases h with
  | @create a t t' h =>
    rw [create?_eq h]
    refine ⟨Nat.le_succ _, fun {id w} hrow hid => ?_⟩
    rcases mem_append.1 hrow with hrow | hrow
    · exact ⟨w, hrow, fun _ => rfl⟩
    · cases mem_singleton.1 hrow
      exact absurd hid (lt_irrefl _)
  | @modify id old a t t' hrow h hkeys =>
    rw [modify?_eq h]
    refine ⟨le_rfl, fun {i w} hi _ => ?_⟩
    obtain ⟨r, hr, hri⟩ := mem_map.1 hi
    unfold setRow at hri
    split_ifs at hri
    · cases hri
      exact ⟨old, hrow, hkeys⟩
    · exact ⟨w, hri ▸ hr, fun _ => rfl⟩
  | remove hrow => exact ⟨le_rfl, fun {_ w} hi _ => ⟨w, mem_of_mem_filter hi, fun _ => rfl⟩⟩

theorem Runs.unique (h : c.Runs t t') (ht : t.Unique) : t'.Unique := by
  cases h with
  | @create a t t' h =>
    obtain ⟨hnone, rfl⟩ := create?_eq_some_iff.1 h
    have hold : ∀ r ∈ t.rows, Keyed.clash a r.2 = false := fun r hr => hnone _ (mem_map_of_mem hr)
    intro r hr r' hr' hrr
    rcases mem_append.1 hr with hr | hr <;> rcases mem_append.1 hr' with hr' | hr'
    · exact ht r hr r' hr' hrr
    · cases mem_singleton.1 hr'
      rw [Keyed.clash_comm, hold r hr] at hrr
      cases hrr
    · cases mem_singleton.1 hr
      rw [hold r' hr'] at hrr
      cases hrr
    · rw [mem_singleton.1 hr, mem_singleton.1 hr']
  | @modify id old a t t' hrow h hkeys =>
    rw [modify?_eq h]
    -- a row clashes with what the row before the call clashed with
    have before : ∀ r ∈ (t.set id a).rows, ∃ v, (r.1, v) ∈ t.rows ∧ SameKeys r.2 v ∧
        setRow id a (r.1, v) = r := by
      intro r hr
      obtain ⟨⟨i, v⟩, hv, rfl⟩ := mem_map.1 hr
      refine ⟨v, by rwa [setRow_fst], ?_, by rw [setRow_fst]⟩
      unfold setRow
      split_ifs with hid
      · cases eq_of_mem hv hrow hid
        exact hkeys
      · exact fun _ => rfl
    intro r hr r' hr' hrr
    obtain ⟨v, hv, hsame, heq⟩ := before r hr
    obtain ⟨v', hv', hsame', heq'⟩ := before r' hr'
    rw [hsame, Keyed.clash_comm, hsame', Keyed.clash_comm] at hrr
    rw [← heq, ← heq', ht _ hv _ hv' hrr]
  | remove hrow =>
    intro r hr r' hr' hrr
    exact ht r (mem_of_mem_filter hr) r' (mem_of_mem_filter hr') hrr

end RowCall

end Base
