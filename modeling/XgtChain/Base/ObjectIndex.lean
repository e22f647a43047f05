import Mathlib.Data.List.Basic
import Mathlib.Data.List.Nodup

/-!
# Tables of objects

An `ObjectIndex` holds objects under ids that it hands out in order, and refuses an object whose unique
keys clash with another row (`Keyed.clash`).
-/

namespace Base

open List

/-- When the unique keys of two objects clash. -/
class Keyed (α : Type) where
  clash : α → α → Bool
  clash_comm : ∀ a b, clash a b = clash b a := by simp [eq_comm]

@[ext]
structure ObjectIndex (α : Type) where
  nextId : Nat
  rows : List (Nat × α)
  sorted : rows.Pairwise fun r r' => r.1 < r'.1
  fresh : ∀ r ∈ rows, r.1 < nextId

namespace ObjectIndex

variable {α : Type} (id : Nat) (t : ObjectIndex α) (p : α → Bool)

def empty : ObjectIndex α := ⟨0, [], .nil, by simp⟩

instance : Inhabited (ObjectIndex α) := ⟨empty⟩

def objects : List α := t.rows.map Prod.snd

def find? : Option (Nat × α) := t.rows.find? fun r => p r.2

def get? (id : Nat) : Option (Nat × α) := t.rows.find? fun r => r.1 = id

def remove (id : Nat) : ObjectIndex α where
  nextId := t.nextId
  rows := t.rows.filter fun r => r.1 ≠ id
  sorted := t.sorted.sublist filter_sublist
  fresh r hr := t.fresh r (mem_of_mem_filter hr)

def removeIf : ObjectIndex α where
  nextId := t.nextId
  rows := t.rows.filter fun r => !p r.2
  sorted := t.sorted.sublist filter_sublist
  fresh r hr := t.fresh r (mem_of_mem_filter hr)

def append (a : α) : ObjectIndex α where
  nextId := t.nextId + 1
  rows := t.rows ++ [(t.nextId, a)]
  sorted := pairwise_append.2 ⟨t.sorted, by simp, fun r hr r' hr' => by
    rw [mem_singleton.1 hr']
    exact t.fresh r hr⟩
  fresh r hr := by
    rcases mem_append.1 hr with hr | hr
    · exact Nat.lt_succ_of_lt (t.fresh r hr)
    · rw [mem_singleton.1 hr]
      exact Nat.lt_succ_self _

def ofList (l : List α) : ObjectIndex α := l.foldl append empty

def setRow (a : α) (r : Nat × α) : Nat × α := if r.1 = id then (id, a) else r

theorem setRow_fst (a : α) (r : Nat × α) : (setRow id a r).1 = r.1 := by
  unfold setRow
  split_ifs with h
  · exact h.symm
  · rfl

def set (id : Nat) (a : α) : ObjectIndex α where
  nextId := t.nextId
  rows := t.rows.map (setRow id a)
  sorted := pairwise_map.2 (t.sorted.imp fun {r r'} h => by
    rwa [setRow_fst, setRow_fst])
  fresh r hr := by
    obtain ⟨r', hr', rfl⟩ := mem_map.1 hr
    rw [setRow_fst]
    exact t.fresh r' hr'

def mapRows (g : Nat → α → α) (t : ObjectIndex α) : ObjectIndex α where
  nextId := t.nextId
  rows := t.rows.map fun r => (r.1, g r.1 r.2)
  sorted := pairwise_map.2 t.sorted
  fresh r hr := by
    obtain ⟨r', hr', rfl⟩ := mem_map.1 hr
    exact t.fresh r' hr'

def put (id : Nat) : Option α → ObjectIndex α
  | some a => t.set id a
  | none => t.remove id

section Writes

variable [Keyed α]

def create? (a : α) : Option (ObjectIndex α) :=
  if t.rows.any fun r => Keyed.clash a r.2 then none else some (t.append a)

def modify? (id : Nat) (a : α) : Option (ObjectIndex α) :=
  if t.rows.any fun r => r.1 ≠ id && Keyed.clash a r.2 then none else some (t.set id a)

end Writes

variable {t} {a : α} {p}

/-! ## Which rows an operation leaves -/

theorem mem_objects : a ∈ t.objects ↔ ∃ id, (id, a) ∈ t.rows := by
  simp [objects]

theorem eq_of_mem {r r' : Nat × α} (hr : r ∈ t.rows) (hr' : r' ∈ t.rows) (h : r.1 = r'.1) : r = r' := by
  have hids : (t.rows.map Prod.fst).Nodup :=
    pairwise_map.2 (t.sorted.imp fun hlt => Nat.ne_of_lt hlt)
  exact inj_on_of_nodup_map hids hr hr' h

theorem of_find? {id : Nat} (h : t.find? p = some (id, a)) : (id, a) ∈ t.rows ∧ p a = true :=
  ⟨mem_of_find?_eq_some h, find?_some (p := fun r : Nat × α => p r.2) h⟩

theorem mem_removeIf : a ∈ (t.removeIf p).objects ↔ a ∈ t.objects ∧ p a = false := by
  simp [objects, removeIf]

theorem find?_eq_none : t.find? p = none ↔ ∀ a ∈ t.objects, p a = false := by
  simp only [find?, objects, List.find?_eq_none, List.forall_mem_map, Bool.not_eq_true]

theorem find?_append_of_none (hnone : t.find? p = none) (hp : p a = true) :
    (t.append a).find? p = some (t.nextId, a) := by
  rw [find?] at hnone
  simp [find?, append, find?_append, hnone, hp]

theorem mem_set_of_ne {id : Nat} {r : Nat × α} (hr : r ∈ t.rows)
    (hid : r.1 ≠ id) : r ∈ (t.set id a).rows :=
  mem_map.2 ⟨r, hr, if_neg hid⟩

section MapRows

variable {g g' : Nat → α → α}

theorem mem_mapRows {r : Nat × α} : r ∈ (t.mapRows g).rows ↔ ∃ a, (r.1, a) ∈ t.rows ∧ g r.1 a = r.2 := by
  constructor
  · intro hr
    obtain ⟨r', hr', rfl⟩ := mem_map.1 hr
    exact ⟨r'.2, hr', rfl⟩
  · rintro ⟨a, ha, hg⟩
    exact mem_map.2 ⟨_, ha, Prod.ext rfl hg⟩

theorem mem_mapRows_of_mem {id : Nat} {a : α} (h : (id, a) ∈ t.rows) : (id, g id a) ∈ (t.mapRows g).rows :=
  mem_mapRows.2 ⟨a, h, rfl⟩

theorem mapRows_mapRows : (t.mapRows g).mapRows g' = t.mapRows fun i a => g' i (g i a) :=
  ObjectIndex.ext rfl (map_map ..)

theorem mapRows_congr (h : ∀ i a, (i, a) ∈ t.rows → g i a = g' i a) : t.mapRows g = t.mapRows g' :=
  ObjectIndex.ext rfl (map_congr_left fun r hr => Prod.ext rfl (h r.1 r.2 hr))

theorem mapRows_eq_self (h : ∀ i a, g i a = a) : t.mapRows g = t := by
  refine ObjectIndex.ext rfl ?_
  change t.rows.map _ = t.rows
  simp only [h, map_id']

theorem set_eq_mapRows {id : Nat} {old : α} {f : α → α} (h : (id, old) ∈ t.rows) :
    t.set id (f old) = t.mapRows fun i a => if i = id then f a else a := by
  refine ObjectIndex.ext rfl (map_congr_left fun r hr => ?_)
  unfold setRow
  split_ifs with hid
  · rw [eq_of_mem hr h hid]
    simp
  · simp [hid]

end MapRows

section Put

variable {id} {o : Option α}

theorem nextId_put : (t.put id o).nextId = t.nextId := by
  cases o <;> rfl

theorem mem_put_of_ne {r : Nat × α} (hid : r.1 ≠ id) : r ∈ (t.put id o).rows ↔ r ∈ t.rows := by
  cases o with
  | none => simp [put, remove, hid]
  | some a =>
    refine ⟨fun hr => ?_, fun hr => mem_set_of_ne hr hid⟩
    obtain ⟨r', hr', rfl⟩ := mem_map.1 hr
    rw [setRow_fst] at hid
    rwa [setRow, if_neg hid]

theorem mem_put_self {old b : α} (hold : (id, old) ∈ t.rows) :
    (id, b) ∈ (t.put id o).rows ↔ o = some b := by
  cases o with
  | none => simp [put, remove]
  | some a =>
    have ha : (id, a) ∈ (t.set id a).rows := mem_map.2 ⟨_, hold, by simp [setRow]⟩
    refine ⟨fun hb => ?_, fun heq => ?_⟩
    · cases eq_of_mem ha hb rfl
      rfl
    · cases heq
      exact ha

theorem put_set {a : α} : (t.set id a).put id o = t.put id o := by
  have hset (b : α) (r : Nat × α) : setRow id b (setRow id a r) = setRow id b r := by
    unfold setRow
    split_ifs <;> simp_all
  cases o with
  | none =>
    refine ObjectIndex.ext rfl ?_
    change (t.rows.map (setRow id a)).filter _ = t.rows.filter _
    rw [filter_map]
    have hkeep : ∀ r ∈ t.rows.filter fun r => r.1 ≠ id, setRow id a r = r := by
      intro r hr
      exact if_neg (by simpa using (mem_filter.1 hr).2)
    rw [filter_congr (q := fun r => r.1 ≠ id) fun r _ => by simp [setRow_fst]]
    exact (map_congr_left hkeep).trans (map_id _)
  | some b => exact ObjectIndex.ext rfl (by simp [put, set, hset])

end Put

variable [Keyed α] {t' : ObjectIndex α}
variable {id} {b old a : α}

theorem create?_eq_some_iff :
    t.create? a = some t' ↔ (∀ b ∈ t.objects, Keyed.clash a b = false) ∧ t' = t.append a := by
  have hclash : t.rows.any (fun r => Keyed.clash a r.2) = false ↔ ∀ b ∈ t.objects, Keyed.clash a b = false := by
    simp only [objects, any_eq_false, List.forall_mem_map, Bool.not_eq_true]
  unfold create?
  rw [← hclash]
  cases t.rows.any _ with
  | true => simp
  | false => simp [eq_comm]

theorem create?_eq (h : t.create? a = some t') : t' = t.append a := (create?_eq_some_iff.1 h).2

theorem modify?_eq (h : t.modify? id a = some t') : t' = t.set id a := by
  unfold modify? at h
  split_ifs at h
  exact (Option.some.inj h).symm

theorem mem_create? (h : t.create? a = some t') : b ∈ t'.objects ↔ b ∈ t.objects ∨ b = a := by
  rw [create?_eq h]
  simp [objects, append]

theorem find?_create? {p : α → Bool} {r : Nat × α} (h : t.create? a = some t')
    (hr : t.find? p = some r) : t'.find? p = some r := by
  rw [create?_eq h]
  simp only [find?, append, find?_append]
  unfold find? at hr
  rw [hr]
  rfl

section

variable (h : t.modify? id a = some t')
include h

theorem mem_modify? (hold : (id, old) ∈ t.rows) : (id, a) ∈ t'.rows := by
  rw [modify?_eq h]
  exact mem_map.2 ⟨_, hold, by simp [setRow]⟩

theorem exists_mem_modify? {id' : Nat} (hb : (id', b) ∈ t.rows) : ∃ b', (id', b') ∈ t'.rows := by
  rw [modify?_eq h]
  refine ⟨(setRow id a (id', b)).2, mem_map.2 ⟨_, hb, ?_⟩⟩
  exact Prod.ext (setRow_fst id a _) rfl

theorem of_mem_modify? (hb : b ∈ t'.objects) : b ∈ t.objects ∨ b = a := by
  rw [modify?_eq h] at hb
  obtain ⟨i, hrow⟩ := mem_objects.1 hb
  obtain ⟨r, hr, hri⟩ := mem_map.1 hrow
  unfold setRow at hri
  split_ifs at hri with hid
  · cases hri
    exact .inr rfl
  · subst hri
    exact .inl (mem_objects.2 ⟨i, hr⟩)

end

omit [Keyed α] in
theorem find?_map_of_agree {f : Nat × α → Nat × α} {p : Nat × α → Bool} {l : List (Nat × α)}
    (agree : ∀ r ∈ l, p (f r) = p r) : (l.map f).find? p = (l.find? p).map f := by
  induction l with
  | nil => rfl
  | cons r l ih =>
    obtain ⟨hr, hl⟩ := forall_mem_cons.1 agree
    rw [map_cons, find?_cons, find?_cons, hr, ih hl]
    cases p r <;> rfl

variable {a : α}

omit [Keyed α] in
theorem find?_mapRows {g : Nat → α → α} (agree : ∀ i a, p (g i a) = p a) :
    (t.mapRows g).find? p = (t.find? p).map fun r => (r.1, g r.1 r.2) :=
  find?_map_of_agree fun r _ => agree r.1 r.2

section

variable (h : t.modify? id a = some t')
include h

theorem find?_modify? (hold : (id, old) ∈ t.rows) (hp : p a = p old) :
    t'.find? p = (t.find? p).map (setRow id a) := by
  rw [modify?_eq h]
  refine find?_map_of_agree fun r hr => ?_
  unfold setRow
  split_ifs with hid
  · rw [eq_of_mem hr hold hid]
    exact hp
  · rfl

theorem find?_modify?_other (hold : (id, old) ∈ t.rows) (hpold : p old = false)
    (hpa : p a = false) : t'.find? p = t.find? p := by
  rw [find?_modify? h hold (hpa.trans hpold.symm)]
  cases hfind : t.find? p with
  | none => rfl
  | some r =>
    obtain ⟨i, old'⟩ := r
    obtain ⟨hr, hpr⟩ := of_find? hfind
    have hne : i ≠ id := by
      intro hid
      cases eq_of_mem hold hr hid.symm
      exact Bool.false_ne_true (hpold.symm.trans hpr)
    simp [setRow, hne]

theorem find?_modify?_self
    (hfind : t.find? p = some (id, old)) (hpa : p a = true) : t'.find? p = some (id, a) := by
  obtain ⟨hold, hpold⟩ := of_find? hfind
  rw [find?_modify? h hold (hpa.trans hpold.symm), hfind]
  simp [setRow]

end

def rowsWhere (t : ObjectIndex α) (p : α → Bool) : List (Nat × α) := t.rows.filter fun r => p r.2

theorem rowsWhere_create? (h : t.create? a = some t') (hpa : p a = false) :
    t'.rowsWhere p = t.rowsWhere p := by
  rw [create?_eq h]
  simp [rowsWhere, append, hpa]

theorem rowsWhere_modify? (h : t.modify? id a = some t') (hold : (id, old) ∈ t.rows)
    (hpold : p old = false) (hpa : p a = false) : t'.rowsWhere p = t.rowsWhere p := by
  rw [modify?_eq h, rowsWhere, set, filter_map]
  have htest : ∀ r ∈ t.rows, ((fun r => p r.2) ∘ setRow id a) r = p r.2 := by
    intro r hr
    simp only [Function.comp_apply, setRow]
    split_ifs with hid
    · rw [hpa, eq_of_mem hr hold hid, hpold]
    · rfl
  have hsame : ∀ r ∈ t.rowsWhere p, setRow id a r = r := by
    intro r hr
    obtain ⟨hr, hp⟩ := mem_filter.1 hr
    refine if_neg fun hid => ?_
    rw [eq_of_mem hr hold hid, hpold] at hp
    cases hp
  rw [filter_congr htest]
  exact (map_congr_left hsame).trans (map_id _)

end ObjectIndex

end Base
