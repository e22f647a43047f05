import XgtChain.Chainbase.ChangeSet

/-!
# What an undo does

An undo that completes ends in the table that its session started from (`undo_ok`).
-/

namespace Chainbase

open Base FlatMap List

variable {α : Type} [Keyed α]

structure Table.Legal (t : Table α) : Prop where
  fresh : ∀ id, t.nextId ≤ id → t.find? id = none
  unique : ∀ {i j : Nat} {v w : α}, t.find? i = some v → t.find? j = some w → i ≠ j →
    Keyed.clash v w = false

open Table

namespace Table.Legal

variable {t : Table α} {id n : Nat} {v : α}

theorem lt_nextId (h : t.Legal) (hrow : t.find? id = some v) : id < t.nextId := by
  by_contra hge
  rw [h.fresh id (Nat.not_lt.1 hge)] at hrow
  cases hrow

theorem set (h : t.Legal) (hid : id < n) (hn : t.nextId ≤ n)
    (hfree : ∀ j w, t.find? j = some w → j ≠ id → Keyed.clash v w = false) :
    Legal ⟨t.indices.set id v, n⟩ where
  fresh i hi := by
    rw [find?_set, Function.update_of_ne (hid.trans_le hi).ne']
    exact h.fresh i (hn.trans hi)
  unique {i j a b} hi hj hij := by
    rw [find?_set, Function.update_apply] at hi hj
    split_ifs at hi hj with hi' hj' hj'
    · exact absurd (hi'.trans hj'.symm) hij
    · cases hi
      exact hfree j b hj hj'
    · cases hj
      rw [Keyed.clash_comm]
      exact hfree i a hi hi'
    · exact h.unique hi hj hij

theorem erase (h : t.Legal) (id : Nat) : Legal ⟨t.indices.erase id, t.nextId⟩ := by
  have hsub {i : Nat} {w : α} (hrow : find? ⟨t.indices.erase id, t.nextId⟩ i = some w) :
      t.find? i = some w := by
    rw [find?_erase, Function.update_apply] at hrow
    split_ifs at hrow
    exact hrow
  refine ⟨fun i hi => ?_, fun hi hj => h.unique (hsub hi) (hsub hj)⟩
  rw [find?_erase, Function.update_apply, h.fresh i hi, ite_self]

end Table.Legal

/-- Restoring the old rows one by one never clashes. -/
def Undoable (base now : Table α) : Prop :=
  ∀ i j v w x, base.find? i = some v → now.find? i = some w → now.find? j = some x → i ≠ j →
    (base.find? j = none ∨ i < j) → Keyed.clash v x = false

namespace GenericIndex

variable {g g' : GenericIndex α} {st : UndoState α} {rest : List (UndoState α)} {base : Table α}
  {item : Nat × α} {l : List (Nat × α)} {e : String}

/-! ## The steps of the loops -/

omit [Keyed α] in
theorem store_ok_iff {result : Option (MultiIndex α)} :
    store e result g = .ok () g' ↔ ∃ indices, result = some indices ∧ g' = g.withIndices indices := by
  unfold store
  cases result with
  | none => simp
  | some indices => simp [eq_comm]

omit [Keyed α] in
theorem store_error {result : Option (MultiIndex α)} {message : String}
    (h : store message result g = .error e g') : g' = g := by
  cases result with
  | none =>
    cases h
    rfl
  | some indices => cases h

omit [Keyed α] in
theorem forM_indices {κ : Type} {f : κ → IndexM α Unit} {k : MultiIndex α → κ → MultiIndex α} {l : List κ}
    (h : l.forM f g = .ok () g') (step : ∀ a g g', f a g = .ok () g' → g' = g.withIndices (k g.indices a)) :
    g' = g.withIndices (l.foldl k g.indices) :=
  (forM_run_eq_foldl h step).trans (foldl_hom g.withIndices fun _ _ => rfl)

theorem restoreOld_ok_iff (hrow : (g.find? item.1).isSome) :
    restoreOld item g = .ok () g' ↔
      (∀ j w, g.find? j = some w → j ≠ item.1 → Keyed.clash item.2 w = false) ∧
        g' = g.withIndices (g.indices.set item.1 item.2) := by
  unfold restoreOld
  rw [store_ok_iff, if_pos (c := (g.indices.find? item.1).isSome) hrow]
  simp only [MultiIndex.modify?_eq_some_iff]
  exact ⟨fun ⟨_, ⟨hfree, rfl⟩, hg⟩ => ⟨hfree, hg⟩, fun ⟨hfree, hg⟩ => ⟨_, ⟨hfree, rfl⟩, hg⟩⟩

theorem restoreRemoved_ok_iff :
    restoreRemoved item g = .ok () g' ↔
      g.find? item.1 = none ∧ (∀ j w, g.find? j = some w → Keyed.clash item.2 w = false) ∧
        g' = g.withIndices (g.indices.set item.1 item.2) := by
  unfold restoreRemoved
  rw [store_ok_iff]
  simp only [MultiIndex.emplace?_eq_some_iff]
  exact ⟨fun ⟨_, ⟨hnone, hfree, rfl⟩, hg⟩ => ⟨hnone, hfree, hg⟩,
    fun ⟨hnone, hfree, hg⟩ => ⟨_, ⟨hnone, hfree, rfl⟩, hg⟩⟩

theorem restoreOld_ok (h : restoreOld item g = .ok () g') :
    g' = g.withIndices (g.indices.set item.1 item.2) := by
  obtain ⟨indices, hresult, rfl⟩ := store_ok_iff.1 h
  split_ifs at hresult
  · rw [(MultiIndex.modify?_eq_some_iff.1 hresult).2]
  · rw [(MultiIndex.emplace?_eq_some_iff.1 hresult).2.2]

omit [Keyed α] in
theorem forM_eraseNew (ids : List Nat) (g : GenericIndex α) :
    ids.forM eraseNew g = .ok () (g.withIndices (ids.foldl FlatMap.erase g.indices)) := by
  induction ids generalizing g with
  | nil => rfl
  | cons id ids ih => exact forM_cons_run_ok_iff.2 ⟨_, rfl, ih _⟩

theorem undo_eq (hstack : g.stack = st :: rest) (h : undo g = .ok () g') :
    g' = { indices := st.removedValues.entries.foldl (fun m item => m.set item.1 item.2)
             (st.newIds.elems.foldl FlatMap.erase
               (st.oldValues.entries.foldl (fun m item => m.set item.1 item.2) g.indices))
           nextId := st.oldNextId, stack := rest, revision := g.revision - 1 } := by
  unfold undo at h
  simp only [hstack] at h
  obtain ⟨⟨⟩, g1, h1, h⟩ := run_bind_ok_iff.1 h
  obtain ⟨⟨⟩, g2, h2, h⟩ := run_bind_ok_iff.1 h
  obtain ⟨⟨⟩, g3, h3, h⟩ := run_bind_ok_iff.1 h
  obtain ⟨⟨⟩, g4, h4, h⟩ := run_bind_ok_iff.1 h
  have hold := forM_indices (k := fun m item => m.set item.1 item.2) h1 fun _ _ _ => restoreOld_ok
  have hremoved := forM_indices (k := fun m item => m.set item.1 item.2) h4 fun _ _ _ h =>
    (restoreRemoved_ok_iff.1 h).2.2
  subst hold
  cases (forM_eraseNew _ _).symm.trans h2
  cases h3
  subst hremoved
  cases h
  rfl

theorem undo_nil (hstack : g.stack = []) : undo g = .ok () g := by
  unfold undo
  simp only [hstack]

theorem undo_stack (h : undo g = .ok () g') : g'.stack = g.stack.tail := by
  cases hstack : g.stack with
  | nil =>
    cases (undo_nil hstack).symm.trans h
    exact hstack
  | cons st rest =>
    rw [undo_eq hstack h]
    rfl

omit [Keyed α] in
theorem squash_toTable (g : GenericIndex α) : g.squash.toTable = g.toTable := by
  unfold squash
  split <;> rfl

theorem undo_ok (hstack : g.stack = st :: rest) (hst : Restores st g.find? base) (h : undo g = .ok () g') :
    g'.toTable = base ∧ g'.stack = rest ∧ g'.revision = g.revision - 1 := by
  rw [undo_eq hstack h]
  refine ⟨ext_find? (fun id => ?_) hst.nextId, rfl, rfl⟩
  change FlatMap.find? _ id = base.find? id
  rw [find?_foldl_set, find?_foldl_erase, find?_foldl_set]
  have hundone := (hst.change id).undone
  simp only [UndoState.entry, decide_eq_true_eq] at hundone
  exact hundone

/-! ## When it completes -/

theorem forM_restoreOld_iff (hsorted : l.Pairwise fun a b => a.1 < b.1)
    (hvalues : l.Pairwise fun a b => Keyed.clash b.2 a.2 = false)
    (hrows : ∀ item ∈ l, (g.find? item.1).isSome) :
    (∃ g', l.forM restoreOld g = .ok () g') ↔
      ∀ item ∈ l, ∀ j x, g.find? j = some x → j ≠ item.1 → (∀ r ∈ l, r.1 = j → item.1 < j) →
        Keyed.clash item.2 x = false := by
  induction l generalizing g with
  | nil => exact ⟨fun _ => nofun, fun _ => ⟨g, rfl⟩⟩
  | cons item l ih =>
    obtain ⟨hlt, hsorted⟩ := pairwise_cons.1 hsorted
    obtain ⟨hvalue, hvalues⟩ := pairwise_cons.1 hvalues
    obtain ⟨hrow, hrows⟩ := forall_mem_cons.1 hrows
    have hset (j : Nat) : (g.withIndices (g.indices.set item.1 item.2)).find? j =
        if j = item.1 then some item.2 else g.find? j := find?_set _ _ _ j
    have ih := ih (g := g.withIndices (g.indices.set item.1 item.2)) hsorted hvalues fun r hr => by
      rw [hset, if_neg (hlt r hr).ne']
      exact hrows r hr
    simp only [forM_cons_run_ok_iff, restoreOld_ok_iff hrow]
    constructor
    · rintro ⟨g', _, ⟨hfree, rfl⟩, hrest⟩ r hr j x hx hj hlater
      rcases mem_cons.1 hr with rfl | hr
      · exact hfree j x hx hj
      · have hne : j ≠ item.1 := fun heq =>
          (hlt r hr).asymm (heq ▸ hlater item (.head _) heq.symm)
        refine ih.1 ⟨g', hrest⟩ r hr j x ?_ hj fun r' hr' => hlater r' (.tail _ hr')
        rw [hset, if_neg hne, hx]
    · intro hfree
      have hrest := ih.2 fun r hr j x hx hj hlater => ?_
      · obtain ⟨g', hg'⟩ := hrest
        refine ⟨g', _, ⟨fun j w hw hj => ?_, rfl⟩, hg'⟩
        refine hfree item (.head _) j w hw hj fun r hr hrj => ?_
        rcases mem_cons.1 hr with rfl | hr
        · exact absurd hrj.symm hj
        · exact hrj ▸ hlt r hr
      · rw [hset] at hx
        split_ifs at hx with heq
        · cases hx
          exact hvalue r hr
        · refine hfree r (.tail _ hr) j x hx hj fun r' hr' hj' => ?_
          rcases mem_cons.1 hr' with rfl | hr'
          · exact absurd hj'.symm heq
          · exact hlater r' hr' hj'

theorem forM_restoreRemoved_total (hlegal : base.Legal) (hkeys : (l.map Prod.fst).Nodup)
    (hrows : ∀ j w, g.find? j = some w → base.find? j = some w)
    (hl : ∀ item ∈ l, base.find? item.1 = some item.2 ∧ g.find? item.1 = none) :
    ∃ g', l.forM restoreRemoved g = .ok () g' := by
  induction l generalizing g with
  | nil => exact ⟨g, rfl⟩
  | cons item l ih =>
    obtain ⟨hnotin, hkeys⟩ := nodup_cons.1 hkeys
    obtain ⟨⟨hbase, hnone⟩, hl⟩ := forall_mem_cons.1 hl
    have hset (j : Nat) : (g.withIndices (g.indices.set item.1 item.2)).find? j =
        if j = item.1 then some item.2 else g.find? j := find?_set _ _ _ j
    have hfree : ∀ j w, g.find? j = some w → Keyed.clash item.2 w = false := by
      intro j w hw
      refine hlegal.unique hbase (hrows j w hw) fun heq => ?_
      rw [← heq, hnone] at hw
      cases hw
    have hrest := ih (g := g.withIndices (g.indices.set item.1 item.2)) hkeys (fun j w hw => ?_)
      fun r hr => ?_
    · obtain ⟨g', hg'⟩ := hrest
      exact ⟨g', forM_cons_run_ok_iff.2 ⟨_, restoreRemoved_ok_iff.2 ⟨hnone, hfree, rfl⟩, hg'⟩⟩
    · rw [hset] at hw
      split_ifs at hw with heq
      · cases hw
        rw [heq, hbase]
      · exact hrows j w hw
    · have hne : r.1 ≠ item.1 := fun heq => hnotin (heq ▸ mem_map_of_mem hr)
      rw [hset, if_neg hne]
      exact hl r hr

section

variable (hstack : g.stack = st :: rest) (hst : Restores st g.find? base) (hbase : base.Legal)
include hstack hst hbase

theorem undo_of_restoreOld {g1 : GenericIndex α}
    (h1 : st.oldValues.entries.forM restoreOld g = .ok () g1) : ∃ g', undo g = .ok () g' := by
  have hold := forM_indices (k := fun m item => m.set item.1 item.2) h1 fun _ _ _ => restoreOld_ok
  let g2 := g1.withIndices (st.newIds.elems.foldl FlatMap.erase g1.indices)
  have hrows (id : Nat) : find? ⟨g2.indices, st.oldNextId⟩ id =
      if (st.entry id).isNew = true then none else (st.entry id).old.or (g.find? id) := by
    change FlatMap.find? (st.newIds.elems.foldl FlatMap.erase g1.indices) id = _
    rw [find?_foldl_erase, hold]
    simp only [UndoState.entry, decide_eq_true_eq]
    exact if_congr Iff.rfl rfl (find?_foldl_set _ _ id)
  obtain ⟨g4, h4⟩ := forM_restoreRemoved_total (g := { g2 with nextId := st.oldNextId }) hbase
    st.removedValues.nodup_keys (fun j w hw => (hst.change j).kept ((hrows j).symm.trans hw))
    fun item hitem => by
      obtain ⟨hwas, hnew, hold, hnow⟩ :=
        (hst.change item.1).of_removed (find?_eq_some_iff.2 hitem)
      refine ⟨hwas, (hrows item.1).trans ?_⟩
      rw [hnew, hold, hnow]
      rfl
  refine ⟨{ g4 with stack := rest, revision := g4.revision - 1 }, ?_⟩
  unfold undo
  simp only [hstack]
  exact run_bind_ok_iff.2 ⟨(), g1, h1, run_bind_ok_iff.2 ⟨(), g2, forM_eraseNew _ _,
    run_bind_ok_iff.2 ⟨(), _, rfl, run_bind_ok_iff.2 ⟨(), g4, h4, rfl⟩⟩⟩⟩

theorem undo_completes_iff (hnow : g.toTable.Legal) :
    (∃ g', undo g = .ok () g') ↔ Undoable base g.toTable := by
  have hold {item : Nat × α} (hitem : item ∈ st.oldValues.entries) :=
    (hst.change item.1).of_old (find?_eq_some_iff.2 hitem)
  have hloop := forM_restoreOld_iff (g := g) st.oldValues.sorted
    (st.oldValues.sorted.imp_of_mem fun ha hb hlt =>
      hbase.unique (hold hb).1 (hold ha).1 hlt.ne')
    fun item hitem => Option.isSome_iff_exists.2 (hold hitem).2
  constructor
  · rintro ⟨g', hundo⟩ i j v w x hv hw hx hij hlater
    unfold undo at hundo
    simp only [hstack] at hundo
    obtain ⟨⟨⟩, g1, h1, -⟩ := run_bind_ok_iff.1 hundo
    have hchange := hst.change i
    rw [hv, hw] at hchange
    rcases hchange.of_some with rfl | hsaved
    · exact hnow.unique hw hx hij
    · refine hloop.1 ⟨g1, h1⟩ (i, v) (find?_eq_some_iff.1 hsaved) j x hx hij.symm ?_
      rintro r hr rfl
      refine hlater.resolve_left fun hnone => ?_
      rw [(hold hr).1] at hnone
      cases hnone
  · intro hundoable
    obtain ⟨g1, h1⟩ := hloop.2 fun item hitem j x hx hj hlater => by
      obtain ⟨hv, w, hw⟩ := hold hitem
      cases hbasej : base.find? j with
      | none => exact hundoable _ j _ w x hv hw hx hj.symm (.inl hbasej)
      | some y =>
        have hchange := hst.change j
        rw [hbasej, hx] at hchange
        rcases hchange.of_some with rfl | hsaved
        · exact hbase.unique hv hbasej hj.symm
        · refine hundoable _ j _ w x hv hw hx hj.symm (.inr ?_)
          exact hlater (j, y) (find?_eq_some_iff.1 hsaved) rfl
    exact undo_of_restoreOld hstack hst hbase h1

theorem undo_error (hnow : g.toTable.Legal) (h : undo g = .error e g') :
    g' = g.withIndices g'.indices ∧ Restores st g'.find? base ∧ g'.toTable.Legal := by
  have hrun := h
  unfold undo at hrun
  simp only [hstack] at hrun
  rcases run_bind_error_iff.1 hrun with hthrow | ⟨⟨⟩, g1, h1, -⟩
  · obtain ⟨item, hitem, u, hu, hstep⟩ := forM_run_error_of_step
      (P := fun u => u = g.withIndices u.indices ∧ Restores st u.find? base ∧ u.toTable.Legal)
      hthrow ⟨rfl, hst, hnow⟩ fun item u u' hitem ⟨hu, hst, hnow⟩ hstep => by
        have hsaved := find?_eq_some_iff.2 hitem
        obtain ⟨-, w, hw⟩ := (hst.change item.1).of_old hsaved
        obtain ⟨hfree, rfl⟩ := (restoreOld_ok_iff (Option.isSome_iff_exists.2 ⟨w, hw⟩)).1 hstep
        refine ⟨by rw [hu]; rfl, ?_, hnow.set (hnow.lt_nextId hw) le_rfl hfree⟩
        have hrewrite := hst.rewrite (Option.isSome_iff_exists.2 ⟨_, hsaved⟩) hw item.2
        rw [← find?_set] at hrewrite
        exact hrewrite
    rw [store_error hstep]
    exact hu
  · obtain ⟨g'', hok⟩ := undo_of_restoreOld hstack hst hbase h1
    rw [hok] at h
    cases h

end

end GenericIndex

end Chainbase
