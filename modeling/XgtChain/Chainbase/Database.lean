import XgtChain.Chainbase.UndoRuns

/-!
# A database of indexes

A database is one index for each name.
-/

namespace Chainbase

open Base UndoStack ObjectIndex Function GenericIndex Table

/-! ## Tables as they are modelled elsewhere -/

namespace Table

variable {α : Type} {t : ObjectIndex α}

def ofIndex (t : ObjectIndex α) : Table α := ⟨⟨t.rows, t.sorted⟩, t.nextId⟩

theorem find?_ofIndex {id : Nat} {v : α} :
    (ofIndex t).find? id = some v ↔ (id, v) ∈ t.rows := FlatMap.find?_eq_some_iff

theorem ofIndex_append (t : ObjectIndex α) (a : α) :
    ofIndex (t.append a) = ⟨(ofIndex t).indices.set t.nextId a, t.nextId + 1⟩ := by
  refine ext_find? (fun id => Option.ext fun v => ?_) rfl
  rw [find?_ofIndex, find?_set, update_apply]
  split_ifs with hid
  · subst hid
    have hnone : (t.nextId, v) ∉ t.rows := fun hmem => (t.fresh _ hmem).false
    simp [ObjectIndex.append, hnone, eq_comm]
  · rw [find?_ofIndex]
    simp [ObjectIndex.append, hid]

theorem ofIndex_set {id : Nat} {old : α} (a : α) (hrow : (id, old) ∈ t.rows) :
    ofIndex (t.set id a) = ⟨(ofIndex t).indices.set id a, t.nextId⟩ := by
  refine ext_find? (fun i => Option.ext fun v => ?_) rfl
  rw [find?_ofIndex, find?_set, update_apply]
  change (i, v) ∈ t.rows.map (ObjectIndex.setRow id a) ↔ _
  rw [List.mem_map]
  split_ifs with hi
  · subst hi
    constructor
    · rintro ⟨r, -, hr⟩
      have hid : r.1 = i := (setRow_fst i a r).symm.trans (congrArg Prod.fst hr)
      rw [ObjectIndex.setRow, if_pos hid] at hr
      cases hr
      rfl
    · intro hv
      cases hv
      exact ⟨_, hrow, if_pos rfl⟩
  · rw [find?_ofIndex]
    constructor
    · rintro ⟨r, hr, hri⟩
      have hid : r.1 = i := (setRow_fst id a r).symm.trans (congrArg Prod.fst hri)
      rw [ObjectIndex.setRow, if_neg (hid ▸ hi)] at hri
      exact hri ▸ hr
    · exact fun hmem => ⟨_, hmem, if_neg hi⟩

theorem ofIndex_remove (t : ObjectIndex α) (id : Nat) :
    ofIndex (t.remove id) = ⟨(ofIndex t).indices.erase id, t.nextId⟩ := rfl

theorem legal_ofIndex [Keyed α] (h : ∀ r ∈ t.rows, ∀ r' ∈ t.rows, r.1 ≠ r'.1 → Keyed.clash r.2 r'.2 = false) :
    (ofIndex t).Legal where
  fresh _ hid := Option.eq_none_iff_forall_ne_some.2 fun _ hv =>
    hid.not_gt (t.fresh _ (find?_ofIndex.1 hv))
  unique hi hj hij := h _ (find?_ofIndex.1 hi) _ (find?_ofIndex.1 hj) hij

end Table

section

variable {α : Type} [Keyed α] {t t' : ObjectIndex α} {c : RowCall α} {g : GenericIndex α}

theorem undoable_of_ages (h : t.Ages t') (hnow : (ofIndex t').Legal) :
    Undoable (ofIndex t) (ofIndex t') := by
  intro i j v w x hv hw hx hij _
  have hrow := find?_ofIndex.1 hv
  obtain ⟨v', hv', hkeys⟩ := h.rows (find?_ofIndex.1 hw) (t.fresh _ hrow)
  cases eq_of_mem hrow hv' rfl
  rw [← hkeys]
  exact hnow.unique hw hx hij

theorem call_runs (hg : g.toTable = .ofIndex t) (hc : c.Runs t t') :
    g.Addresses c ∧ (after (g.call c)).toTable = .ofIndex t' := by
  have hfind {id : Nat} {v : α} : g.find? id = some v ↔ (id, v) ∈ t.rows := by
    rw [hg]
    exact Table.find?_ofIndex
  have hnext : g.nextId = t.nextId := congrArg Table.nextId hg
  have hindices : g.indices = (Table.ofIndex t).indices := congrArg Table.indices hg
  cases hc with
  | @create a t t' h =>
    refine ⟨trivial, ?_⟩
    have hfree : ∀ j w, g.find? j = some w → Keyed.clash a w = false := by
      intro j w hw
      exact (create?_eq_some_iff.1 h).1 w (List.mem_map_of_mem (hfind.1 hw))
    have hnone : g.find? g.nextId = none := Option.eq_none_iff_forall_ne_some.2 fun v hv =>
      (hnext ▸ t.fresh _ (hfind.1 hv)).false
    have hresult := MultiIndex.emplace?_eq_some_iff.2 ⟨hnone, hfree, rfl⟩
    rw [create?_eq h, Table.ofIndex_append, ← hindices, ← hnext]
    change (after (GenericIndex.emplace a g)).toTable = _
    unfold GenericIndex.emplace
    rw [hresult]
    rfl
  | @modify id old a t t' hrow h hkeys =>
    refine ⟨hfind.2 hrow, ?_⟩
    have hfree : ∀ j w, g.find? j = some w → j ≠ id → Keyed.clash a w = false := by
      intro j w hw hj
      unfold ObjectIndex.modify? at h
      split_ifs at h with hclash
      by_contra hne
      exact hclash (List.any_eq_true.2 ⟨_, hfind.1 hw, by simp [hj, hne]⟩)
    have hresult := MultiIndex.modify?_eq_some_iff.2 ⟨hfree, rfl⟩
    rw [modify?_eq h, Table.ofIndex_set a hrow, ← hindices, ← hnext]
    change (after (GenericIndex.modify id old a g)).toTable = _
    unfold GenericIndex.modify
    rw [hresult]
    rfl
  | remove hrow =>
    refine ⟨hfind.2 hrow, ?_⟩
    rw [Table.ofIndex_remove, ← hindices, ← hnext]
    rfl

theorem Refines.runs {u : UndoStack (Table α)} (h : Refines g u) (hu : u.state = .ofIndex t)
    (hc : c.Runs t t') : Refines (after (g.call c)) (u.set (.ofIndex t')) := by
  obtain ⟨haddress, htable⟩ := call_runs (h.table.trans hu) hc
  rw [← htable]
  exact h.call haddress

end

abbrev Database {ι : Type} (Row : ι → Type) := (i : ι) → GenericIndex (Row i)

namespace Database

variable {ι : Type} {Row : ι → Type}
variable {D D' : Database Row} {indexList : List ι}

def startUndoSession (D : Database Row) : Database Row := fun i => (D i).startUndoSession

def squash (D : Database Row) : Database Row := fun i => (D i).squash

def commit (D : Database Row) (revision : Nat) : Database Row := fun i => (D i).commit revision

variable [DecidableEq ι] [∀ i, Keyed (Row i)] (i : ι)

def call (D : Database Row) (i : ι) (c : RowCall (Row i)) : Database Row :=
  update D i (after ((D i).call c))

def undoIndex : EStateM String (Database Row) Unit := fun D =>
  match (D i).undo with
  | .ok _ g => .ok () (update D i g)
  | .error e g => .error e (update D i g)

def undo (indexList : List ι) : EStateM String (Database Row) Unit := indexList.forM undoIndex

def undoAllIndex : EStateM String (Database Row) Unit := fun D =>
  match (D i).undoAll with
  | .ok _ g => .ok () (update D i g)
  | .error e g => .error e (update D i g)

def undoAll (indexList : List ι) : EStateM String (Database Row) Unit := indexList.forM undoAllIndex

variable (hnodup : indexList.Nodup)
include hnodup

omit [∀ i, Keyed (Row i)] in
theorem forM_index_ok {f : ι → EStateM String (Database Row) Unit}
    (h : ∀ i ∈ indexList, ∀ D0 : Database Row, D0 i = D i → f i D0 = .ok () (update D0 i (D' i))) :
    indexList.forM f D = .ok () fun i => if i ∈ indexList then D' i else D i := by
  induction indexList generalizing D with
  | nil => rfl
  | cons i l ih =>
    obtain ⟨hi, hl⟩ := List.nodup_cons.1 hnodup
    have hfirst := h i (.head _) D rfl
    have hrest := ih (D := update D i (D' i)) hl fun j hj D0 hD0 => by
      have hne : j ≠ i := fun heq => hi (heq ▸ hj)
      rw [update_of_ne hne] at hD0
      exact h j (.tail _ hj) D0 hD0
    refine (forM_cons_run_ok_iff.2 ⟨_, hfirst, hrest⟩).trans ?_
    congr 1
    funext j
    by_cases hj : j = i
    · subst hj
      rw [if_neg hi, update_self, if_pos (.head _)]
    · rw [update_of_ne hj]
      exact if_congr (by simp [hj]) rfl rfl

theorem undo_ok (h : ∀ i ∈ indexList, (D i).undo = .ok () (D' i)) :
    undo indexList D = .ok () fun i => if i ∈ indexList then D' i else D i := by
  refine forM_index_ok hnodup fun i hi D0 hD0 => ?_
  unfold undoIndex
  rw [hD0, h i hi]

theorem undoAll_ok (h : ∀ i ∈ indexList, (D i).undoAll = .ok () (D' i)) :
    undoAll indexList D = .ok () fun i => if i ∈ indexList then D' i else D i := by
  refine forM_index_ok hnodup fun i hi D0 hD0 => ?_
  unfold undoAllIndex
  rw [hD0, h i hi]

end Database

open Database

/-! ## The refinement -/

section Mirrors

variable {ι σ : Type} {Row : ι → Type} [∀ i, Keyed (Row i)]

/-- The indexes are the views of the states on the stack. -/
structure Mirrors (view : σ → (i : ι) → ObjectIndex (Row i)) (D : Database Row) (u : UndoStack σ) :
    Prop where
  refines : ∀ i, Refines (D i) (u.map fun s => .ofIndex (view s i))
  aged : u.states.IsChain fun new old => ∀ i, (view old i).Ages (view new i)

namespace Mirrors

variable {view : σ → (i : ι) → ObjectIndex (Row i)} {D : Database Row} {u : UndoStack σ} {indexList : List ι}
  {s : σ}

section

variable (h : Mirrors view D u)
include h

theorem start : Mirrors view D.startUndoSession u.start where
  refines i := (h.refines i).start
  aged := List.isChain_cons_cons.2 ⟨fun _ => .refl _, h.aged⟩

theorem commit (r : Nat) : Mirrors view (D.commit r) (u.commit r) where
  refines i := by
    rw [map_commit]
    exact (h.refines i).commit r
  aged := h.aged.prefix (List.cons_prefix_cons.2 ⟨rfl, (u.commit_shortens r).map _⟩)

theorem squash : Mirrors view D.squash u.squash where
  refines i := by
    rw [map_squash]
    exact (h.refines i).squash
  aged := by
    obtain ⟨state, revision, saved⟩ := u
    rcases saved with _ | ⟨e, _ | ⟨e', saved⟩⟩
    · exact h.aged
    · exact List.isChain_singleton _
    · obtain ⟨hnew, hrest⟩ := List.isChain_cons_cons.1 h.aged
      obtain ⟨hold, hrest⟩ := List.isChain_cons_cons.1 hrest
      exact List.isChain_cons_cons.2 ⟨fun i => (hold i).trans (hnew i), hrest⟩

theorem set_aged (hs : ∀ i, (view u.state i).Ages (view s i)) :
    (u.set s).states.IsChain fun new old => ∀ i, (view old i).Ages (view new i) := by
  obtain ⟨state, revision, saved⟩ := u
  cases saved with
  | nil => exact List.isChain_singleton _
  | cons e saved =>
    obtain ⟨hold, hrest⟩ := List.isChain_cons_cons.1 h.aged
    exact List.isChain_cons_cons.2 ⟨fun i => (hold i).trans (hs i), hrest⟩

theorem of_view_eq (hview : view s = view u.state) : Mirrors view D (u.set s) where
  refines i := by
    rw [map_set, hview]
    exact h.refines i
  aged := h.set_aged fun i => hview ▸ .refl _

theorem call [DecidableEq ι] {i : ι} {c : RowCall (Row i)}
    {t : ObjectIndex (Row i)} (hc : c.Runs (view u.state i) t)
    (hview : view s = update (view u.state) i t) : Mirrors view (D.call i c) (u.set s) where
  refines j := by
    by_cases hj : j = i
    · subst hj
      have hruns := (h.refines j).runs rfl hc
      have htable : view s j = t := by rw [hview, update_self]
      rw [← htable] at hruns
      rw [Database.call, update_self]
      exact hruns
    · have htable : view s j = view u.state j := by rw [hview, update_of_ne hj]
      have hsame : (u.set s).map (fun s => ofIndex (view s j)) =
          u.map fun s => ofIndex (view s j) := by
        rw [map_set, htable]
        rfl
      rw [hsame, Database.call, update_of_ne hj]
      exact h.refines j
  aged := h.set_aged fun j => by
    rw [hview]
    by_cases hj : j = i
    · subst hj
      rw [update_self]
      exact hc.ages
    · rw [update_of_ne hj]
      exact .refl _

theorem undo_index : ∃ D' : Database Row, (∀ i, (D i).undo = .ok () (D' i)) ∧ Mirrors view D' u.undo := by
  have hcompletes (i : ι) : ∃ g, (D i).undo = .ok () g := by
    have hi := h.refines i
    cases hsaved : u.saved with
    | nil =>
      have hnil : (u.map fun s => ofIndex (view s i)).saved = [] := by rw [UndoStack.map, hsaved]; rfl
      exact ⟨D i, undo_nil (hi.stacked.nil_iff.2 hnil)⟩
    | cons e saved =>
      have hchain := h.aged
      rw [UndoStack.states, hsaved] at hchain
      have hages := (List.isChain_cons_cons.1 hchain).1 i
      have hcons : (u.map fun s => ofIndex (view s i)).saved =
          (e.1, .ofIndex (view e.2 i)) :: saved.map fun e => (e.1, .ofIndex (view e.2 i)) := by
        rw [UndoStack.map, hsaved]
        rfl
      refine (hi.undo_completes_iff hcons).2 ?_
      have hlegal := hi.stacked.legal
      rw [hi.table] at hlegal ⊢
      exact undoable_of_ages hages hlegal
  choose D' hD' using hcompletes
  refine ⟨D', hD', fun i => ?_, h.aged.suffix u.undo_states_suffix⟩
  rw [map_undo]
  exact (h.refines i).undo (hD' i)

theorem undo [DecidableEq ι] (hnodup : indexList.Nodup) (hall : ∀ i, i ∈ indexList) :
    ∃ D', undo indexList D = .ok () D' ∧ Mirrors view D' u.undo := by
  obtain ⟨D', hD', h'⟩ := h.undo_index
  refine ⟨D', ?_, h'⟩
  refine (undo_ok hnodup fun i _ => hD' i).trans ?_
  simp only [hall, if_true]

theorem undoAll_index :
    ∃ D' : Database Row, (∀ i, (D i).undoAll = .ok () (D' i)) ∧ Mirrors view D' u.undoAll := by
  have hlength (i : ι) : (D i).stack.length = u.saved.length := by
    have hrevisions := congrArg List.length (h.refines i).stacked.revisions
    simpa [UndoStack.map] using hrevisions
  suffices hloop : ∃ D' : Database Row,
      (∀ i, GenericIndex.undoLoop u.saved.length (D i) = .ok () (D' i)) ∧ Mirrors view D' u.undoAll by
    obtain ⟨D', hD', h'⟩ := hloop
    refine ⟨D', fun i => ?_, h'⟩
    rw [GenericIndex.undoAll, hlength]
    exact hD' i
  clear hlength
  generalize hn : u.saved.length = n
  induction n generalizing D u with
  | zero =>
    refine ⟨D, fun _ => rfl, ?_⟩
    rw [undoAll_of_nil (List.length_eq_zero_iff.1 hn)]
    exact h
  | succ n ih =>
    obtain ⟨D1, hD1, h1⟩ := h.undo_index
    obtain ⟨D2, hD2, h2⟩ := ih h1 (by rw [undo_saved, List.length_tail, hn]; rfl)
    refine ⟨D2, fun i => run_bind_ok_iff.2 ⟨(), D1 i, hD1 i, hD2 i⟩, ?_⟩
    rw [← undoAll_undo]
    exact h2

theorem undoAll [DecidableEq ι] (hnodup : indexList.Nodup) (hall : ∀ i, i ∈ indexList) :
    ∃ D', undoAll indexList D = .ok () D' ∧ Mirrors view D' u.undoAll := by
  obtain ⟨D', hD', h'⟩ := h.undoAll_index
  refine ⟨D', ?_, h'⟩
  refine (undoAll_ok hnodup fun i _ => hD' i).trans ?_
  simp only [hall, if_true]

end

end Mirrors

end Mirrors

section Calls

variable {ι : Type} {Row : ι → Type} [DecidableEq ι] [∀ i, Keyed (Row i)] (D : Database Row)

abbrev Tables (Row : ι → Type) := (i : ι) → ObjectIndex (Row i)

abbrev IndexCall (Row : ι → Type) := (i : ι) × RowCall (Row i)

inductive Tables.Runs : Tables Row → List (IndexCall Row) → Tables Row → Prop where
  | nil {p : Tables Row} : Runs p [] p
  | call {p p' : Tables Row} {cs : List (IndexCall Row)} {i : ι} {c : RowCall (Row i)}
      {t : ObjectIndex (Row i)} (h : Runs p cs p') (hc : c.Runs (p' i) t) :
      Runs p (cs ++ [⟨i, c⟩]) (update p' i t)
  | refused {p p' : Tables Row} {cs : List (IndexCall Row)} {i : ι} {v : Row i} (h : Runs p cs p')
      (hc : (p' i).create? v = none) : Runs p (cs ++ [⟨i, .create v⟩]) p'

def Database.calls (cs : List (IndexCall Row)) : Database Row :=
  cs.foldl (fun D c => D.call c.1 c.2) D

theorem Database.calls_concat (cs : List (IndexCall Row)) (c : IndexCall Row) :
    D.calls (cs ++ [c]) = (D.calls cs).call c.1 c.2 := by
  rw [calls, List.foldl_append]
  rfl

theorem Tables.Runs.single {p : Tables Row} {i : ι} {c : RowCall (Row i)} {t : ObjectIndex (Row i)}
    (hc : c.Runs (p i) t) : Tables.Runs p [⟨i, c⟩] (update p i t) := .call .nil hc

theorem Tables.Runs.append {p p' p'' : Tables Row} {cs cs' : List (IndexCall Row)} (h : p.Runs cs p')
    (h' : p'.Runs cs' p'') : p.Runs (cs ++ cs') p'' := by
  induction h' with
  | nil => rwa [List.append_nil]
  | call _ hc ih =>
    rw [← List.append_assoc]
    exact .call ih hc
  | refused _ hc ih =>
    rw [← List.append_assoc]
    exact .refused ih hc

omit [DecidableEq ι] [∀ i, Keyed (Row i)] in
theorem after_emplace_refused {α : Type} [Keyed α] {g : GenericIndex α} {t : ObjectIndex α} {v : α}
    (hg : g.toTable = .ofIndex t) (hv : t.create? v = none) : after (g.call (.create v)) = g := by
  have hrefused : g.indices.emplace? g.nextId v = none := by
    have hrows : g.indices.entries = t.rows := congrArg (fun T : Table α => T.indices.entries) hg
    unfold ObjectIndex.create? at hv
    split_ifs at hv with hclash
    unfold MultiIndex.emplace?
    rw [hrows, hclash, Bool.or_true]
    rfl
  change after (emplace v g) = g
  unfold emplace
  rw [hrefused]
  rfl

theorem Mirrors.calls {D : Database Row} {u : UndoStack (Tables Row)}
    {p : Tables Row} {cs : List (IndexCall Row)} (h : Mirrors (fun q => q) D u) (hcs : u.state.Runs cs p) :
    Mirrors (fun q => q) (D.calls cs) (u.set p) := by
  induction hcs with
  | nil => exact h
  | call _ hc ih =>
    rw [Database.calls_concat]
    exact ih.call hc rfl
  | @refused p cs i v _ hc ih =>
    rw [Database.calls_concat, Database.call, after_emplace_refused (ih.refines i).table hc,
      update_eq_self]
    exact ih

end Calls

/-! ## A session that fails -/

section Session

variable {ι : Type} {Row : ι → Type} [DecidableEq ι] [∀ i, Keyed (Row i)] {D D' : Database Row}
  {cs : List (IndexCall Row)} {indexList : List ι} {α : Type}

def Database.Addresses : Database Row → List (IndexCall Row) → Prop
  | _, [] => True
  | D, c :: cs => (D c.1).Addresses c.2 ∧ Addresses (D.call c.1 c.2) cs

theorem Database.Addresses.append {cs' : List (IndexCall Row)} (h : D.Addresses cs)
    (h' : (D.calls cs).Addresses cs') : D.Addresses (cs ++ cs') := by
  induction cs generalizing D with
  | nil => exact h'
  | cons c cs ih => exact ⟨h.1, ih h.2 h'⟩

theorem Database.calls_refines {u : (i : ι) → UndoStack (Table (Row i))} (h : ∀ i, Refines (D i) (u i))
    (hcs : D.Addresses cs) (i : ι) : Refines (D.calls cs i) ((u i).set (D.calls cs i).toTable) := by
  induction cs generalizing D u with
  | nil =>
    have hsame : (u i).set (D i).toTable = u i := by
      rw [(h i).table]
      rfl
    exact hsame.symm ▸ h i
  | cons c cs ih =>
    refine ih (u := fun i => (u i).set (D.call c.1 c.2 i).toTable) (fun j => ?_) hcs.2
    change Refines (D.call c.1 c.2 j) _
    by_cases hj : j = c.1
    · subst hj
      rw [call, update_self]
      exact (h _).call hcs.1
    · have hsame : (u j).set (D j).toTable = u j := by
        rw [(h j).table]
        rfl
      rw [call, update_of_ne hj, hsame]
      exact h j

theorem GenericIndex.ext_table {g g' : GenericIndex α} (htable : g.toTable = g'.toTable)
    (hstack : g.stack = g'.stack) (hrevision : g.revision = g'.revision) : g = g' := by
  obtain ⟨table, stack, revision⟩ := g
  obtain ⟨table', stack', revision'⟩ := g'
  cases htable
  cases hstack
  cases hrevision
  rfl

theorem GenericIndex.call_stack_tail [Keyed α] (g : GenericIndex α) (c : RowCall α) :
    (after (g.call c)).stack.tail = g.stack.tail := by
  have hhead : ∀ f : UndoState α → UndoState α, (g.stack.modifyHead f).tail = g.stack.tail := fun f => by
    cases g.stack <;> rfl
  cases c with
  | create v =>
    cases hcall : emplace v g with
    | ok _ g' =>
      rw [call, hcall]
      exact (congrArg List.tail (emplace_ok hcall).2.2.1).trans (hhead _)
    | error e g' =>
      rw [call, hcall, emplace_error hcall]
      rfl
  | modify id obj v =>
    cases hcall : modify id obj v g with
    | ok _ g' =>
      rw [call, hcall]
      exact (congrArg List.tail (modify_ok hcall).2.2.1).trans (hhead _)
    | error e g' =>
      rw [call, hcall, modify_error hcall]
      exact hhead _
  | remove id obj => exact hhead _

theorem Database.calls_stack_tail (D : Database Row) (cs : List (IndexCall Row)) (i : ι) :
    (D.calls cs i).stack.tail = (D i).stack.tail := by
  induction cs generalizing D with
  | nil => rfl
  | cons c cs ih =>
    refine (ih (D.call c.1 c.2)).trans ?_
    by_cases hi : i = c.1
    · subst hi
      rw [call, update_self]
      exact call_stack_tail _ _
    · rw [call, update_of_ne hi]

theorem Database.undo_completes_iff (hnodup : indexList.Nodup) :
    (∃ D', undo indexList D = .ok () D') ↔ ∀ i ∈ indexList, ∃ g, (D i).undo = .ok () g := by
  constructor
  · rintro ⟨D', h⟩
    induction indexList generalizing D with
    | nil => exact fun i hi => absurd hi List.not_mem_nil
    | cons i l ih =>
      obtain ⟨hi, hl⟩ := List.nodup_cons.1 hnodup
      obtain ⟨D1, hfirst, hrest⟩ := forM_cons_run_ok_iff.1 h
      cases hundo : (D i).undo with
      | error e g =>
        unfold undoIndex at hfirst
        rw [hundo] at hfirst
        cases hfirst
      | ok _ g =>
        unfold undoIndex at hfirst
        rw [hundo] at hfirst
        cases hfirst
        refine List.forall_mem_cons.2 ⟨⟨g, hundo⟩, fun j hj => ?_⟩
        have hne : j ≠ i := fun heq => hi (heq ▸ hj)
        have hj' := ih hl hrest j hj
        rwa [update_of_ne hne] at hj'
  · intro h
    have htotal : ∀ i, ∃ g, i ∈ indexList → (D i).undo = .ok () g := fun i => by
      by_cases hi : i ∈ indexList
      · obtain ⟨g, hg⟩ := h i hi
        exact ⟨g, fun _ => hg⟩
      · exact ⟨D i, fun hi' => absurd hi' hi⟩
    choose D' hD' using htotal
    exact ⟨_, undo_ok hnodup hD'⟩

section

variable (hD : ∀ i, ∃ u, Refines (D i) u) (hcs : D.startUndoSession.Addresses cs) (hnodup : indexList.Nodup)
  (hall : ∀ i, i ∈ indexList)
include hD hcs hnodup hall

theorem Database.undo_session_iff :
    (∃ D', undo indexList (D.startUndoSession.calls cs) = .ok () D') ↔
      ∀ i, Undoable (D i).toTable (D.startUndoSession.calls cs i).toTable := by
  choose u hu using hD
  rw [undo_completes_iff hnodup]
  have hindex : ∀ i, (∃ g, (D.startUndoSession.calls cs i).undo = .ok () g) ↔
      Undoable (D i).toTable (D.startUndoSession.calls cs i).toTable := fun i => by
    rw [(hu i).table]
    exact (calls_refines (fun i => (hu i).start) hcs i).undo_completes_iff rfl
  exact ⟨fun h i => (hindex i).1 (h i (hall i)), fun h i _ => (hindex i).2 (h i)⟩

theorem Database.undo_session_eq
    (hundo : undo indexList (D.startUndoSession.calls cs) = .ok () D') : D' = D := by
  choose u hu using hD
  have hcomplete := (undo_completes_iff hnodup).1 ⟨D', hundo⟩
  choose G hG using fun i => hcomplete i (hall i)
  have hD' : D' = G := by
    have hok := undo_ok hnodup fun i _ => hG i
    simp only [hall, if_true] at hok
    cases hundo.symm.trans hok
    rfl
  rw [hD']
  funext i
  have hrefines := (calls_refines (fun i => (hu i).start) hcs i).undo (hG i)
  rw [undo_set_start] at hrefines
  have hstack : (G i).stack = (D i).stack :=
    (undo_stack (hG i)).trans (calls_stack_tail _ cs i)
  have htable : (G i).toTable = (D i).toTable := hrefines.table.trans (hu i).table.symm
  have hrevision : (G i).revision = (D i).revision := hrefines.revision.trans (hu i).revision.symm
  exact ext_table htable hstack hrevision

end

end Session

end Chainbase
