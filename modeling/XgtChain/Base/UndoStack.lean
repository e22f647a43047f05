import Mathlib.Data.List.Chain
import Mathlib.Data.List.DropRight

/-!
# A state with an undo stack

A state, a revision number, and the saved states that a session can go back to, newest first.
-/

namespace Base

open List

structure UndoStack (σ : Type) where
  state : σ
  revision : Nat
  saved : List (Nat × σ)

namespace UndoStack

variable {σ : Type} (u : UndoStack σ) (revision r : Nat) (s : σ)

def set : UndoStack σ := { u with state := s }

def start : UndoStack σ :=
  { u with revision := u.revision + 1, saved := (u.revision + 1, u.state) :: u.saved }

def undo : UndoStack σ :=
  match u.saved with
  | [] => u
  | e :: saved => ⟨e.2, u.revision - 1, saved⟩

def commit : UndoStack σ :=
  { u with saved := u.saved.rdropWhile fun e => e.1 ≤ revision }

def squash : UndoStack σ :=
  match u.saved with
  | [] => u
  | [_] => { u with saved := [] }
  | _ :: e :: saved => { u with revision := u.revision - 1, saved := e :: saved }

def oldest : σ := (u.saved.getLast?.map Prod.snd).getD u.state

def undoAll : UndoStack σ := ⟨u.oldest, u.revision - u.saved.length, []⟩

def setRevision? : Option (UndoStack σ) :=
  if u.saved.isEmpty then some { u with revision := revision } else none

def states : List σ := u.state :: u.saved.map Prod.snd

def map {τ : Type} (f : σ → τ) : UndoStack τ where
  state := f u.state
  revision := u.revision
  saved := u.saved.map fun e => (e.1, f e.2)

@[simp] theorem undo_set_start : (u.start.set s).undo = u := rfl

theorem setRevision?_of_nil {u : UndoStack σ} (h : u.saved = []) :
    u.setRevision? r = some { u with revision := r } :=
  if_pos (isEmpty_iff.2 h)

theorem commit_shortens : (u.commit r).saved <+: u.saved :=
  List.rdropWhile_prefix _ _

variable {u}

theorem undo_saved (u : UndoStack σ) : u.undo.saved = u.saved.tail := by
  unfold undo
  split
  · next hsaved => rw [hsaved, tail_nil]
  · next hsaved => rw [hsaved, tail_cons]

theorem oldest_undo (u : UndoStack σ) : u.undo.oldest = u.oldest := by
  unfold undo
  split
  · rfl
  · next e saved hsaved =>
    rw [oldest, oldest, hsaved, getLast?_cons]
    cases saved.getLast? <;> rfl

theorem undoAll_undo (u : UndoStack σ) : u.undo.undoAll = u.undoAll := by
  unfold undoAll
  rw [oldest_undo, undo_saved]
  unfold undo
  split
  · next hsaved => rw [hsaved, tail_nil]
  · next hsaved =>
    rw [hsaved, tail_cons, length_cons, Nat.sub_sub, Nat.add_comm]

theorem getElem?_states_length (u : UndoStack σ) : u.states[u.saved.length]? = some u.oldest := by
  have hlast : u.states.getLast? = some u.oldest := by
    rw [states, getLast?_cons, getLast?_map]
    rfl
  rw [← hlast, getLast?_eq_getElem?]
  simp [states]

theorem undoAll_of_nil {u : UndoStack σ} (h : u.saved = []) : u.undoAll = u := by
  obtain ⟨state, revision, saved⟩ := u
  cases h
  rfl

theorem rdropWhile_cons {β : Type} (p : β → Bool) (a : β) (l : List β) :
    (a :: l).rdropWhile p = if l.rdropWhile p = [] ∧ p a = true then [] else a :: l.rdropWhile p := by
  simp only [List.rdropWhile, reverse_cons, dropWhile_append, reverse_eq_nil_iff]
  split_ifs with hnil hboth hboth
  all_goals simp_all

theorem rdropWhile_map {β γ : Type} (f : β → γ) (p : γ → Bool) (l : List β) :
    (l.map f).rdropWhile p = (l.rdropWhile fun b => p (f b)).map f := by
  induction l with
  | nil => rfl
  | cons a l ih =>
    rw [map_cons, rdropWhile_cons, rdropWhile_cons, ih, apply_ite (List.map f), map_cons]
    exact if_congr (by rw [map_eq_nil_iff]) rfl rfl

section Map

variable {τ : Type} (f : σ → τ)

theorem map_set (u : UndoStack σ) (s : σ) : (u.set s).map f = (u.map f).set (f s) := rfl

theorem map_undo (u : UndoStack σ) : u.undo.map f = (u.map f).undo := by
  obtain ⟨state, revision, saved⟩ := u
  cases saved <;> rfl

theorem map_squash (u : UndoStack σ) : u.squash.map f = (u.map f).squash := by
  obtain ⟨state, revision, saved⟩ := u
  rcases saved with _ | ⟨e, _ | ⟨e', saved⟩⟩ <;> rfl

theorem map_commit (u : UndoStack σ) (r : Nat) : (u.commit r).map f = (u.map f).commit r := by
  simp only [map, commit, rdropWhile_map]

theorem map_oldest (u : UndoStack σ) : (u.map f).oldest = f u.oldest := by
  unfold oldest map
  rw [getLast?_map]
  cases u.saved.getLast? <;> rfl

theorem map_undoAll (u : UndoStack σ) : u.undoAll.map f = (u.map f).undoAll := by
  unfold undoAll
  rw [map_oldest]
  simp [map]

end Map

theorem commit_eq_self {r : Nat} (h : ∀ e ∈ u.saved, r < e.1) : u.commit r = u := by
  have hsaved : u.saved.rdropWhile (fun e => e.1 ≤ r) = u.saved := by
    rw [rdropWhile_eq_self_iff]
    intro hne
    simpa using h _ (getLast_mem hne)
  rw [commit, hsaved]

theorem commit_states_prefix (u : UndoStack σ) (r : Nat) : (u.commit r).states <+: u.states := by
  unfold states
  exact cons_prefix_cons.2 ⟨rfl, (u.commit_shortens r).map _⟩

theorem undo_states_suffix (u : UndoStack σ) : u.undo.states <:+ u.states := by
  unfold undo
  split
  · exact suffix_rfl
  · next e saved hsaved =>
    rw [states, states, hsaved]
    exact suffix_cons _ _

theorem undo_iterate_states_suffix (k : Nat) : (undo^[k] u).states <:+ u.states := by
  induction k with
  | zero => exact suffix_rfl
  | succ k ih =>
    rw [Function.iterate_succ_apply']
    exact (undo_states_suffix _).trans ih

/-! ## Revisions -/

inductive Consecutive : Nat → List (Nat × σ) → Prop where
  | nil (n : Nat) : Consecutive n []
  | cons {n : Nat} {saved : List (Nat × σ)} (s : σ) (h : Consecutive n saved) :
      Consecutive (n + 1) ((n + 1, s) :: saved)

section Consecutive

variable {n : Nat} {l l' : List (Nat × σ)} {e : Nat × σ}

theorem Consecutive.of_prefix (h : Consecutive n l) (hpre : l' <+: l) : Consecutive n l' := by
  induction h generalizing l' with
  | nil n =>
    rw [prefix_nil.1 hpre]
    exact .nil n
  | cons s _ ih =>
    cases l' with
    | nil => exact .nil _
    | cons e l' =>
      obtain ⟨rfl, hpre'⟩ := cons_prefix_cons.1 hpre
      exact (ih hpre').cons s

theorem Consecutive.tail (h : Consecutive n (e :: l)) : e.1 = n ∧ Consecutive (n - 1) l := by
  cases h with
  | cons s h => exact ⟨rfl, h⟩

theorem Consecutive.mem_le (h : Consecutive n l) (he : e ∈ l) : 0 < e.1 ∧ e.1 ≤ n := by
  induction h with
  | nil n => cases he
  | cons s _ ih =>
    rcases mem_cons.1 he with rfl | he
    · exact ⟨Nat.succ_pos _, le_rfl⟩
    · exact ⟨(ih he).1, (ih he).2.trans (Nat.le_succ _)⟩

theorem Consecutive.le_below {r : Nat} {s : σ} {l1 l2 : List (Nat × σ)}
    (h : Consecutive n (l1 ++ (r + 1, s) :: l2)) : ∀ e ∈ l2, e.1 ≤ r := by
  induction l1 generalizing n with
  | nil =>
    cases h with
    | cons _ h => exact fun e he => (h.mem_le he).2
  | cons e l1 ih =>
    cases h with
    | cons _ h => exact ih h

theorem Consecutive.oldest_commit {r : Nat} {s : σ} (h : Consecutive n u.saved)
    (hmem : (r + 1, s) ∈ u.saved) : (u.commit r).oldest = s := by
  obtain ⟨l1, l2, hsplit⟩ := append_of_mem hmem
  have hbelow : ∀ e ∈ l2.reverse, decide (e.1 ≤ r) = true := fun e he =>
    decide_eq_true ((hsplit ▸ h).le_below e (mem_reverse.1 he))
  have hsaved : (u.commit r).saved = l1 ++ [(r + 1, s)] := by
    change u.saved.rdropWhile _ = _
    rw [hsplit, List.rdropWhile, reverse_append, reverse_cons, append_assoc,
      dropWhile_append_of_pos hbelow, singleton_append, dropWhile_cons_of_neg (by simp)]
    simp
  rw [oldest, hsaved, getLast?_concat]
  rfl

end Consecutive

theorem oldest_commit_of_le {r : Nat} (h : ∀ e ∈ u.saved, e.1 ≤ r) : (u.commit r).oldest = u.state := by
  have hsaved : (u.commit r).saved = [] :=
    rdropWhile_eq_nil_iff.2 fun e he => decide_eq_true (h e he)
  rw [oldest, hsaved]
  rfl

structure Spans (c : Nat) (u : UndoStack σ) : Prop where
  le : c ≤ u.revision
  revisions : u.saved.map Prod.fst = (List.range' (c + 1) (u.revision - c)).reverse

section Spans

variable {c : Nat}

theorem Spans.length (h : Spans c u) : u.saved.length = u.revision - c := by
  simpa using congrArg List.length h.revisions

theorem Spans.undoAll (h : Spans c u) : u.undoAll = ⟨u.oldest, c, []⟩ := by
  have hle := h.le
  rw [UndoStack.undoAll, h.length, Nat.sub_sub_self hle]

theorem Spans.start (h : Spans c u) : Spans c u.start where
  le := h.le.trans (Nat.le_succ _)
  revisions := by
    have hle := h.le
    change (u.revision + 1) :: u.saved.map Prod.fst = _
    rw [h.revisions, show u.start.revision - c = u.revision - c + 1 by change u.revision + 1 - c = _; omega,
      range'_concat, reverse_concat]
    congr 1
    omega

theorem Spans.undo (h : Spans c u) : Spans c u.undo := by
  obtain ⟨state, revision, saved⟩ := u
  cases saved with
  | nil => exact h
  | cons e saved =>
    obtain ⟨hle, hrevisions⟩ := h
    cases hk : revision - c with
    | zero =>
      rw [hk] at hrevisions
      cases hrevisions
    | succ k =>
      rw [hk, range'_concat, reverse_concat, map_cons] at hrevisions
      have htail := (List.cons.inj hrevisions).2
      refine ⟨?_, ?_⟩
      · change c ≤ revision - 1
        omega
      · change saved.map Prod.fst = (List.range' (c + 1) (revision - 1 - c)).reverse
        rw [htail, show revision - 1 - c = k by omega]

theorem dropWhile_range' (a m r : Nat) : (List.range' a m).dropWhile (fun k => k ≤ r) =
    List.range' (max a (r + 1)) (a + m - max a (r + 1)) := by
  induction m generalizing a with
  | zero =>
    rw [show a + 0 - max a (r + 1) = 0 by omega]
    rfl
  | succ m ih =>
    rw [range'_succ]
    by_cases ha : a ≤ r
    · rw [dropWhile_cons_of_pos (by simpa using ha), ih]
      congr 1 <;> omega
    · rw [dropWhile_cons_of_neg (by simpa using ha), ← range'_succ]
      congr 1 <;> omega

theorem Spans.commit (h : Spans c u) {r : Nat} (hr : r ≤ u.revision) : Spans (max c r) (u.commit r) where
  le := max_le h.le hr
  revisions := by
    have hle := h.le
    change (u.saved.rdropWhile fun e => e.1 ≤ r).map Prod.fst = _
    rw [← rdropWhile_map Prod.fst (fun k => decide (k ≤ r)), h.revisions, List.rdropWhile,
      reverse_reverse, dropWhile_range']
    change _ = (List.range' (max c r + 1) (u.revision - max c r)).reverse
    congr 2 <;> omega

end Spans

/-! ## Histories -/

section Tracks

variable (level : σ → Nat) (R : σ → σ → Prop)

structure Tracks (u : UndoStack σ) : Prop where
  revision : u.revision = level u.state
  levels : ∀ e ∈ u.saved, e.1 = level e.2 + 1
  chain : u.states.IsChain fun new old => R old new

variable {level R} (up : ∀ old new, R old new → level new = level old + 1)

theorem Tracks.init (s : σ) : Tracks level R ⟨s, level s, []⟩ :=
  ⟨rfl, by nofun, isChain_singleton _⟩

include up in
theorem Tracks.start_set (h : Tracks level R u) {s : σ} (hR : R u.state s) :
    Tracks level R (u.start.set s) where
  revision := by
    change u.revision + 1 = level s
    rw [up _ _ hR, h.revision]
  levels := by
    rintro e (⟨⟩ | ⟨_, he⟩)
    · exact congrArg (· + 1) h.revision
    · exact h.levels e he
  chain := isChain_cons_cons.2 ⟨hR, h.chain⟩

theorem Tracks.of_cons {e : Nat × σ} {saved : List (Nat × σ)} (h : Tracks level R u)
    (hsaved : u.saved = e :: saved) : R e.2 u.state := by
  have hchain := h.chain
  rw [states, hsaved] at hchain
  exact (isChain_cons_cons.1 hchain).1

include up in
theorem Tracks.undo (h : Tracks level R u) : Tracks level R u.undo := by
  unfold UndoStack.undo
  split
  · exact h
  · next e saved hsaved =>
    have hup := up _ _ (h.of_cons hsaved)
    refine ⟨?_, fun e' he' => h.levels e' ?_, ?_⟩
    · rw [h.revision, hup]
      rfl
    · rw [hsaved]
      exact .tail _ he'
    · have hchain := h.chain
      rw [states, hsaved] at hchain
      exact (isChain_cons_cons.1 hchain).2

include up in
theorem Tracks.redo {e : Nat × σ} {saved : List (Nat × σ)} (h : Tracks level R u)
    (hsaved : u.saved = e :: saved) : u.undo.start.set u.state = u := by
  have hlevel := h.levels e (by rw [hsaved]; exact .head _)
  have hup := up _ _ (h.of_cons hsaved)
  have hrevision : u.revision = e.1 := by rw [h.revision, hup, hlevel]
  obtain ⟨s, r, l⟩ := u
  cases hsaved
  have hpos : r - 1 + 1 = r := Nat.sub_add_cancel (by simp only at *; omega)
  simp only [UndoStack.undo, start, set, hpos]
  rw [show r = e.1 from hrevision]

theorem Tracks.level_oldest {c : Nat} (h : Tracks level R u) (hs : Spans c u) : level u.oldest = c := by
  have hle := hs.le
  have hlength := hs.length
  have hlast := congrArg List.getLast? hs.revisions
  rw [getLast?_map, getLast?_reverse] at hlast
  unfold oldest
  cases hsaved : u.saved.getLast? with
  | none =>
    rw [getLast?_eq_none_iff] at hsaved
    rw [hsaved] at hlength
    have htop : 0 = u.revision - c := hlength
    change level u.state = c
    rw [← h.revision]
    omega
  | some e =>
    have hmem := mem_of_getLast? hsaved
    have hlevel := h.levels e hmem
    have hpos := length_pos_of_mem hmem
    rw [hsaved, head?_range', if_neg (by omega)] at hlast
    have hfirst : e.1 = c + 1 := Option.some.inj hlast
    change level e.2 = c
    omega

include up in
theorem Tracks.level_oldest_add (h : Tracks level R u) : level u.oldest + u.saved.length = u.revision := by
  induction hsaved : u.saved generalizing u with
  | nil =>
    rw [h.revision, oldest, hsaved]
    rfl
  | cons e saved ih =>
    have hundo : u.undo.saved = saved := by rw [u.undo_saved, hsaved, tail_cons]
    have hrevision : u.undo.revision + 1 = u.revision := by
      rw [(h.undo up).revision, h.revision, up _ _ (h.of_cons hsaved), UndoStack.undo, hsaved]
    have hadd := ih (h.undo up) hundo
    rw [oldest_undo] at hadd
    rw [← hrevision, ← hadd, length_cons, Nat.add_assoc]

include up in
theorem Tracks.undo_iterate_above (h : Tracks level R u) {r : Nat} (hr : r ≤ u.revision)
    (hsaved : ∀ e ∈ u.saved, r < e.1) (k : Nat) :
    r ≤ (UndoStack.undo^[k] u).revision ∧ ∀ e ∈ (UndoStack.undo^[k] u).saved, r < e.1 := by
  induction k generalizing u with
  | zero => exact ⟨hr, hsaved⟩
  | succ k ih =>
    rw [Function.iterate_succ_apply]
    refine ih (h.undo up) ?_ ?_
    · rw [(h.undo up).revision]
      unfold UndoStack.undo
      split
      · rw [← h.revision]
        exact hr
      · next e saved he =>
        have hmem : e ∈ u.saved := by rw [he]; exact .head _
        have hlevel := h.levels e hmem
        have habove := hsaved e hmem
        change r ≤ level e.2
        omega
    · intro e he
      unfold UndoStack.undo at he
      split at he
      · exact hsaved e he
      · next e' saved heq => exact hsaved e (by rw [heq]; exact .tail _ he)

theorem Tracks.commit (h : Tracks level R u) (r : Nat) : Tracks level R (u.commit r) where
  revision := h.revision
  levels e he := h.levels e ((u.commit_shortens r).subset he)
  chain := by
    refine h.chain.prefix (cons_prefix_cons.2 ⟨rfl, ?_⟩)
    exact (u.commit_shortens r).map _

include up in
theorem Tracks.pairwise (h : Tracks level R u) : u.saved.Pairwise fun a b => b.1 < a.1 := by
  have hchain : u.saved.IsChain fun a b => b.1 < a.1 := by
    have htail : (u.saved.map Prod.snd).IsChain fun new old => R old new := h.chain.tail
    rw [isChain_map] at htail
    refine htail.imp_of_mem_imp fun a b ha hb hR => ?_
    rw [h.levels a ha, h.levels b hb, up _ _ hR]
    exact Nat.lt_succ_self _
  have : IsTrans (Nat × σ) fun a b => b.1 < a.1 := ⟨fun _ _ _ hab hbc => hbc.trans hab⟩
  exact isChain_iff_pairwise.1 hchain

include up in
theorem Tracks.commit_above (h : Tracks level R u) (r : Nat) : ∀ e ∈ (u.commit r).saved, r < e.1 := by
  intro e he
  have hne : (u.commit r).saved ≠ [] := ne_nil_of_mem he
  have hlast : ∀ f ∈ (u.commit r).saved.getLast?, r < f.1 := by
    intro f hf
    rw [getLast?_eq_some_getLast hne] at hf
    cases hf
    exact Nat.not_le.1 fun hle => rdropWhile_last_not _ u.saved hne (decide_eq_true hle)
  have hpair := (h.pairwise up).sublist (u.commit_shortens r).sublist
  -- The last one is the lowest.
  obtain ⟨l, f, hl⟩ := (eq_nil_or_concat _).resolve_left hne
  rw [hl, concat_eq_append] at he hlast hpair
  have hf : r < f.1 := hlast f getLast?_concat
  rcases mem_append.1 he with hmem | hmem
  · exact hf.trans ((pairwise_append.1 hpair).2.2 e hmem f (mem_singleton_self f))
  · rwa [mem_singleton.1 hmem]

end Tracks

end UndoStack

end Base
