import XgtChain.Chain.PushBlock

/-!
# The branches that `fetch_branch_from` returns

`fetch_branch_from` walks down from two items until it meets items with the same `previous`.
-/

namespace Xgt

open Base List ForkDatabase Nat

namespace ForkDatabase

variable {cr : Crypto} {db : ForkDatabase cr}

/-- A fork database made by calls of its functions. -/
inductive Reached : ForkDatabase cr → Prop where
  | empty : Reached (.empty cr)
  | pushBlock {d : ForkDatabase cr} (h : Reached d) (b : SignedBlock) : Reached (d.pushBlock b).1
  | startBlock {d : ForkDatabase cr} (h : Reached d) (b : SignedBlock) : Reached (d.startBlock b)
  | setHead {d : ForkDatabase cr} (h : Reached d) (x : ForkItem) : Reached (d.setHead x)
  | popBlock {d d' : ForkDatabase cr} (h : Reached d) (pinned : List ForkItem)
      (hpop : d.popBlock pinned = .ok d') : Reached d'
  | remove {d : ForkDatabase cr} (h : Reached d) (id : BlockId) : Reached (d.remove id)
  | setMaxSize {d : ForkDatabase cr} (h : Reached d) (size : Nat) : Reached (d.setMaxSize size)
  | reset {d : ForkDatabase cr} (h : Reached d) : Reached d.reset

theorem Reached.links (h : db.Reached) : ∀ x p, db.prev x = some p → 0 < x.num := by
  induction h with
  | empty => nofun
  | @pushBlock d _ b ih =>
    have hdb : d.Sane fun _ => True := ⟨ih, fun _ _ => trivial⟩
    exact (pushBlock_sane hdb (fun _ => trivial) (Prod.mk.eta).symm).1.links
  | startBlock _ _ ih | setHead _ _ ih => exact ih
  | @popBlock d d' _ pinned hpop ih =>
    obtain ⟨p, -, rfl⟩ := popBlock_ok hpop
    exact ih
  | remove _ _ ih => exact ih
  | setMaxSize _ _ ih =>
    rw [setMaxSize_prev]
    exact ih
  | reset _ ih => exact ih

/-! ## Parents that two items share -/

inductive Descends (db : ForkDatabase cr) (a : ForkItem) : ForkItem → List ForkItem → Prop where
  | refl : Descends db a a []
  | step {x p : ForkItem} {xs : List ForkItem} (hp : db.parent [] x = some p) (h : Descends db a p xs) :
      Descends db a x (x :: xs)

/-- Both branches come down to one block, and share none above it. -/
structure CommonAncestor (db : ForkDatabase cr) (x y : ForkItem) (xs ys : List ForkItem) (a a' : ForkItem) :
    Prop where
  down : db.Descends a x xs
  down' : db.Descends a' y ys
  same : a.data = a'.data
  recent : ∀ u ∈ xs, ∀ v ∈ ys, u.id cr ≠ v.id cr

section Descends

variable {x y a a' w v : ForkItem} {xs ys vs : List ForkItem}

section

variable (hlinks : ∀ x p, db.prev x = some p → 0 < x.num) (h : db.Descends a x xs)
include hlinks h

theorem Descends.num : x.num = a.num + xs.length := by
  induction h with
  | refl => rfl
  | @step x p xs hp _ ih =>
    have hprev := (parent_eq_some_iff.1 hp).1
    have hup := num_of_prev hprev (hlinks x p hprev)
    rw [length_cons]
    omega

theorem Descends.walkDown (k fuel : Nat) (hfuel : xs.length < fuel) :
    ∃ us vs w, xs = us ++ vs ∧ db.Descends a w vs ∧ vs.length = min xs.length k ∧
      db.walkDown (a.num + k) fuel x = .ok (us, w) := by
  obtain ⟨fuel, rfl⟩ := exists_eq_succ_of_ne_zero (ne_zero_of_lt hfuel)
  induction h generalizing fuel with
  | refl =>
    refine ⟨[], [], a, rfl, .refl, by simp, ?_⟩
    rw [ForkDatabase.walkDown, if_neg (by omega)]
  | @step x p xs hp h ih =>
    rw [length_cons, succ_lt_succ_iff] at hfuel
    obtain ⟨fuel, rfl⟩ := exists_eq_succ_of_ne_zero (ne_zero_of_lt hfuel)
    have hnum := (Descends.step hp h).num hlinks
    rw [length_cons] at hnum
    by_cases hk : k ≤ xs.length
    · obtain ⟨us, vs, w, rfl, hw, hlength, hwalk⟩ := ih fuel hfuel
      refine ⟨x :: us, vs, w, rfl, hw, by rw [hlength, length_cons]; omega, ?_⟩
      rw [ForkDatabase.walkDown, if_pos (by omega)]
      exact bind_ok (getParent_ok_iff.2 hp) (bind_ok hwalk rfl)
    · refine ⟨[], x :: xs, x, rfl, .step hp h, by rw [length_cons]; omega, ?_⟩
      rw [ForkDatabase.walkDown, if_neg (by omega)]

end

theorem Descends.walkBoth (h : db.Descends a w xs) (h' : db.Descends a' v ys) (hsame : a.data = a'.data)
    (hrecent : ∀ u ∈ xs, ∀ v ∈ ys, u.id cr ≠ v.id cr) (hlength : xs.length = ys.length) (fuel : Nat)
    (hfuel : xs.length < fuel) :
    db.walkBoth fuel w v = .ok (if xs = [] then ([a], [a']) else (xs, ys)) := by
  obtain ⟨fuel, rfl⟩ := exists_eq_succ_of_ne_zero (ne_zero_of_lt hfuel)
  induction h generalizing v ys fuel with
  | refl =>
    obtain rfl := length_eq_zero_iff.1 hlength.symm
    cases h'
    rw [walkBoth, if_pos (congrArg (·.previous) hsame), if_pos rfl]
  | @step x p xs hp h ih =>
    cases h' with
    | refl => cases hlength
    | @step _ q ys hq h' =>
      rw [length_cons, succ_lt_succ_iff] at hfuel
      obtain ⟨fuel, rfl⟩ := exists_eq_succ_of_ne_zero (ne_zero_of_lt hfuel)
      have hx : p.id cr = x.data.previous := db.linked x p (parent_eq_some_iff.1 hp).1
      have hy : q.id cr = v.data.previous := db.linked v q (parent_eq_some_iff.1 hq).1
      rw [if_neg (cons_ne_nil x xs), walkBoth, ← hx, ← hy]
      cases h with
      | refl =>
        obtain rfl := length_eq_zero_iff.1 (succ.inj hlength).symm
        cases h'
        rw [if_pos (show a.id cr = a'.id cr by rw [ForkItem.id, hsame, ForkItem.id])]
      | @step _ p' xs hp' h =>
        cases h' with
        | refl => cases hlength
        | @step _ q' ys hq' h' =>
          rw [if_neg (hrecent p (by simp) q (by simp))]
          have hrest := ih (.step hq' h') (fun u hu v hv => hrecent u (.tail _ hu) v
            (.tail _ hv)) (succ.inj hlength) fuel hfuel
          rw [if_neg (cons_ne_nil p xs)] at hrest
          exact bind_ok (getParent_ok_iff.2 hp) (bind_ok (getParent_ok_iff.2 hq)
            (bind_ok hrest rfl))

end Descends

theorem fetch_branch_from_eq (hdb : db.Reached) {first second : BlockId} {x y a a' : ForkItem}
    {xs ys : List ForkItem} (hx : findItem cr db.index first = some x)
      (hy : findItem cr db.index second = some y)
    (h : db.CommonAncestor x y xs ys a a') :
    db.fetchBranchFrom first second =
      .ok (if xs = [] ∨ ys = [] then (xs ++ [a], ys ++ [a']) else (xs, ys)) := by
  have hlinks := hdb.links
  have hnum : a.num = a'.num := congrArg (fun b : SignedBlock => b.blockNum) h.same
  have hxnum := h.down.num hlinks
  have hynum := h.down'.num hlinks
  obtain ⟨us, vs, w, rfl, hw, hlength, hwalk⟩ := h.down.walkDown hlinks ys.length (x.num + 1) (by omega)
  have hwnum := hw.num hlinks
  obtain ⟨us', vs', w', rfl, hw', hlength', hwalk'⟩ := h.down'.walkDown hlinks vs.length (y.num + 1) (by omega)
  have hlevel : vs.length = vs'.length := by omega
  have hboth := hw.walkBoth hw' h.same (fun u hu v hv => h.recent u (mem_append_right _ hu) v
    (mem_append_right _ hv)) hlevel (w.num + 1) (by omega)
  rw [show a.num + (us' ++ vs').length = y.num by omega] at hwalk
  rw [show a'.num + vs.length = w.num by omega] at hwalk'
  have hget {id : BlockId} {z : ForkItem} (hz : findItem cr db.index id = some z) : db.getItem id = .ok z := by
    rw [getItem, hz]
  have hrun : db.fetchBranchFrom first second =
      .ok (us ++ (if vs = [] then ([a], [a']) else (vs, vs')).1,
        us' ++ (if vs = [] then ([a], [a']) else (vs, vs')).2) :=
    bind_ok (hget hx) (bind_ok (hget hy) (bind_ok hwalk (bind_ok hwalk'
      (bind_ok hboth rfl))))
  rw [hrun]
  by_cases hvs : vs = []
  · -- one of the lists ends at the ancestor after the first two loops
    subst hvs
    obtain rfl : vs' = [] := length_eq_zero_iff.1 hlevel.symm
    have hnil : us ++ [] = [] ∨ us' ++ [] = [] := by
      rw [append_nil, append_nil, ← length_eq_zero_iff, ← length_eq_zero_iff]
      simp only [append_nil, length_nil] at hlength
      omega
    rw [if_pos hnil, if_pos rfl, append_nil, append_nil]
  · have hvs' : vs' ≠ [] := fun hnil => hvs (length_eq_zero_iff.1 (by rw [hlevel, hnil, length_nil]))
    rw [if_neg hvs, if_neg (by simp [hvs, hvs'])]

section Toy

def trunkBlock : SignedBlock := toyBlock BlockId.zero 3

def leftBlock : SignedBlock := toyBlock (toyId trunkBlock) 6

def rightBlock : SignedBlock := toyBlock (toyId trunkBlock) 9

def forkedDb : ForkDatabase toyParams.toCrypto :=
  ((((empty toyParams.toCrypto).pushBlock trunkBlock).1.pushBlock leftBlock).1.pushBlock rightBlock).1

theorem fetch_branch_from_siblings :
    forkedDb.fetchBranchFrom (toyId leftBlock) (toyId rightBlock) = .ok ([⟨1, leftBlock⟩],
      [⟨2, rightBlock⟩]) := by
  have hreached : forkedDb.Reached := ((Reached.empty.pushBlock _).pushBlock _).pushBlock _
  have hancestor : forkedDb.CommonAncestor ⟨1, leftBlock⟩ ⟨2, rightBlock⟩ [⟨1, leftBlock⟩] [⟨2, rightBlock⟩]
      ⟨0, trunkBlock⟩ ⟨0, trunkBlock⟩ :=
    ⟨.step (by decide) .refl, .step (by decide) .refl, rfl, by decide⟩
  exact fetch_branch_from_eq hreached (by decide) (by decide) hancestor

theorem fetch_branch_from_parent : ∃ (db : ForkDatabase toyParams.toCrypto) (x a : ForkItem), db.Reached ∧
    db.index = [a, x] ∧ db.CommonAncestor x a [x] [] a a ∧
    db.fetchBranchFrom (x.id toyParams.toCrypto) (a.id toyParams.toCrypto) = .ok ([x, a], [a]) := by
  refine ⟨_, ⟨1, leftBlock⟩, ⟨0, trunkBlock⟩,
    (Reached.empty.pushBlock trunkBlock).pushBlock leftBlock, ?_, ?_, ?_⟩
  · decide
  · exact ⟨.step (by decide) .refl, .refl, rfl, by decide⟩
  · decide

end Toy

end ForkDatabase

end Xgt
