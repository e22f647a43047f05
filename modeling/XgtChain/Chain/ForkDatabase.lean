import Mathlib.Data.List.Chain
import XgtChain.Protocol.Operation

/-!
# The fork database

`fork_database`: the recent blocks of every branch, linked to their parents, and a cache of blocks whose
parent is not known.
-/

namespace Xgt

open Base List

structure ForkItem where
  serial : Nat
  data : SignedBlock
  deriving DecidableEq

namespace ForkItem

def num (x : ForkItem) : Nat := x.data.blockNum

def id (cr : Crypto) (x : ForkItem) : BlockId := cr.blockId x.data.toSignedBlockHeader

theorem id_num (cr : Crypto) (x : ForkItem) : (x.id cr).num = x.num := rfl

end ForkItem

def xgtForkDbMaxSize : Nat := 1024

structure ForkDatabase (cr : Crypto) where
  nextSerial : Nat := 0
  maxSize : Nat := xgtForkDbMaxSize
  index : List ForkItem := []
  unlinked : List ForkItem := []
  head : Option ForkItem := none
  prev : ForkItem → Option ForkItem := fun _ => none
  linked : ∀ x p, prev x = some p → p.id cr = x.data.previous := by nofun

def findItem (cr : Crypto) (l : List ForkItem) (id : BlockId) : Option ForkItem :=
  l.find? fun x => x.id cr = id

def insertItem (cr : Crypto) (l : List ForkItem) (x : ForkItem) : List ForkItem :=
  if (findItem cr l (x.id cr)).isSome then l else l ++ [x]

theorem id_of_findItem {cr : Crypto} {l : List ForkItem} {id : BlockId} {x : ForkItem}
    (h : findItem cr l id = some x) : x.id cr = id := by
  simpa using find?_some h

namespace ForkDatabase

def empty (cr : Crypto) : ForkDatabase cr := {}

variable {cr : Crypto} (db : ForkDatabase cr) (pinned : List ForkItem) (x : ForkItem) (id : BlockId)
  (b : SignedBlock) (num : Nat)

def parent : Option ForkItem :=
  (db.prev x).filter fun p => p ∈ db.index ++ db.unlinked ++ db.head.toList ++ pinned

def fetchBlock : Option ForkItem :=
  (findItem cr db.index id).or (findItem cr db.unlinked id)

def fetchBlockByNumber : List ForkItem := db.index.filter fun x => x.num = num

def setPrev (x p : ForkItem) (h : p.id cr = x.data.previous) : ForkDatabase cr :=
  { db with
    prev := fun y => if y = x then some p else db.prev y
    linked := by
      intro y q hq
      split_ifs at hq with hy
      · cases hq
        rw [hy, h]
      · exact db.linked y q hq }

def linkItem : Result (ForkDatabase cr) :=
  match db.head with
  | none => .ok db
  | some h => do
    ensure (h.num - db.maxSize < x.num)
      ⟨.blockTooOld, "attempting to push a block that is too old"⟩
    if x.data.previous = BlockId.zero then pure db
    else match hp : findItem cr db.index x.data.previous with
      | none => throw ⟨.unlinkableBlock, "block does not link to known chain"⟩
      | some p => pure (db.setPrev x p (id_of_findItem hp))

def insertLinked : ForkDatabase cr :=
  { db with
    index := insertItem cr db.index x
    head := match db.head with
      | none => some x
      | some h => if h.num < x.num then some x else some h }

def attach : Result (ForkDatabase cr) := do
  let db ← db.linkItem x
  pure (db.insertLinked x)

def pushNext : Nat → ForkDatabase cr → List BlockId → ForkDatabase cr × Result Unit
  | 0, db, _ | _ + 1, db, [] => (db, .ok ())
  | fuel + 1, db, id :: parents =>
    match db.unlinked.find? fun x => x.data.previous = id with
    | none => pushNext fuel db parents
    | some x =>
      let db := { db with unlinked := db.unlinked.erase x }
      match db.attach x with
      | .ok db => pushNext fuel db (x.id cr :: id :: parents)
      | .error e =>
        if e.kind = .assertException then pushNext fuel db (id :: parents) else (db, .error e)

def pushItem : ForkDatabase cr × Result Unit :=
  match db.attach x with
  | .error e => (db, .error e)
  | .ok db => pushNext (2 * db.unlinked.length + 2) db [x.id cr]

def pushBlock : ForkDatabase cr × Result ForkItem :=
  let x := ⟨db.nextSerial, b⟩
  match { db with nextSerial := db.nextSerial + 1 }.pushItem x with
  | (db, .error e) =>
    (if e.kind = .unlinkableBlock then { db with unlinked := insertItem cr db.unlinked x } else db,
      .error e)
  | (db, .ok _) =>
    match db.head with
    | some h => (db, .ok h)
    | none => (db, .error ⟨.other, "no head"⟩)

def reset : ForkDatabase cr := { db with head := none, index := [] }

def startBlock : ForkDatabase cr :=
  let x := ⟨db.nextSerial, b⟩
  { db with
    nextSerial := db.nextSerial + 1
    index := insertItem cr db.index x
    head := some x }

def setHead : ForkDatabase cr := { db with head := some x }

def popBlock : Result (ForkDatabase cr) :=
  match db.head with
  | none => .error ⟨.assertException, "cannot pop an empty fork database"⟩
  | some h =>
    match db.parent pinned h with
    | none => .error ⟨.assertException, "popping head block would leave fork DB empty"⟩
    | some p => .ok (db.setHead p)

def remove : ForkDatabase cr :=
  { db with index := db.index.filter fun x => x.id cr ≠ id }

def setMaxSize (size : Nat) : ForkDatabase cr :=
  match db.head with
  | none => { db with maxSize := size }
  | some h => { db with
      maxSize := size
      index := db.index.filter fun x => h.num - size ≤ x.num
      unlinked := db.unlinked.filter fun x => h.num - size ≤ x.num }

def getParent : Result ForkItem :=
  match db.parent pinned x with
  | none => .error ⟨.assertException, "prev"⟩
  | some p => .ok p

def walkDown (num : Nat) : Nat → ForkItem → Result (List ForkItem × ForkItem)
  | 0, _ => .error ⟨.assertException, "prev"⟩
  | fuel + 1, x =>
    if num < x.num then do
      let p ← db.getParent [] x
      let r ← walkDown num fuel p
      pure (x :: r.1, r.2)
    else .ok ([], x)

def walkBoth : Nat → ForkItem → ForkItem → Result (List ForkItem × List ForkItem)
  | 0, _, _ => .error ⟨.assertException, "prev"⟩
  | fuel + 1, x, y =>
    if x.data.previous = y.data.previous then .ok ([x], [y])
    else do
      let p ← db.getParent [] x
      let q ← db.getParent [] y
      let r ← walkBoth fuel p q
      pure (x :: r.1, y :: r.2)

def getItem : Result ForkItem :=
  match findItem cr db.index id with
  | none => .error ⟨.assertException, "branch_itr != end"⟩
  | some x => .ok x

def fetchBranchFrom (first second : BlockId) : Result (List ForkItem × List ForkItem) := do
  let x ← db.getItem first
  let y ← db.getItem second
  let xs ← db.walkDown y.num (x.num + 1) x
  let ys ← db.walkDown xs.2.num (y.num + 1) y
  let r ← db.walkBoth (xs.2.num + 1) xs.2 ys.2
  pure (xs.1 ++ r.1, ys.1 ++ r.2)

def walkMainBranchToNum (pinned : List ForkItem) (num : Nat) : Nat → ForkItem → Option ForkItem
  | 0, _ => none
  | fuel + 1, x =>
    if num < x.num then (db.parent pinned x).bind (walkMainBranchToNum pinned num fuel) else some x

def fetchBlockOnMainBranchByNumber : Option ForkItem :=
  match db.head with
  | none => none
  | some h =>
    if h.num < num then none
    else match db.fetchBlockByNumber num with
      | [] => none
      | [x] => some x
      | _ => db.walkMainBranchToNum pinned num (h.num + 1) h

section Parents

variable {db} {pinned} {x} {p : ForkItem}

theorem parent_eq_some_iff : db.parent pinned x = some p ↔
    db.prev x = some p ∧ p ∈ db.index ++ db.unlinked ++ db.head.toList ++ pinned := by
  rw [parent, Option.filter_eq_some_iff, decide_eq_true_iff]

theorem num_of_prev (h : db.prev x = some p) (hpos : 0 < x.num) : x.num = p.num + 1 := by
  have hid : p.num = x.data.previous.num := congrArg BlockId.num (db.linked x p h)
  have hnum : x.num = (x.data.previous.num + 1) % 2 ^ 32 := rfl
  have hlt : p.num < 2 ^ 32 := Nat.mod_lt _ (by decide)
  omega

theorem getParent_ok_iff : db.getParent pinned x = .ok p ↔ db.parent pinned x = some p := by
  unfold getParent
  split <;> simp_all

end Parents

/-! ## What the branches are -/

section Branches

def Branch (l : List ForkItem) : Prop := l.IsChain fun x p => db.prev x = some p

def Holds (x : ForkItem) : Prop := x ∈ db.index ++ db.unlinked ++ db.head.toList

theorem popBlock_ok {db db' : ForkDatabase cr} {pinned : List ForkItem} (h : db.popBlock pinned = .ok db') :
    ∃ p, (db.Holds p ∨ p ∈ pinned) ∧ db' = db.setHead p := by
  unfold popBlock at h
  split at h
  · cases h
  · split at h
    · cases h
    · next p hp =>
      cases h
      exact ⟨p, mem_append.1 (parent_eq_some_iff.1 hp).2, rfl⟩

structure Branches (first second : BlockId) (xs ys : List ForkItem) : Prop where
  branch1 : db.Branch xs
  branch2 : db.Branch ys
  tip1 : ∃ x ∈ db.index, x.id cr = first ∧ xs.head? = some x
  tip2 : ∃ y ∈ db.index, y.id cr = second ∧ ys.head? = some y
  held : ∀ x ∈ xs ++ ys, db.Holds x
  point : ∃ x y, xs.getLast? = some x ∧ ys.getLast? = some y ∧ x.data.previous = y.data.previous
  length : second.num ≤ first.num → xs.length + second.num = ys.length + first.num

variable {db} {num} {fuel : Nat} {x} {y z : ForkItem} {xs ys : List ForkItem} {id}

theorem walkDown_ok (h : db.walkDown num fuel x = .ok (xs, z)) :
    db.Branch (xs ++ [z]) ∧ (xs ++ [z]).head? = some x ∧ (∀ y ∈ xs ++ [z], y = x ∨ db.Holds y) ∧
      x.num = z.num + xs.length ∧ z.num = min num x.num := by
  induction fuel generalizing x xs with
  | zero => cases h
  | succ fuel ih =>
    unfold walkDown at h
    split_ifs at h with hnum
    · obtain ⟨p, hp, h⟩ := of_bind h
      obtain ⟨⟨l, w⟩, hl, h⟩ := of_bind h
      cases h
      obtain ⟨hprev, hheld⟩ := parent_eq_some_iff.1 (getParent_ok_iff.1 hp)
      obtain ⟨hbranch, hhead, hmem, hlen, hmin⟩ := ih hl
      have hup := num_of_prev hprev (by omega)
      have hbelow : db.Holds p := by simpa [Holds] using hheld
      refine ⟨?_, rfl, ?_, ?_, ?_⟩
      · rw [Branch, cons_append, isChain_cons]
        refine ⟨fun q hq => ?_, hbranch⟩
        rw [hhead] at hq
        cases hq
        exact hprev
      · rintro q (⟨⟩ | ⟨_, hq⟩)
        · exact .inl rfl
        · rcases hmem q hq with rfl | hq
          · exact .inr hbelow
          · exact .inr hq
      · simp only [length_cons] at hlen ⊢
        omega
      · omega
    · cases h
      refine ⟨isChain_singleton _, rfl, ?_, rfl, by omega⟩
      intro q hq
      exact .inl (mem_singleton.1 hq)

theorem walkBoth_ok (h : db.walkBoth fuel x y = .ok (xs, ys)) :
    db.Branch xs ∧ db.Branch ys ∧ xs.head? = some x ∧ ys.head? = some y ∧
      (∀ z ∈ xs ++ ys, z = x ∨ z = y ∨ db.Holds z) ∧ xs.length = ys.length ∧
      ∃ x' y', xs.getLast? = some x' ∧ ys.getLast? = some y' ∧
        x'.data.previous = y'.data.previous := by
  induction fuel generalizing x y xs ys with
  | zero => cases h
  | succ fuel ih =>
    unfold walkBoth at h
    split_ifs at h with hsame
    · cases h
      refine ⟨isChain_singleton _, isChain_singleton _, rfl, rfl, ?_, rfl,
        x, y, rfl, rfl, hsame⟩
      intro z hz
      rcases mem_pair.1 hz with rfl | rfl
      · exact .inl rfl
      · exact .inr (.inl rfl)
    · simp only [bind_ok_iff] at h
      obtain ⟨p, hp, q, hq, ⟨l, m⟩, hr, h⟩ := h
      cases h
      obtain ⟨hprevx, hheldx⟩ := parent_eq_some_iff.1 (getParent_ok_iff.1 hp)
      obtain ⟨hprevy, hheldy⟩ := parent_eq_some_iff.1 (getParent_ok_iff.1 hq)
      obtain ⟨hbx, hby, hhx, hhy, hmem, hlen, x', y', hlx, hly, hpoint⟩ := ih hr
      refine ⟨?_, ?_, rfl, rfl, ?_, by simp [hlen], x', y', ?_, ?_, hpoint⟩
      · refine isChain_cons.2 ⟨fun w hw => ?_, hbx⟩
        rw [hhx] at hw
        cases hw
        exact hprevx
      · refine isChain_cons.2 ⟨fun w hw => ?_, hby⟩
        rw [hhy] at hw
        cases hw
        exact hprevy
      · intro z hz
        have hcases : z = x ∨ z = y ∨ z ∈ l ++ m := by
          simp only [mem_append, mem_cons] at hz ⊢
          tauto
        rcases hcases with rfl | rfl | hz
        · exact .inl rfl
        · exact .inr (.inl rfl)
        · rcases hmem z hz with rfl | rfl | hz
          · exact .inr (.inr (by simpa [Holds] using hheldx))
          · exact .inr (.inr (by simpa [Holds] using hheldy))
          · exact .inr (.inr hz)
      · rw [getLast?_cons, hlx]
        rfl
      · rw [getLast?_cons, hly]
        rfl

theorem getItem_ok (h : db.getItem id = .ok x) : x ∈ db.index ∧ x.id cr = id := by
  unfold getItem at h
  split at h
  · cases h
  · next hx =>
    cases h
    exact ⟨mem_of_find?_eq_some hx, id_of_findItem hx⟩

theorem Branch.append (hxs : db.Branch (xs ++ [z])) (hys : db.Branch ys)
    (hz : ys.head? = some z) : db.Branch (xs ++ ys) := by
  obtain ⟨l, rfl⟩ := head?_eq_some_iff.1 hz
  exact isChain_split.2 ⟨hxs, hys⟩

theorem Branch.pairwise (h : db.Branch (x :: xs)) (hlen : xs.length < x.num) :
    (x :: xs).Pairwise (fun a b => b.num < a.num) ∧ ∀ z ∈ x :: xs, x.num ≤ z.num + xs.length := by
  induction xs generalizing x with
  | nil => exact ⟨pairwise_singleton _ _, by simp⟩
  | cons p xs ih =>
    obtain ⟨hprev, hrest⟩ := isChain_cons_cons.1 h
    have hup := num_of_prev hprev (Nat.zero_lt_of_lt hlen)
    rw [length_cons] at hlen
    obtain ⟨hpair, hlow⟩ := ih hrest (by omega)
    refine ⟨pairwise_cons.2 ⟨?_, hpair⟩, ?_⟩
    · intro z hz
      rcases mem_cons.1 hz with rfl | hz
      · omega
      · have hz := (pairwise_cons.1 hpair).1 z hz
        omega
    · intro z hz
      rw [length_cons]
      rcases mem_cons.1 hz with rfl | hz
      · omega
      · have hz := hlow z hz
        omega

theorem length_le_of_pairwise (h : (x :: xs).Pairwise fun a b => b.num < a.num) : xs.length ≤ x.num := by
  induction xs generalizing x with
  | nil => exact Nat.zero_le _
  | cons y xs ih =>
    obtain ⟨hx, hrest⟩ := pairwise_cons.1 h
    have hy := hx y (.head _)
    have hlen := ih hrest
    rw [length_cons]
    omega

def BuildsOn (cr : Crypto) : BlockId → List ForkItem → Prop
  | _, [] => True
  | id, x :: xs => x.data.previous = id ∧ BuildsOn cr (x.id cr) xs

theorem BuildsOn.concat (h : BuildsOn cr id xs) (hlast : xs.getLast? = some z)
    (hx : x.data.previous = z.id cr) : BuildsOn cr id (xs ++ [x]) := by
  induction xs generalizing id with
  | nil => cases hlast
  | cons y xs ih =>
    refine ⟨h.1, ?_⟩
    cases xs with
    | nil =>
      cases hlast
      exact ⟨hx, trivial⟩
    | cons w xs => exact ih h.2 hlast

theorem Branch.buildsOn (h : db.Branch xs) (hlast : xs.getLast? = some z) :
    BuildsOn cr z.data.previous xs.reverse := by
  induction xs with
  | nil => cases hlast
  | cons x xs ih =>
    rw [reverse_cons]
    cases xs with
    | nil =>
      cases hlast
      exact ⟨rfl, trivial⟩
    | cons p xs =>
      obtain ⟨hprev, hrest⟩ := isChain_cons_cons.1 h
      exact (ih hrest hlast).concat (by simp) (db.linked x p hprev).symm

theorem fetchBranchFrom_ok {first second : BlockId}
    (h : db.fetchBranchFrom first second = .ok (xs, ys)) : db.Branches first second xs ys := by
  obtain ⟨x, hx, h⟩ := of_bind h
  obtain ⟨y, hy, h⟩ := of_bind h
  obtain ⟨⟨xs1, x1⟩, hxs, h⟩ := of_bind h
  obtain ⟨⟨ys1, y1⟩, hys, h⟩ := of_bind h
  obtain ⟨⟨xs2, ys2⟩, hboth, h⟩ := of_bind h
  cases h
  obtain ⟨hxmem, rfl⟩ := getItem_ok hx
  obtain ⟨hymem, rfl⟩ := getItem_ok hy
  obtain ⟨hbx1, hhx1, hheldx, hlenx, hminx⟩ := walkDown_ok hxs
  obtain ⟨hby1, hhy1, hheldy, hleny, hminy⟩ := walkDown_ok hys
  obtain ⟨hbx2, hby2, hhx2, hhy2, hheld, hlen, x', y', hlx, hly, hpoint⟩ := walkBoth_ok hboth
  have hxy (l : List ForkItem) (w : ForkItem) (m : List ForkItem) (hm : m.head? = some w) :
      (l ++ m).head? = (l ++ [w]).head? := by
    cases l <;> simp [hm]
  have holds_of_index {w : ForkItem} (hw : w ∈ db.index) : db.Holds w := by
    simp [Holds, hw]
  have hx1 : db.Holds x1 := by
    rcases hheldx x1 (by simp) with rfl | h
    · exact holds_of_index hxmem
    · exact h
  have hy1 : db.Holds y1 := by
    rcases hheldy y1 (by simp) with rfl | h
    · exact holds_of_index hymem
    · exact h
  refine ⟨hbx1.append hbx2 hhx2, hby1.append hby2 hhy2, ⟨x, hxmem, rfl, ?_⟩, ⟨y, hymem, rfl, ?_⟩,
    ?_, ⟨x', y', ?_, ?_, hpoint⟩, ?_⟩
  · rw [hxy xs1 x1 xs2 hhx2, hhx1]
  · rw [hxy ys1 y1 ys2 hhy2, hhy1]
  · intro z hz
    have hcases : z ∈ xs1 ∨ z ∈ ys1 ∨ z ∈ xs2 ++ ys2 := by
      simp only [mem_append] at hz ⊢
      tauto
    rcases hcases with hz | hz | hz
    · rcases hheldx z (by simp [hz]) with rfl | h
      · exact holds_of_index hxmem
      · exact h
    · rcases hheldy z (by simp [hz]) with rfl | h
      · exact holds_of_index hymem
      · exact h
    · rcases hheld z hz with rfl | rfl | h
      · exact hx1
      · exact hy1
      · exact h
  · rw [getLast?_append, hlx]
    rfl
  · rw [getLast?_append, hly]
    rfl
  · intro hle
    rw [ForkItem.id_num, ForkItem.id_num] at *
    simp only [length_append] at *
    omega

end Branches

/-! ## What a push does -/

section Push

variable {db db' : ForkDatabase cr} {x} {id} {l : List ForkItem}

theorem findItem_isSome_iff : (findItem cr l id).isSome ↔ ∃ x ∈ l, x.id cr = id := by
  simp [findItem, find?_isSome]

theorem mem_insertItem {y : ForkItem} (h : y ∈ insertItem cr l x) : y ∈ l ∨ y = x := by
  unfold insertItem at h
  split_ifs at h
  · exact .inl h
  · simpa using h

theorem insertItem_of_new (h : ∀ y ∈ l, y.id cr ≠ x.id cr) : insertItem cr l x = l ++ [x] := by
  have hnone : ¬(findItem cr l (x.id cr)).isSome := by
    rw [findItem_isSome_iff]
    rintro ⟨y, hy, hid⟩
    exact h y hy hid
  rw [insertItem, if_neg hnone]

structure Attached (db : ForkDatabase cr) (x : ForkItem) (db' : ForkDatabase cr) : Prop where
  index : db'.index = insertItem cr db.index x
  unlinked : db'.unlinked = db.unlinked
  nextSerial : db'.nextSerial = db.nextSerial
  head : db.head = none ∧ db'.head = some x ∨ ∃ t, db.head = some t ∧ 0 < x.num ∧
    (db'.head = some t ∨ db'.head = some x ∧ t.num < x.num)
  links : ∀ y p, db'.prev y = some p → db.prev y = some p ∨ y = x ∧ p ∈ db.index ∧ 0 < x.num
  parent : db.head = none ∨ x.data.previous = BlockId.zero ∨ ∃ p ∈ db.index, p.id cr = x.data.previous

theorem attach_ok (h : db.attach x = .ok db') : db.Attached x db' := by
  obtain ⟨db1, hlink, h⟩ := of_bind h
  cases h
  unfold linkItem at hlink
  split at hlink
  · next hhead =>
    cases hlink
    exact ⟨rfl, rfl, rfl, .inl ⟨hhead, by simp [insertLinked, hhead]⟩, fun y p hp => .inl hp, .inl hhead⟩
  · next t hhead =>
    obtain ⟨_, hnew, hlink⟩ := of_bind hlink
    have hpos : 0 < x.num := Nat.zero_lt_of_lt (of_ensure hnew)
    have htop : ∃ t, db.head = some t ∧ 0 < x.num ∧
        ((db.insertLinked x).head = some t ∨ (db.insertLinked x).head = some x ∧ t.num < x.num) := by
      refine ⟨t, hhead, hpos, ?_⟩
      unfold insertLinked
      simp only [hhead]
      split_ifs with hlt
      · exact .inr ⟨rfl, hlt⟩
      · exact .inl rfl
    split_ifs at hlink with hzero
    · cases hlink
      exact ⟨rfl, rfl, rfl, .inr htop, fun y p hp => .inl hp, .inr (.inl hzero)⟩
    · split at hlink
      · cases hlink
      · next q hq =>
        cases hlink
        have hmem : q ∈ db.index := mem_of_find?_eq_some hq
        refine ⟨rfl, rfl, rfl, .inr htop, fun y p hp => ?_, .inr (.inr ⟨q, hmem, id_of_findItem hq⟩)⟩
        change (if y = x then some q else db.prev y) = some p at hp
        split_ifs at hp with hy
        · cases hp
          exact .inr ⟨hy, hmem, hpos⟩
        · exact .inl hp

theorem attach_error {e : Exc} (h : db.attach x = .error e) : db.head ≠ none ∧
    (e.kind = .unlinkableBlock → 0 < x.num ∧ ¬∃ p ∈ db.index, p.id cr = x.data.previous) := by
  have hlink : db.linkItem x = .error e := by
    rcases bind_error_iff.1 h with hlink | ⟨_, _, hlink⟩
    · exact hlink
    · cases hlink
  unfold linkItem at hlink
  split at hlink
  · cases hlink
  · next t hhead =>
    refine ⟨by simp [hhead], fun hkind => ?_⟩
    rcases bind_error_iff.1 hlink with hold | ⟨_, hnew, hlink⟩
    · obtain ⟨-, rfl⟩ := ensure_error_iff.1 hold
      cases hkind
    · refine ⟨Nat.zero_lt_of_lt (of_ensure hnew), ?_⟩
      split_ifs at hlink
      · cases hlink
      · split at hlink
        · next hnone => rwa [← Option.not_isSome_iff_eq_none, findItem_isSome_iff] at hnone
        · cases hlink

section Attached

variable (h : db.Attached x db')
include h

theorem Attached.head_eq : db'.head = db.head ∨ db'.head = some x := by
  rcases h.head with ⟨-, hnew⟩ | ⟨t, hhead, -, hold | ⟨hnew, -⟩⟩
  · exact .inr hnew
  · exact .inl (hold.trans hhead.symm)
  · exact .inr hnew

theorem Attached.head_isSome : db'.head.isSome := by
  rcases h.head with ⟨-, hnew⟩ | ⟨t, -, -, hold | ⟨hnew, -⟩⟩ <;> simp [*]

theorem Attached.pos (hhead : db.head.isSome) : 0 < x.num := by
  rcases h.head with ⟨hnone, -⟩ | ⟨-, -, hpos, -⟩
  · simp [hnone] at hhead
  · exact hpos

theorem Attached.mem_index {y : ForkItem} (hy : y ∈ db'.index) : y ∈ db.index ∨ y = x :=
  mem_insertItem (h.index ▸ hy)

theorem Attached.subset : db.index ⊆ db'.index := by
  intro y hy
  rw [h.index, insertItem]
  split_ifs
  · exact hy
  · exact mem_append_left _ hy

theorem Attached.known : ∃ y ∈ db'.index, y.id cr = x.id cr := by
  rw [h.index, insertItem]
  split_ifs with hknown
  · exact findItem_isSome_iff.1 hknown
  · exact ⟨x, mem_append_right _ (mem_singleton_self x), rfl⟩

end Attached

variable {parents : List BlockId} {b} {fuel : Nat} {r : Result Unit}

theorem pushNext_invariant {P : ForkDatabase cr → List BlockId → Prop}
    (hdrop : ∀ db id parents, P db (id :: parents) → P db parents)
    (herase : ∀ db id parents y, y ∈ db.unlinked → P db (id :: parents) →
      P { db with unlinked := db.unlinked.erase y } (id :: parents))
    (hattach : ∀ db db' parents y, y ∈ db.unlinked → P db (y.data.previous :: parents) →
      Attached { db with unlinked := db.unlinked.erase y } y db' →
      P db' (y.id cr :: y.data.previous :: parents)) (h : P db parents)
    (hnext : pushNext fuel db parents = (db', r)) :
    ∃ parents', P db' parents' ∧
      ∀ e, r = .error e → ∃ y, y.data.previous ∈ parents' ∧ db'.attach y = .error e := by
  fun_induction pushNext fuel db parents with
  | case1 db parents =>
    cases hnext
    exact ⟨parents, h, nofun⟩
  | case2 db =>
    cases hnext
    exact ⟨[], h, nofun⟩
  | case3 fuel db id parents hnone ih => exact ih (hdrop _ _ _ h) hnext
  | case4 fuel db id parents y hy db1 db2 hok ih =>
    obtain rfl : y.data.previous = id := by simpa using find?_some hy
    exact ih (hattach _ _ _ y (mem_of_find?_eq_some hy) h (attach_ok hok)) hnext
  | case5 fuel db id parents y hy db1 e herror hassert ih =>
    exact ih (herase _ _ _ y (mem_of_find?_eq_some hy) h) hnext
  | case6 fuel db id parents y hy db1 e herror hassert =>
    obtain ⟨rfl, rfl⟩ : db1 = db' ∧ Except.error e = r := Prod.mk.inj hnext
    refine ⟨id :: parents, herase _ _ _ y (mem_of_find?_eq_some hy) h, fun e' he => ⟨y, ?_, ?_⟩⟩
    · rw [show y.data.previous = id by simpa using find?_some hy]
      exact .head _
    · cases he
      exact herror

theorem pushNext_head (hnext : pushNext fuel db parents = (db', r)) :
    db'.head = db.head ∨ ∃ y ∈ db.unlinked, db'.head = some y := by
  obtain ⟨-, ⟨-, h⟩, -⟩ := pushNext_invariant
    (P := fun d _ => d.unlinked ⊆ db.unlinked ∧ (d.head = db.head ∨ ∃ y ∈ db.unlinked, d.head = some y))
    (fun _ _ _ h => h) (fun d _ _ y _ h => ⟨fun z hz => h.1 (mem_of_mem_erase hz), h.2⟩)
    (fun d d' _ y hy h hd' => by
      refine ⟨fun z hz => h.1 (mem_of_mem_erase (hd'.unlinked ▸ hz)), ?_⟩
      rcases hd'.head_eq with hkept | hnew
      · rw [hkept]
        exact h.2
      · exact .inr ⟨y, h.1 hy, hnew⟩)
    ⟨List.Subset.refl _, .inl rfl⟩ hnext
  exact h

theorem pushNext_error {e : Exc} (hparents : ∀ id ∈ parents, ∃ p ∈ db.index, p.id cr = id)
    (hnext : pushNext fuel db parents = (db', .error e)) : e.kind ≠ .unlinkableBlock := by
  obtain ⟨parents', hparents', herror⟩ := pushNext_invariant
    (P := fun d parents => ∀ id ∈ parents, ∃ p ∈ d.index, p.id cr = id)
    (fun _ _ _ h id hid => h id (.tail _ hid)) (fun _ _ _ _ _ h => h)
    (fun d d' _ y _ h hd' id hid => by
      rcases mem_cons.1 hid with rfl | hid
      · exact hd'.known
      · obtain ⟨p, hp, hpid⟩ := h id hid
        exact ⟨p, hd'.subset hp, hpid⟩)
    hparents hnext
  obtain ⟨y, hy, hattach⟩ := herror e rfl
  exact fun hkind => ((attach_error hattach).2 hkind).2 (hparents' _ hy)

def newItem (db : ForkDatabase cr) (b : SignedBlock) : ForkItem := ⟨db.nextSerial, b⟩

def counted (db : ForkDatabase cr) : ForkDatabase cr := { db with nextSerial := db.nextSerial + 1 }

theorem pushBlock_cases {r : Result ForkItem} (hpush : db.pushBlock b = (db', r)) :
    (∃ e, db.counted.attach (db.newItem b) = .error e ∧ r = .error e ∧
      db' = if e.kind = .unlinkableBlock then
        { db.counted with unlinked := insertItem cr db.unlinked (db.newItem b) } else db.counted) ∨
    ∃ db1 r', db.counted.attach (db.newItem b) = .ok db1 ∧
      pushNext (2 * db1.unlinked.length + 2) db1 [(db.newItem b).id cr] = (db', r') ∧
      ∀ x, r = .ok x → r' = .ok () ∧ db'.head = some x := by
  unfold pushBlock pushItem at hpush
  dsimp only at hpush
  split at hpush
  · next db2 e hitem =>
    cases hpush
    split at hitem
    · next hattach =>
      cases hitem
      exact .inl ⟨e, hattach, rfl, rfl⟩
    · next db1 hattach =>
      -- A cached block that is found has its parent in the index.
      have hknown := (attach_ok hattach).known
      rw [if_neg (pushNext_error (fun id hid => (mem_singleton.1 hid) ▸ hknown) hitem)]
      exact .inr ⟨db1, _, hattach, hitem, fun x hx => by cases hx⟩
  · next db2 u hitem =>
    split at hitem
    · cases hitem
    · next db1 hattach =>
      have hsame {db3 : ForkDatabase cr} (h : db2 = db3) (hr : ∀ x, r = .ok x → db3.head = some x) :
          ∃ db1 r', db.counted.attach (db.newItem b) = .ok db1 ∧
            pushNext (2 * db1.unlinked.length + 2) db1 [(db.newItem b).id cr] = (db3, r') ∧
            ∀ x, r = .ok x → r' = .ok () ∧ db3.head = some x :=
        ⟨db1, .ok u, hattach, h ▸ hitem, fun x hx => ⟨rfl, hr x hx⟩⟩
      right
      split at hpush
      · next hhead =>
        obtain ⟨hdb, rfl⟩ := Prod.mk.inj hpush
        refine hsame hdb fun x hx => ?_
        cases hx
        exact hdb ▸ hhead
      · obtain ⟨hdb, rfl⟩ := Prod.mk.inj hpush
        exact hsame hdb fun x hx => by cases hx

theorem pushBlock_head (h : db.pushBlock b = (db', .ok x)) :
    db'.head = some x ∧ (db.head = some x ∨ x.data = b ∨ x ∈ db.unlinked) := by
  rcases pushBlock_cases h with ⟨e, -, hr, -⟩ | ⟨db1, r, hattach, hnext, hr⟩
  · cases hr
  · obtain ⟨-, htop⟩ := hr x rfl
    refine ⟨htop, ?_⟩
    have hattached := attach_ok hattach
    rcases pushNext_head hnext with hsame | ⟨z, hz, hhead⟩
    · rcases hattached.head_eq with hkept | hnew
      · exact .inl ((hsame.trans hkept).symm.trans htop)
      · cases htop.symm.trans (hsame.trans hnew)
        exact .inr (.inl rfl)
    · cases htop.symm.trans hhead
      exact .inr (.inr (hattached.unlinked ▸ hz))

theorem attach_of_zero {h : ForkItem} (hhead : db.head = some h) (hnum : h.num - db.maxSize < x.num)
    (hzero : x.data.previous = BlockId.zero) : db.attach x = .ok (db.insertLinked x) := by
  refine bind_ok_iff.2 ⟨db, ?_, rfl⟩
  unfold linkItem
  simp only [hhead]
  exact bind_ok (ensure_ok hnum) (if_pos hzero)

theorem attach_of_parent {h p : ForkItem} (hhead : db.head = some h) (hnum : h.num - db.maxSize < x.num)
    (hzero : x.data.previous ≠ BlockId.zero) (hp : findItem cr db.index x.data.previous = some p) :
    db.attach x = .ok ((db.setPrev x p (id_of_findItem hp)).insertLinked x) := by
  refine bind_ok_iff.2 ⟨db.setPrev x p (id_of_findItem hp), ?_, rfl⟩
  unfold linkItem
  simp only [hhead]
  refine bind_ok (ensure_ok hnum) ?_
  rw [if_neg hzero]
  split
  · next hnone => cases hnone.symm.trans hp
  · next q hq =>
    cases hq.symm.trans hp
    rfl

theorem pushBlock_child (hunlinked : db.unlinked = [])
    (hhead : db.head = none ∨ ∃ h ∈ db.index, db.head = some h ∧ h.id cr = b.previous)
    (hnew : ∀ x ∈ db.index, x.num < b.blockNum) :
    ∃ db', db.pushBlock b = (db', .ok ⟨db.nextSerial, b⟩) ∧
      db'.index = db.index ++ [⟨db.nextSerial, b⟩] ∧ db'.unlinked = [] ∧
      db'.head = some ⟨db.nextSerial, b⟩ := by
  let x := db.newItem b
  obtain ⟨f, hf, hattach⟩ : ∃ f hf, db.counted.attach x =
      .ok (({ db.counted with prev := f, linked := hf } : ForkDatabase cr).insertLinked x) := by
    rcases hhead with hnone | ⟨h, hmem, hsome, hid⟩
    · refine ⟨db.prev, db.linked, bind_ok_iff.2 ⟨db.counted, ?_, rfl⟩⟩
      simp only [linkItem, counted, hnone]
    · have hsome : db.counted.head = some h := hsome
      have hlt : h.num - db.maxSize < x.num := (Nat.sub_le _ _).trans_lt (hnew h hmem)
      by_cases hzero : b.previous = BlockId.zero
      · exact ⟨_, _, attach_of_zero hsome hlt hzero⟩
      · obtain ⟨p, hp⟩ := Option.isSome_iff_exists.1 (findItem_isSome_iff.2 ⟨h, hmem, hid⟩)
        exact ⟨_, _, attach_of_parent hsome hlt hzero hp⟩
  have hinsert : insertItem cr db.index x = db.index ++ [x] := by
    refine insertItem_of_new fun y hy hid => ?_
    have hnum : y.num = x.num := congrArg BlockId.num hid
    exact absurd (hnew y hy) (by rw [hnum]; exact lt_irrefl _)
  have htop : (match db.head with
      | none => some x
      | some h => if h.num < x.num then some x else some h) = some x := by
    rcases hhead with hnone | ⟨h, hmem, hsome, -⟩
    · rw [hnone]
    · rw [hsome]
      exact if_pos (hnew h hmem)
  generalize hdb1 : ({ db.counted with prev := f, linked := hf } : ForkDatabase cr).insertLinked x =
    db1 at hattach
  have hempty : db1.unlinked = [] := by
    rw [← hdb1]
    exact hunlinked
  have hhead1 : db1.head = some x := by
    rw [← hdb1]
    exact htop
  have hitem : db.counted.pushItem x = (db1, .ok ()) := by
    simp only [pushItem, hattach, pushNext, hempty, find?_nil]
  refine ⟨db1, ?_, ?_, hempty, hhead1⟩
  · unfold pushBlock
    change (match db.counted.pushItem x with
      | (db, .error e) => _
      | (db, .ok _) => _) = _
    simp only [hitem, hhead1]
    rfl
  · rw [← hdb1]
    exact hinsert

end Push

section Numbers

variable {db db' : ForkDatabase cr} {x} {e : Exc} {Q : ForkItem → Prop}

structure Sane (Q : ForkItem → Prop) (db : ForkDatabase cr) : Prop where
  links : ∀ x p, db.prev x = some p → 0 < x.num
  held : ∀ x, db.Holds x → Q x

theorem Sane.of_holds (hdb : db.Sane Q) (hprev : db'.prev = db.prev)
    (hheld : ∀ x, db'.Holds x → db.Holds x ∨ Q x) : db'.Sane Q where
  links := hprev ▸ hdb.links
  held x hx := (hheld x hx).elim (hdb.held x) id

theorem Attached.sane (h : db.Attached x db') (hdb : db.Sane Q) (hx : Q x) : db'.Sane Q := by
  refine ⟨fun y p hp => ?_, fun y hy => ?_⟩
  · rcases h.links y p hp with hp | ⟨rfl, -, hpos⟩
    · exact hdb.links y p hp
    · exact hpos
  · have hcases : db.Holds y ∨ y = x := by
      unfold Holds at hy ⊢
      rw [h.unlinked] at hy
      simp only [mem_append, Option.mem_toList] at hy ⊢
      rcases hy with (hy | hy) | hy
      · exact (h.mem_index hy).imp_left fun hy => .inl (.inl hy)
      · exact .inl (.inl (.inr hy))
      · rcases h.head_eq with hhead | hhead
        · exact .inl (.inr (hhead ▸ hy))
        · exact .inr (Option.some.inj (hy.symm.trans hhead))
    rcases hcases with hy | rfl
    · exact hdb.held y hy
    · exact hx

theorem erased (hdb : db.Sane Q) (y : ForkItem) :
    ({ db with unlinked := db.unlinked.erase y } : ForkDatabase cr).Sane Q := by
  refine hdb.of_holds rfl fun x hx => .inl ?_
  unfold Holds at *
  simp only [mem_append] at *
  exact hx.imp_left fun hx => hx.imp_right mem_of_mem_erase

theorem pushNext_sane {fuel : Nat} {parents : List BlockId} {r : Result Unit} (hdb : db.Sane Q)
    (hhead : db.head.isSome) (hnext : pushNext fuel db parents = (db', r)) :
    db'.Sane Q ∧ db'.head.isSome := by
  obtain ⟨-, h, -⟩ := pushNext_invariant (P := fun d _ => d.Sane Q ∧ d.head.isSome) (fun _ _ _ h => h)
    (fun _ _ _ y _ h => ⟨erased h.1 y, h.2⟩)
    (fun d _ _ y hy h hd' => by
      have hQ : Q y := h.1.held y (by simp [Holds, hy])
      exact ⟨hd'.sane (erased h.1 y) hQ, hd'.head_isSome⟩)
    ⟨hdb, hhead⟩ hnext
  exact h

theorem pushBlock_sane {b : SignedBlock} {r : Result ForkItem} (hdb : db.Sane Q)
    (hb : (db.head.isSome → 0 < b.blockNum) → Q ⟨db.nextSerial, b⟩) (h : db.pushBlock b = (db', r)) :
    db'.Sane Q ∧ (db.head.isSome → db'.head.isSome) := by
  have hdb0 : db.counted.Sane Q := ⟨hdb.links, hdb.held⟩
  rcases pushBlock_cases h with ⟨e, hattach, -, rfl⟩ | ⟨db1, r', hattach, hnext, -⟩
  · split_ifs with hkind
    · refine ⟨hdb0.of_holds rfl fun y hy => ?_, id⟩
      unfold Holds at *
      simp only [mem_append] at *
      rcases hy with (hy | hy) | hy
      · exact .inl (.inl (.inl hy))
      · rcases mem_insertItem hy with hy | rfl
        · exact .inl (.inl (.inr hy))
        · exact .inr (hb fun _ => ((attach_error hattach).2 hkind).1)
      · exact .inl (.inr hy)
    · exact ⟨hdb0, id⟩
  · have hattached := attach_ok hattach
    obtain ⟨h', hhead'⟩ := pushNext_sane (hattached.sane hdb0 (hb fun hhead => hattached.pos hhead))
      hattached.head_isSome hnext
    exact ⟨h', fun _ => hhead'⟩

end Numbers

section Known

variable {db} {id} {id' : BlockId} {x} {h : ForkItem} {num} {size : Nat} {pinned}

theorem id_of_fetchBlock (hx : db.fetchBlock id = some x) : x.id cr = id := by
  rcases Option.or_eq_some_iff.1 hx with hx | ⟨-, hx⟩ <;> exact id_of_findItem hx

theorem holds_of_fetchBlock (hx : db.fetchBlock id = some x) : db.Holds x := by
  refine mem_append_left _ ?_
  rcases Option.or_eq_some_iff.1 hx with hx | ⟨-, hx⟩
  · exact mem_append_left _ (mem_of_find?_eq_some hx)
  · exact mem_append_right _ (mem_of_find?_eq_some hx)

def Knows (db : ForkDatabase cr) (id : BlockId) : Prop := ∃ x ∈ db.index ++ db.unlinked, x.id cr = id

theorem fetchBlock_isSome_iff : (db.fetchBlock id).isSome ↔ db.Knows id := by
  rw [fetchBlock, Option.isSome_or, Bool.or_eq_true, findItem_isSome_iff, findItem_isSome_iff]
  simp only [Knows, mem_append, or_and_right, exists_or]

@[simp] theorem setMaxSize_head : (db.setMaxSize size).head = db.head := by
  unfold setMaxSize
  split <;> rfl

@[simp] theorem setMaxSize_prev : (db.setMaxSize size).prev = db.prev := by
  unfold setMaxSize
  split <;> rfl

theorem mem_setMaxSize_index (hhead : db.head = some h) :
    x ∈ (db.setMaxSize size).index ↔ x ∈ db.index ∧ h.num - size ≤ x.num := by
  rw [ForkDatabase.setMaxSize, hhead]
  simp only [mem_filter, decide_eq_true_iff]

theorem setMaxSize_unlinked (hunlinked : db.unlinked = []) : (db.setMaxSize size).unlinked = [] := by
  unfold ForkDatabase.setMaxSize
  split
  · exact hunlinked
  · rw [hunlinked]
    rfl

theorem fetchBlockByNumber_setMaxSize (hhead : db.head = some h) (hnum : h.num - size ≤ num) :
    (db.setMaxSize size).fetchBlockByNumber num = db.fetchBlockByNumber num := by
  rw [fetchBlockByNumber, fetchBlockByNumber, ForkDatabase.setMaxSize, hhead, filter_filter]
  refine filter_congr fun y _ => ?_
  by_cases hy : y.num = num
  · simp only [hy, hnum, decide_true, Bool.and_self]
  · simp only [hy, decide_false, Bool.false_and]

theorem Knows.setMaxSize (hid : db.Knows id) (hhead : db.head = some h)
    (hnum : h.num - size ≤ id.num) : (db.setMaxSize size).Knows id := by
  obtain ⟨x, hx, rfl⟩ := hid
  refine ⟨x, ?_, rfl⟩
  have hkept : h.num ≤ x.num + size := Nat.sub_le_iff_le_add.1 hnum
  rw [ForkDatabase.setMaxSize, hhead]
  simpa [hkept] using hx

theorem Knows.remove (hid : db.Knows id) (hne : id ≠ id') : (db.remove id').Knows id := by
  obtain ⟨x, hx, rfl⟩ := hid
  refine ⟨x, ?_, rfl⟩
  simpa [ForkDatabase.remove, hne] using hx

theorem walkMainBranchToNum_num {fuel : Nat} (hle : num ≤ x.num)
    (hx : db.walkMainBranchToNum pinned num fuel x = some h) : h.num = num := by
  induction fuel generalizing x with
  | zero => cases hx
  | succ fuel ih =>
    unfold walkMainBranchToNum at hx
    split_ifs at hx with hlt
    · obtain ⟨p, hp, hx⟩ := Option.bind_eq_some_iff.1 hx
      have hup := num_of_prev (parent_eq_some_iff.1 hp).1 (by omega)
      exact ih (by omega) hx
    · cases hx
      omega

theorem fetchBlockOnMainBranchByNumber_num
    (hx : db.fetchBlockOnMainBranchByNumber pinned num = some x) : x.num = num := by
  unfold fetchBlockOnMainBranchByNumber at hx
  split at hx
  · cases hx
  · next h _ =>
    split_ifs at hx with hlt
    split at hx
    · cases hx
    · next y hy =>
      cases hx
      have hmem : x ∈ db.fetchBlockByNumber num := by rw [hy]; exact mem_singleton_self x
      simpa using (mem_filter.1 hmem).2
    · exact walkMainBranchToNum_num (by omega) hx

end Known

end ForkDatabase

end Xgt
