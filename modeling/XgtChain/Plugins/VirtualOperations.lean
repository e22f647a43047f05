import Mathlib.Data.Nat.Bitwise
import Mathlib.Data.Prod.Lex
import XgtChain.Base.Ordered
import XgtChain.Plugins.WalletHistory

/-!
# The enumeration of virtual operations

The store keeps the operations by their id, and by block and id; the top bit of the id says virtual.
-/

namespace Xgt

open Base FlatMap List Prod

def virtualOpFlag : Nat := 0x8000000000000000

abbrev BlockOpIdPair : Type := Nat ×ₗ Nat

structure OperationColumns where
  operationById : FlatMap Nat StoredOperation
  operationByBlock : FlatMap BlockOpIdPair Nat
  operationSeqId : Nat

def encodedId (id : Nat) (obj : StoredOperation) : Nat :=
  if obj.virtualOp > 0 then id ||| virtualOpFlag else id

namespace OperationColumns

variable (c : OperationColumns)

def empty : OperationColumns := ⟨.empty, .empty, 0⟩

def importOperation (obj : StoredOperation) : OperationColumns where
  operationById := c.operationById.set c.operationSeqId obj
  operationByBlock := c.operationByBlock.set (toLex
    (obj.block, encodedId c.operationSeqId obj)) c.operationSeqId
  operationSeqId := c.operationSeqId + 1

def findOperationObject (opId : Nat) : Option StoredOperation := c.operationById.find? opId

def isVirtualKey (key : BlockOpIdPair) : Bool := (ofLex key).2 &&& virtualOpFlag ≠ 0

def scanVirtual : List (BlockOpIdPair × Nat) → List StoredOperation × Nat → Result (List StoredOperation × Nat)
  | [], found => pure found
  | e :: rest, found =>
    if isVirtualKey e.1 then
      match c.findOperationObject e.2 with
      | some op => scanVirtual rest (found.1 ++ [op], op.block)
      | none => .error ⟨.assertException, "found"⟩
    else
      scanVirtual rest found

def enumVirtualOperationsFromBlockRange (blockRangeBegin blockRangeEnd : UInt32) :
    Result (List StoredOperation × Nat) := do
  fcAssert (blockRangeEnd > blockRangeBegin) "Block range must be upward"
  let upperBoundSlice : BlockOpIdPair := toLex (blockRangeEnd.toNat, 0)
  let rangeBeginSlice : BlockOpIdPair := toLex (blockRangeBegin.toNat, 0)
  let (ops, lastFoundBlock) ← c.scanVirtual (c.operationByBlock.between rangeBeginSlice upperBoundSlice) ([], 0)
  let nextRangeBeginSlice : BlockOpIdPair := toLex ((lastFoundBlock + 1) % 2 ^ 32, 0)
  match (c.operationByBlock.rest nextRangeBeginSlice).find? (fun e => isVirtualKey e.1) with
  | some e => pure (ops, (ofLex e.1).1)
  | none => pure (ops, 0)

end OperationColumns

open OperationColumns

/-! ## What the columns hold -/

section Encoded

variable {i : Nat} {o : StoredOperation}

theorem encodedId_eq (hi : i < 2 ^ 63) : encodedId i o = (if o.virtualOp > 0 then 2 ^ 63 else 0) + i := by
  unfold encodedId
  split_ifs
  · have hor := Nat.two_pow_add_eq_or_of_lt hi 1
    rw [Nat.mul_one, Nat.or_comm] at hor
    exact hor.symm
  · rw [Nat.zero_add]

theorem isVirtualKey_encodedId (n : Nat) (hi : i < 2 ^ 63) :
    isVirtualKey (toLex (n, encodedId i o)) = decide (0 < o.virtualOp) := by
  have hbit : encodedId i o &&& 2 ^ 63 = ((encodedId i o).testBit 63).toNat * 2 ^ 63 := Nat.and_two_pow _ _
  rw [encodedId_eq hi] at hbit
  unfold isVirtualKey
  rw [ofLex_toLex, show virtualOpFlag = 2 ^ 63 from rfl, encodedId_eq hi, hbit, decide_eq_decide]
  split_ifs with hvirtual
  · rw [Nat.testBit_two_pow_add_eq, Nat.testBit_lt_two_pow hi]
    exact iff_of_true (by decide) hvirtual
  · rw [Nat.zero_add, Nat.testBit_lt_two_pow hi]
    exact iff_of_false (by decide) hvirtual

theorem encodedId_inj {j : Nat} {o' : StoredOperation} (hi : i < 2 ^ 63) (hj : j < 2 ^ 63)
    (h : encodedId i o = encodedId j o') : i = j := by
  rw [encodedId_eq hi, encodedId_eq hj] at h
  split_ifs at h <;> omega

end Encoded

structure OperationStore where
  ops : List StoredOperation
  ids : ops.length ≤ 2 ^ 63
  blocks : ∀ o ∈ ops, o.block < 2 ^ 32

namespace OperationStore

def columns (s : OperationStore) : OperationColumns := s.ops.foldl importOperation .empty

theorem foldl_importOperation (ops : List StoredOperation) (h : ops.length ≤ 2 ^ 63) :
    let c := ops.foldl OperationColumns.importOperation .empty
    c.operationSeqId = ops.length ∧ (∀ i, c.operationById.find? i = ops[i]?) ∧
      ∀ k i, c.operationByBlock.find? k = some i ↔
        ∃ o, ops[i]? = some o ∧ k = toLex (o.block, encodedId i o) := by
  induction ops using List.reverseRecOn with
  | nil => exact ⟨rfl, fun i => rfl, fun k i => by simp [OperationColumns.empty]⟩
  | append_singleton ops o ih =>
    rw [List.length_append, List.length_singleton] at h
    obtain ⟨hseq, hid, hblock⟩ := ih (by omega)
    rw [foldl_append, foldl_cons, foldl_nil]
    refine ⟨?_, fun i => ?_, fun k i => ?_⟩
    · rw [OperationColumns.importOperation, hseq, List.length_append, List.length_singleton]
    · rw [OperationColumns.importOperation, hseq, find?_set, hid, getElem?_append]
      split_ifs with hi hlt hlt
      · omega
      · rw [hi, Nat.sub_self]
        rfl
      · rfl
      · rw [getElem?_eq_none (by omega), getElem?_eq_none (by simp; omega)]
    · rw [OperationColumns.importOperation, hseq, find?_set]
      split_ifs with hk
      · -- the id of the new operation is in no key yet
        subst hk
        rw [Option.some_inj]
        constructor
        · rintro rfl
          exact ⟨o, getElem?_concat_length, rfl⟩
        · rintro ⟨o', ho', hkey⟩
          have hi : i < (ops ++ [o]).length := (List.getElem?_eq_some_iff.1 ho').1
          rw [List.length_append, List.length_singleton] at hi
          have henc : encodedId ops.length o = encodedId i o' := congrArg snd (toLex.injective hkey)
          exact encodedId_inj (by omega) (by omega) henc
      · rw [hblock]
        refine exists_congr fun o' => and_congr_left fun hkey => ?_
        rw [getElem?_append]
        split_ifs with hlt
        · rfl
        · refine iff_of_false (by rw [getElem?_eq_none (by omega)]; nofun) fun ho' => hk ?_
          obtain rfl := List.mem_singleton.1 (List.mem_of_getElem? ho')
          have hi : i - ops.length < [o'].length := (List.getElem?_eq_some_iff.1 ho').1
          obtain rfl : i = ops.length := by rw [List.length_singleton] at hi; omega
          exact hkey

variable (s : OperationStore) (ops : List StoredOperation) (n : Nat)

theorem findOperationObject_eq (i : Nat) : s.columns.findOperationObject i = s.ops[i]? :=
  (foldl_importOperation s.ops s.ids).2.1 i

theorem mem_operationByBlock {e : BlockOpIdPair × Nat} :
    e ∈ s.columns.operationByBlock.entries ↔
      ∃ o, s.ops[e.2]? = some o ∧ e.1 = toLex (o.block, encodedId e.2 o) := by
  rw [← (foldl_importOperation s.ops s.ids).2.2 e.1 e.2]
  exact find?_eq_some_iff.symm

theorem id_lt {i : Nat} {o : StoredOperation} (h : s.ops[i]? = some o) : i < 2 ^ 63 :=
  (List.getElem?_eq_some_iff.1 h).1.trans_le s.ids

/-! ## What should be reported -/

def virtualIn : List StoredOperation :=
  ops.filter fun o => 0 < o.virtualOp ∧ o.block = n

def virtualOperations (first stop : Nat) : List StoredOperation :=
  (List.range' first (stop - first)).flatMap (virtualIn ops)

def firstVirtualBlock : Nat :=
  (((ops.filter fun o => 0 < o.virtualOp ∧ n ≤ o.block).map (·.block)).min?).getD 0

section Spec

variable {ops} {n} {first stop m : Nat} {o : StoredOperation}

theorem mem_virtualIn : o ∈ virtualIn ops n ↔ o ∈ ops ∧ 0 < o.virtualOp ∧ o.block = n := by
  rw [virtualIn, mem_filter, decide_eq_true_iff]

theorem mem_virtualOperations :
    o ∈ virtualOperations ops first stop ↔ o ∈ ops ∧ 0 < o.virtualOp ∧ first ≤ o.block ∧ o.block < stop := by
  rw [virtualOperations, mem_flatMap]
  constructor
  · rintro ⟨n, hn, ho⟩
    obtain ⟨hmem, hvirtual, rfl⟩ := mem_virtualIn.1 ho
    rw [mem_range'_1] at hn
    exact ⟨hmem, hvirtual, by omega⟩
  · rintro ⟨hmem, hvirtual, hfirst, hstop⟩
    exact ⟨o.block, mem_range'_1.2 (by omega), mem_virtualIn.2 ⟨hmem, hvirtual, rfl⟩⟩

theorem pairwise_virtualOperations (ops : List StoredOperation) (first stop : Nat) :
    (virtualOperations ops first stop).Pairwise fun a b => a.block ≤ b.block := by
  refine pairwise_flatMap.2 ⟨fun n _ => ?_, ?_⟩
  · refine pairwise_of_forall_mem_list fun a ha b hb => ?_
    rw [(mem_virtualIn.1 ha).2.2, (mem_virtualIn.1 hb).2.2]
  · refine (pairwise_lt_range').imp fun hlt a ha b hb => ?_
    rw [(mem_virtualIn.1 ha).2.2, (mem_virtualIn.1 hb).2.2]
    exact hlt.le

theorem virtualOperations_eq_nil_iff :
    virtualOperations ops first stop = [] ↔ ∀ o ∈ ops, 0 < o.virtualOp → first ≤ o.block → stop ≤ o.block := by
  simp only [eq_nil_iff_forall_not_mem, mem_virtualOperations, not_and, not_lt]

theorem virtualOperations_append {next last : Nat} (hfirst : first ≤ stop) (hnext : stop ≤ next)
    (hlast : next ≤ last)
    (hgap : ∀ o ∈ ops, 0 < o.virtualOp → stop ≤ o.block → next ≤ o.block) :
    virtualOperations ops first stop ++ virtualOperations ops next last = virtualOperations ops first last := by
  have hnone : virtualOperations ops stop next = [] := virtualOperations_eq_nil_iff.2 hgap
  have hsplit (a b c : Nat) (hab : a ≤ b) (hbc : b ≤ c) :
      virtualOperations ops a b ++ virtualOperations ops b c = virtualOperations ops a c := by
    have hrange := @range'_append_1 a (b - a) (c - b)
    rw [show a + (b - a) = b by omega, show b - a + (c - b) = c - a by omega] at hrange
    rw [virtualOperations, virtualOperations, ← flatMap_append, hrange, virtualOperations]
  rw [← hsplit first next last (by omega) hlast, ← hsplit first stop next hfirst hnext, hnone, append_nil]

theorem firstVirtualBlock_of_least (hmem : o ∈ ops) (hvirtual : 0 < o.virtualOp) (hn : n ≤ o.block)
    (hleast : ∀ o' ∈ ops, 0 < o'.virtualOp → n ≤ o'.block → o.block ≤ o'.block) :
    firstVirtualBlock ops n = o.block := by
  have hmin : ((ops.filter fun o => 0 < o.virtualOp ∧ n ≤ o.block).map (·.block)).min? = some o.block := by
    refine min?_eq_some_iff.2 ⟨mem_map.2 ⟨o, ?_, rfl⟩, fun b hb => ?_⟩
    · exact mem_filter.2 ⟨hmem, decide_eq_true ⟨hvirtual, hn⟩⟩
    · obtain ⟨o', ho', rfl⟩ := mem_map.1 hb
      obtain ⟨hmem', htest⟩ := mem_filter.1 ho'
      obtain ⟨hvirtual', hn'⟩ := of_decide_eq_true htest
      exact hleast o' hmem' hvirtual' hn'
  rw [firstVirtualBlock, hmin, Option.getD_some]

theorem firstVirtualBlock_of_none (h : ∀ o ∈ ops, 0 < o.virtualOp →
    o.block < n) : firstVirtualBlock ops n = 0 := by
  have hnone : (ops.filter fun o => 0 < o.virtualOp ∧ n ≤ o.block) = [] := by
    refine filter_eq_nil_iff.2 fun o ho htest => ?_
    obtain ⟨hvirtual, hn⟩ := of_decide_eq_true htest
    exact absurd (h o ho hvirtual) (not_lt.2 hn)
  rw [firstVirtualBlock, hnone]
  rfl

theorem firstVirtualBlock_cases (ops : List StoredOperation) (n : Nat) :
    (firstVirtualBlock ops n = 0 ∧ ∀ o ∈ ops, 0 < o.virtualOp → o.block < n) ∨
      ∃ o ∈ ops, 0 < o.virtualOp ∧ n ≤ o.block ∧ firstVirtualBlock ops n = o.block ∧
        ∀ o' ∈ ops, 0 < o'.virtualOp → n ≤ o'.block → o.block ≤ o'.block := by
  have hmem {o : StoredOperation} :
      o ∈ (ops.filter fun o => 0 < o.virtualOp ∧ n ≤ o.block) ↔ o ∈ ops ∧ 0 < o.virtualOp ∧ n ≤ o.block := by
    rw [mem_filter, decide_eq_true_iff]
  cases hmin : ((ops.filter fun o => 0 < o.virtualOp ∧ n ≤ o.block).map (·.block)).min? with
  | none =>
    refine .inl ⟨by rw [firstVirtualBlock, hmin, Option.getD_none], fun o ho hvirtual => not_le.1 fun hn => ?_⟩
    have hnil := map_eq_nil_iff.1 (min?_eq_none_iff.1 hmin)
    exact eq_nil_iff_forall_not_mem.1 hnil o (hmem.2 ⟨ho, hvirtual, hn⟩)
  | some b =>
    obtain ⟨hb, hle⟩ := min?_eq_some_iff.1 hmin
    obtain ⟨o, ho, rfl⟩ := mem_map.1 hb
    obtain ⟨ho, hvirtual, hn⟩ := hmem.1 ho
    refine .inr ⟨o, ho, hvirtual, hn, by rw [firstVirtualBlock, hmin, Option.getD_some],
      fun o' ho' hvirtual' hn' => ?_⟩
    exact hle _ (mem_map.2 ⟨o', hmem.2 ⟨ho', hvirtual', hn'⟩, rfl⟩)

theorem firstVirtualBlock_congr (h : ∀ o ∈ ops, 0 < o.virtualOp → (n ≤ o.block ↔ m ≤ o.block)) :
    firstVirtualBlock ops n = firstVirtualBlock ops m := by
  have hfilter : (ops.filter fun o => 0 < o.virtualOp ∧ n ≤ o.block) =
      ops.filter fun o => 0 < o.virtualOp ∧ m ≤ o.block :=
    filter_congr fun o ho => decide_eq_decide.2 (and_congr_right (h o ho))
  rw [firstVirtualBlock, hfilter, firstVirtualBlock]

end Spec

/-! ## The first loop -/

variable (l : List (BlockOpIdPair × Nat))

def hits : List StoredOperation :=
  (l.filter fun e => isVirtualKey e.1).filterMap fun e => s.ops[e.2]?

theorem scanVirtual_eq (found : List StoredOperation × Nat)
    (hl : ∀ e ∈ l, e ∈ s.columns.operationByBlock.entries) :
    s.columns.scanVirtual l found =
      .ok (found.1 ++ s.hits l, ((s.hits l).getLast?.map (·.block)).getD found.2) := by
  induction l generalizing found with
  | nil => simp [scanVirtual, hits, pure, Except.pure]
  | cons e l ih =>
    have hrest : ∀ e ∈ l, e ∈ s.columns.operationByBlock.entries := fun e he => hl e (.tail _ he)
    obtain ⟨o, ho, -⟩ := s.mem_operationByBlock.1 (hl e (.head _))
    by_cases hvirtual : isVirtualKey e.1
    · have hhits : s.hits (e :: l) = o :: s.hits l := by
        rw [hits, filter_cons, if_pos hvirtual, filterMap_cons, ho, hits]
      rw [scanVirtual, if_pos hvirtual, s.findOperationObject_eq, ho, hhits, getLast?_cons]
      dsimp only
      rw [ih _ hrest, append_assoc, singleton_append]
      cases (s.hits l).getLast? <;> rfl
    · have hhits : s.hits (e :: l) = s.hits l := by rw [hits, filter_cons, if_neg hvirtual, hits]
      rw [scanVirtual, if_neg hvirtual, ih _ hrest, hhits]

def virtualEntries (first stop : Nat) : List (BlockOpIdPair × Nat) :=
  (List.range' first (stop - first)).flatMap fun n =>
    (s.ops.zipIdx.filter fun x => 0 < x.1.virtualOp ∧ x.1.block = n).map
      fun x => (toLex (x.1.block, encodedId x.2 x.1), x.2)

variable {first stop : Nat}

theorem mem_virtualEntries {e : BlockOpIdPair × Nat} :
    e ∈ s.virtualEntries first stop ↔ ∃ o, s.ops[e.2]? = some o ∧ e.1 = toLex (o.block, encodedId e.2 o) ∧
      0 < o.virtualOp ∧ first ≤ o.block ∧ o.block < stop := by
  simp only [virtualEntries, mem_flatMap, mem_range'_1, mem_map, mem_filter,
    decide_eq_true_iff]
  constructor
  · rintro ⟨n, hn, ⟨o, i⟩, ⟨hmem, hvirtual, hblock⟩, rfl⟩
    dsimp only at hvirtual hblock
    exact ⟨o, mem_zipIdx_iff_getElem?.1 hmem, rfl, hvirtual, by omega⟩
  · rintro ⟨o, ho, hkey, hvirtual, hfirst, hstop⟩
    exact ⟨o.block, by omega, (o, e.2), ⟨mem_zipIdx_iff_getElem?.2 ho, hvirtual, rfl⟩,
      Prod.ext hkey.symm rfl⟩

theorem pairwise_virtualEntries (first stop : Nat) :
    (s.virtualEntries first stop).Pairwise fun a b => a.1 < b.1 := by
  refine pairwise_flatMap.2 ⟨fun n _ => pairwise_map.2 ?_, ?_⟩
  · -- one block: the flag is the same, so the ids decide
    have hids : s.ops.zipIdx.Pairwise fun x y => x.2 < y.2 := by
      rw [← pairwise_map, zipIdx_map_snd]
      exact pairwise_lt_range'
    refine (hids.filter _).imp_of_mem fun {x y} hx hy hlt => ?_
    obtain ⟨hx, hxtest⟩ := mem_filter.1 hx
    obtain ⟨hy, hytest⟩ := mem_filter.1 hy
    obtain ⟨hxvirtual, hxblock⟩ := of_decide_eq_true hxtest
    obtain ⟨hyvirtual, hyblock⟩ := of_decide_eq_true hytest
    have hxid := s.id_lt (mem_zipIdx_iff_getElem?.1 hx)
    have hyid := s.id_lt (mem_zipIdx_iff_getElem?.1 hy)
    refine Lex.toLex_lt_toLex.2 (.inr ⟨hxblock.trans hyblock.symm, ?_⟩)
    rw [encodedId_eq hxid, encodedId_eq hyid, if_pos hxvirtual, if_pos hyvirtual]
    exact Nat.add_lt_add_left hlt _
  · have hblocks : (List.range' first (stop - first)).Pairwise (· < ·) := pairwise_lt_range'
    refine hblocks.imp fun {n m} hlt a ha b hb => ?_
    obtain ⟨x, hx, rfl⟩ := mem_map.1 ha
    obtain ⟨y, hy, rfl⟩ := mem_map.1 hb
    obtain ⟨-, hxblock⟩ := of_decide_eq_true (mem_filter.1 hx).2
    obtain ⟨-, hyblock⟩ := of_decide_eq_true (mem_filter.1 hy).2
    exact Lex.toLex_lt_toLex.2 (.inl (by rw [hxblock, hyblock]; exact hlt))

theorem filter_between (first stop : Nat) :
    ((s.columns.operationByBlock.between (toLex (first, 0)) (toLex (stop, 0))).filter
      fun e => isVirtualKey e.1) = s.virtualEntries first stop := by
  refine eq_of_sorted ((pairwise_rest.sublist (takeWhile_sublist _)).filter _)
    (s.pairwise_virtualEntries first stop) fun e => ?_
  rw [mem_filter, mem_between, mem_operationByBlock, mem_virtualEntries]
  constructor
  · rintro ⟨⟨⟨o, ho, hkey⟩, hfirst, hstop⟩, hvirtual⟩
    rw [hkey] at hfirst hstop hvirtual
    rw [isVirtualKey_encodedId _ (s.id_lt ho), decide_eq_true_iff] at hvirtual
    rw [Lex.toLex_le_toLex] at hfirst
    rw [Lex.toLex_lt_toLex] at hstop
    refine ⟨o, ho, hkey, hvirtual, ?_, ?_⟩ <;> simp at hfirst hstop <;> omega
  · rintro ⟨o, ho, hkey, hvirtual, hfirst, hstop⟩
    rw [hkey]
    refine ⟨⟨⟨o, ho, rfl⟩, ?_, ?_⟩, ?_⟩
    · rw [Lex.toLex_le_toLex]
      simp
      omega
    · rw [Lex.toLex_lt_toLex]
      simp
      omega
    · rw [isVirtualKey_encodedId _ (s.id_lt ho), decide_eq_true_iff]
      exact hvirtual

theorem hits_between (first stop : Nat) :
    s.hits (s.columns.operationByBlock.between (toLex (first, 0)) (toLex (stop, 0))) =
      virtualOperations s.ops first stop := by
  rw [hits, filter_between, virtualEntries, filterMap_flatMap, virtualOperations]
  congr 1
  funext n
  have hfind : ∀ x ∈ s.ops.zipIdx.filter (fun x => 0 < x.1.virtualOp ∧ x.1.block = n), s.ops[x.2]? = some x.1 :=
    fun x hx => mem_zipIdx_iff_getElem?.1 (mem_filter.1 hx).1
  have hfst : (s.ops.zipIdx.filter fun x => 0 < x.1.virtualOp ∧ x.1.block = n).map fst = virtualIn s.ops n := by
    conv_rhs => rw [virtualIn, ← zipIdx_map_fst 0 s.ops, filter_map]
    rfl
  rw [filterMap_map, ← hfst]
  exact (filterMap_congr hfind).trans (congrFun filterMap_eq_map _)

theorem find?_rest (n : Nat) :
    (((s.columns.operationByBlock.rest (toLex (n, 0))).find? fun e => isVirtualKey e.1).map
      fun e => (ofLex e.1).1).getD 0 = firstVirtualBlock s.ops n := by
  have hmem {i : Nat} {o : StoredOperation} (ho : s.ops[i]? = some o) (hn : n ≤ o.block) :
      (toLex (o.block, encodedId i o), i) ∈ s.columns.operationByBlock.rest (toLex (n, 0)) :=
    mem_rest.2 ⟨s.mem_operationByBlock.2 ⟨o, ho, rfl⟩,
      Lex.toLex_le_toLex.2 (hn.lt_or_eq.imp id fun h => ⟨h, Nat.zero_le _⟩)⟩
  have hflag {i : Nat} {o : StoredOperation} (ho : s.ops[i]? = some o) (hvirtual : 0 < o.virtualOp) :
      isVirtualKey (toLex (o.block, encodedId i o)) = true :=
    (isVirtualKey_encodedId _ (s.id_lt ho)).trans (decide_eq_true hvirtual)
  cases hfind : (s.columns.operationByBlock.rest (toLex (n, 0))).find? fun e => isVirtualKey e.1 with
  | none =>
    refine (firstVirtualBlock_of_none fun o ho hvirtual => not_le.1 fun hn => ?_).symm
    obtain ⟨i, hi⟩ := mem_iff_getElem?.1 ho
    exact find?_eq_none.1 hfind _ (hmem hi hn) (hflag hi hvirtual)
  | some e =>
    obtain ⟨he, htest, hleast⟩ := (find?_sorted_eq_some_iff pairwise_rest).1 hfind
    obtain ⟨hentry, hn⟩ := mem_rest.1 he
    obtain ⟨o, ho, hkey⟩ := s.mem_operationByBlock.1 hentry
    rw [hkey, isVirtualKey_encodedId _ (s.id_lt ho), decide_eq_true_iff] at htest
    rw [hkey, Lex.toLex_le_toLex] at hn
    rw [Option.map_some, Option.getD_some, hkey, ofLex_toLex]
    refine (firstVirtualBlock_of_least (List.mem_of_getElem? ho) htest ?_ fun o' ho' hvirtual' hn' => ?_).symm
    · exact hn.elim le_of_lt fun h => h.1.le
    · obtain ⟨i, hi⟩ := mem_iff_getElem?.1 ho'
      have hle := hleast _ (hmem hi hn') (hflag hi hvirtual')
      rw [hkey, Lex.toLex_le_toLex] at hle
      exact hle.elim le_of_lt fun h => h.1.le

/-! ## The enumeration -/

def lastFoundBlock (first stop : Nat) : Nat :=
  ((virtualOperations s.ops first stop).getLast?.map (·.block)).getD 0

theorem lastFoundBlock_of_ne_nil (h : virtualOperations s.ops first stop ≠ []) :
    first ≤ s.lastFoundBlock first stop ∧ s.lastFoundBlock first stop < stop ∧
      ∀ o ∈ s.ops, 0 < o.virtualOp → s.lastFoundBlock first stop + 1 ≤ o.block → stop ≤ o.block := by
  obtain ⟨l, last, hlist⟩ : ∃ l last, virtualOperations s.ops first stop = l ++ [last] :=
    ⟨_, _, (dropLast_append_getLast h).symm⟩
  have hblock : s.lastFoundBlock first stop = last.block := by
    rw [lastFoundBlock, hlist, getLast?_concat, Option.map_some, Option.getD_some]
  have hlast : last ∈ virtualOperations s.ops first stop := by
    rw [hlist]
    exact mem_concat_self
  obtain ⟨-, -, hfirst, hstop⟩ := mem_virtualOperations.1 hlast
  rw [hblock]
  refine ⟨hfirst, hstop, fun o ho hvirtual hlater => not_lt.1 fun hlt => ?_⟩
  have hmem : o ∈ l ++ [last] := hlist ▸ mem_virtualOperations.2 ⟨ho, hvirtual, by omega, hlt⟩
  have hsorted := pairwise_virtualOperations s.ops first stop
  rw [hlist, pairwise_append] at hsorted
  rcases mem_append.1 hmem with hl | hl
  · have := hsorted.2.2 o hl last (mem_singleton_self _)
    omega
  · rw [List.mem_singleton.1 hl] at hlater
    omega

theorem lastFoundBlock_of_nil (h : virtualOperations s.ops first stop = []) :
    s.lastFoundBlock first stop = 0 := by
  rw [lastFoundBlock, h, getLast?_nil, Option.map_none, Option.getD_none]

theorem enumVirtualOperations_eq {first stop : UInt32} (h : first < stop) :
    s.columns.enumVirtualOperationsFromBlockRange first stop =
      .ok (virtualOperations s.ops first.toNat stop.toNat,
        firstVirtualBlock s.ops (s.lastFoundBlock first.toNat stop.toNat + 1)) := by
  have hscan : s.columns.scanVirtual
      (s.columns.operationByBlock.between (toLex (first.toNat, 0)) (toLex (stop.toNat, 0))) ([], 0) =
      .ok (virtualOperations s.ops first.toNat stop.toNat, s.lastFoundBlock first.toNat stop.toNat) := by
    rw [s.scanVirtual_eq _ _ fun e he => (mem_between.1 he).1, hits_between, nil_append, lastFoundBlock]
  have hwrap : (s.lastFoundBlock first.toNat stop.toNat + 1) % 2 ^ 32 =
      s.lastFoundBlock first.toNat stop.toNat + 1 := by
    refine Nat.mod_eq_of_lt ?_
    have hstop : stop.toNat < 2 ^ 32 := stop.toNat_lt
    by_cases hnil : virtualOperations s.ops first.toNat stop.toNat = []
    · rw [s.lastFoundBlock_of_nil hnil]
      decide
    · have := (s.lastFoundBlock_of_ne_nil hnil).2.1
      omega
  rw [enumVirtualOperationsFromBlockRange, ← s.find?_rest]
  refine bind_ok (fcAssert_ok h) (bind_ok hscan ?_)
  dsimp only
  rw [hwrap]
  cases (s.columns.operationByBlock.rest (toLex (s.lastFoundBlock first.toNat stop.toNat + 1, 0))).find?
    fun e => isVirtualKey e.1 <;> rfl

/-- The range has a virtual operation, or none comes before it. -/
def Forward (first stop : Nat) : Prop :=
  virtualOperations ops first stop ≠ [] ∨ ∀ o ∈ ops, 0 < o.virtualOp → o.block = 0 ∨ first ≤ o.block

theorem firstVirtualBlock_lastFoundBlock_iff (h : first < stop) :
    firstVirtualBlock s.ops (s.lastFoundBlock first stop + 1) = firstVirtualBlock s.ops stop ↔
      Forward s.ops first stop := by
  by_cases hnil : virtualOperations s.ops first stop = []
  · rw [s.lastFoundBlock_of_nil hnil, Forward, or_iff_right (not_not.2 hnil)]
    have hnone := virtualOperations_eq_nil_iff.1 hnil
    constructor
    · -- an earlier block would be found before any at the end of the range
      intro heq o ho hvirtual
      by_contra hearly
      rw [not_or, not_le] at hearly
      rcases firstVirtualBlock_cases s.ops (0 + 1) with ⟨-, hall⟩ | ⟨o1, -, -, hone, hblock, hleast⟩
      · have := hall o ho hvirtual
        omega
      · have hle := hleast o ho hvirtual (by omega)
        rcases firstVirtualBlock_cases s.ops stop with ⟨hzero, -⟩ | ⟨o2, -, -, hstop, hblock2, -⟩ <;> omega
    · intro hearly
      refine firstVirtualBlock_congr fun o ho hvirtual => ⟨fun hone => ?_, fun hstop => by omega⟩
      exact hnone o ho hvirtual ((hearly o ho hvirtual).resolve_left (by omega))
  · obtain ⟨hfirst, hstop, hlater⟩ := s.lastFoundBlock_of_ne_nil hnil
    refine iff_of_true (firstVirtualBlock_congr fun o ho hvirtual => ⟨hlater o ho hvirtual, fun hle => ?_⟩)
      (.inl hnil)
    omega

/-! ## Repeated calls -/

/-- The pages read from a block on, each where the last one stopped. -/
inductive Pages (stopOf : UInt32 → UInt32) : UInt32 → List StoredOperation → Prop where
  | last {first : UInt32} {ops : List StoredOperation}
      (h : s.columns.enumVirtualOperationsFromBlockRange first (stopOf first) = .ok (ops, 0)) :
      Pages stopOf first ops
  | next {first n : UInt32} {ops rest : List StoredOperation}
      (h : s.columns.enumVirtualOperationsFromBlockRange first (stopOf first) = .ok (ops, n.toNat))
      (hn : n.toNat ≠ 0) (hrest : Pages stopOf n rest) : Pages stopOf first (ops ++ rest)

/-- A page ends after it begins. -/
def Upward (stopOf : UInt32 → UInt32) : Prop := ∀ first : UInt32, first.toNat < 2 ^ 32 - 1 →
    first < stopOf first

theorem forward_of_hit {o : StoredOperation} {stop : Nat} (ho : o ∈ s.ops) (hvirtual : 0 < o.virtualOp)
    (hstop : o.block < stop) : Forward s.ops o.block stop :=
  .inl (ne_nil_of_mem (mem_virtualOperations.2 ⟨ho, hvirtual, le_rfl, hstop⟩))

theorem pages_iff {stopOf : UInt32 → UInt32} (hup : Upward stopOf)
    (hlast : ∀ o ∈ s.ops, 0 < o.virtualOp → o.block < 2 ^ 32 - 1) (first : UInt32)
      (hfirst : first.toNat < 2 ^ 32 - 1)
    (hforward : Forward s.ops first.toNat (stopOf first).toNat) (ops : List StoredOperation) :
    s.Pages stopOf first ops ↔ ops = virtualOperations s.ops first.toNat (2 ^ 32) := by
  -- the start of the range goes up with every call
  induction hleft : 2 ^ 32 - first.toNat using Nat.strongRecOn generalizing first ops with
  | _ left ih =>
    have hlt : first.toNat < (stopOf first).toNat := UInt32.lt_iff_toNat_lt.1 (hup first hfirst)
    have hstop : (stopOf first).toNat < 2 ^ 32 := (stopOf first).toNat_lt
    have hcall := s.enumVirtualOperations_eq (hup first hfirst)
    rw [(s.firstVirtualBlock_lastFoundBlock_iff hlt).2 hforward] at hcall
    rcases firstVirtualBlock_cases s.ops (stopOf first).toNat
      with ⟨hzero, hnone⟩ | ⟨o, ho, hvirtual, hle, hblock, hleast⟩
    · have hall : virtualOperations s.ops first.toNat (stopOf first).toNat =
          virtualOperations s.ops first.toNat (2 ^ 32) := by
        rw [← virtualOperations_append hlt.le hstop.le le_rfl fun o ho hvirtual hle =>
          absurd (hnone o ho hvirtual) (not_lt.2 hle), virtualOperations_eq_nil_iff.2 fun _ _ _ hle => hle,
          append_nil]
      rw [hzero, hall] at hcall
      constructor
      · rintro (h | ⟨h, hn, -⟩)
        · rw [hcall] at h
          cases h
          rfl
        · rw [hcall, Except.ok.injEq, Prod.mk.injEq] at h
          exact absurd h.2.symm hn
      · rintro rfl
        exact .last hcall
    · have hnum : o.block < 2 ^ 32 - 1 := hlast o ho hvirtual
      obtain ⟨n, hn⟩ : ∃ n : UInt32, n.toNat = o.block :=
        ⟨.ofNat o.block, UInt32.toNat_ofNat_of_lt' (hnum.trans (by decide))⟩
      have hnext : n.toNat < (stopOf n).toNat := UInt32.lt_iff_toNat_lt.1 (hup n (by omega))
      have hpages := ih (2 ^ 32 - n.toNat) (by omega) n (by omega)
        (hn ▸ s.forward_of_hit ho hvirtual (by omega))
      rw [hblock, ← hn] at hcall
      rw [← virtualOperations_append hlt.le hle (by omega) hleast, ← hn]
      constructor
      · rintro (h | ⟨h, hne, hrest⟩)
        · rw [hcall, Except.ok.injEq, Prod.mk.injEq] at h
          omega
        · rw [hcall, Except.ok.injEq, Prod.mk.injEq, UInt32.toNat_inj] at h
          obtain ⟨rfl, rfl⟩ := h
          rw [(hpages _ rfl).1 hrest]
      · rintro rfl
        exact .next hcall (by omega) ((hpages _ rfl).2 rfl)

theorem enum_virtual_operations_iff (s : OperationStore) (first stop : UInt32) (h : first < stop) :
    ∃ next, s.columns.enumVirtualOperationsFromBlockRange first stop =
        .ok (virtualOperations s.ops first.toNat stop.toNat, next) ∧
      (next = firstVirtualBlock s.ops stop.toNat ↔ Forward s.ops first.toNat stop.toNat) ∧
      (Forward s.ops first.toNat stop.toNat → ∀ stopOf : UInt32 → UInt32, stopOf first = stop → Upward stopOf →
        (∀ o ∈ s.ops, 0 < o.virtualOp → o.block < 2 ^ 32 - 1) →
        ∀ ops, s.Pages stopOf first ops ↔ ops = virtualOperations s.ops first.toNat (2 ^ 32)) := by
  have hlt : first.toNat < stop.toNat := UInt32.lt_iff_toNat_lt.1 h
  refine ⟨_, s.enumVirtualOperations_eq h, s.firstVirtualBlock_lastFoundBlock_iff hlt, ?_⟩
  rintro hforward stopOf rfl hup hlast ops
  have hstop : (stopOf first).toNat < 2 ^ 32 := (stopOf first).toNat_lt
  exact s.pages_iff hup hlast first (by omega) hforward ops

def virtualOperationOf (block : Nat) : StoredOperation where
  trxId := ⟨0⟩
  block := block
  trxInBlock := 2 ^ 32 - 1
  opInTrx := 0
  virtualOp := 1
  timestamp := 0
  op := .clearNullWalletBalance []

def twoVirtual : OperationStore :=
  ⟨[virtualOperationOf 1, virtualOperationOf 10], by decide, by decide⟩

theorem enum_virtual_operations_two : ∃ ops, twoVirtual.Pages (· + 1) 1 ops ∧
    virtualOperationOf 1 ∈ ops ∧ virtualOperationOf 10 ∈ ops := by
  have hup : Upward (· + 1) := by
    intro first hfirst
    have hadd : (first + 1).toNat = (first.toNat + 1) % 2 ^ 32 := UInt32.toNat_add first 1
    rw [UInt32.lt_iff_toNat_lt, hadd]
    omega
  obtain ⟨-, -, -, hpages⟩ := enum_virtual_operations_iff twoVirtual 1 2 (by decide)
  exact ⟨_, (hpages (.inl (by decide)) (· + 1) (by decide) hup (by decide) _).2 rfl,
    mem_virtualOperations.2 (by decide), mem_virtualOperations.2 (by decide)⟩

theorem enum_virtual_operations_back : ∃ (s : OperationStore) (first stop : UInt32), first < stop ∧
    s.columns.enumVirtualOperationsFromBlockRange first stop = .ok ([], 1) ∧ 1 < first.toNat ∧
    firstVirtualBlock s.ops stop.toNat = 10 := by
  refine ⟨twoVirtual, 5, 7, ?_, ?_, ?_, ?_⟩
  · decide
  · decide
  · decide
  · decide

end OperationStore

end Xgt
