import XgtChain.Base.HashTree
import XgtChain.Chain.PushBlock

/-!
# The Merkle root of a block

`calculate_merkle_root` hashes the digests of the transactions in pairs, round by round, in the vector it
reads them from.
-/

namespace Xgt

open Base List Option HashTree

section Loop

variable (cr : Crypto)

def write? (ids : List Sha256) (k : Nat) (d : Sha256) : Option (List Sha256) :=
  if k < ids.length then some (ids.set k d) else none

def hashRound (iMax : Nat) : Nat → Nat → Nat → List Sha256 → Option (Nat × List Sha256)
  | 0, i, k, ids => if i < iMax then none else some (k, ids)
  | fuel + 1, i, k, ids =>
    if i < iMax then do
      let a ← ids[i]?
      let b ← ids[i + 1]?
      let ids ← write? ids k (cr.hashPair a b)
      hashRound iMax fuel (i + 2) (k + 1) ids
    else
      some (k, ids)

def hashLevel (n : Nat) (ids : List Sha256) : Option (Nat × List Sha256) := do
  let iMax := n - n % 2
  let (k, ids) ← hashRound cr iMax iMax 0 0 ids
  if n % 2 = 1 then
    let last ← ids[iMax]?
    let ids ← write? ids k last
    some (k + 1, ids)
  else
    some (k, ids)

def merkleLoop : Nat → Nat → List Sha256 → Option (List Sha256)
  | 0, n, ids => if n > 1 then none else some ids
  | fuel + 1, n, ids =>
    if n > 1 then do
      let (n, ids) ← hashLevel cr n ids
      merkleLoop fuel n ids
    else
      some ids

def calculateMerkleRootInPlace (b : SignedBlock) : Option Checksum :=
  if b.transactions.length = 0 then
    some ⟨0⟩
  else do
    let ids := b.transactions.map cr.merkleDigest
    let ids ← merkleLoop cr ids.length ids.length ids
    let d ← ids[0]?
    some (cr.checksum d)

end Loop

/-! ## What a round leaves in the vector -/

section Rounds

variable {cr : Crypto} {ids0 ids : List Sha256} {k : Nat}

structure Level (cr : Crypto) (ids0 : List Sha256) (k : Nat) (ids : List Sha256) : Prop where
  length : ids.length = ids0.length
  done : ∀ m < k, ids[m]? = pairAt cr.hashPair ids0[2 * m]? ids0[2 * m + 1]?
  rest : ∀ m, k ≤ m → ids[m]? = ids0[m]?

theorem Level.start (cr : Crypto) (ids0 : List Sha256) : Level cr ids0 0 ids0 :=
  ⟨rfl, fun _ h => absurd h (Nat.not_lt_zero _), fun _ _ => rfl⟩

theorem Level.write (h : Level cr ids0 k ids) {d : Sha256} (hk : k < ids0.length)
    (hd : some d = pairAt cr.hashPair ids0[2 * k]? ids0[2 * k + 1]?) :
    write? ids k d = some (ids.set k d) ∧ Level cr ids0 (k + 1) (ids.set k d) := by
  rw [← h.length] at hk
  refine ⟨if_pos hk, ⟨by rw [length_set, h.length], fun m hm => ?_, fun m hm => ?_⟩⟩
  · rcases Nat.lt_succ_iff_lt_or_eq.1 hm with hlt | rfl
    · rw [getElem?_set_ne (by omega), h.done m hlt]
    · rw [getElem?_set_self hk, hd]
  · rw [getElem?_set_ne (by omega), h.rest m (by omega)]

theorem Level.hashRound (iMax fuel : Nat) (heven : iMax % 2 = 0) (hmax : iMax ≤ ids0.length)
    (h : Level cr ids0 k ids) (hk : 2 * k ≤ iMax) (hfuel : iMax ≤ 2 * k + fuel) :
    ∃ ids', hashRound cr iMax fuel (2 * k) k ids = some (iMax / 2, ids') ∧ Level cr ids0 (iMax / 2) ids' := by
  induction fuel generalizing k ids with
  | zero =>
    have hend : iMax / 2 = k := by omega
    exact ⟨ids, by rw [Xgt.hashRound, if_neg (by omega), hend], hend ▸ h⟩
  | succ fuel ih =>
    by_cases hlt : 2 * k < iMax
    · obtain ⟨a, ha⟩ : ∃ a, ids0[2 * k]? = some a := ⟨_, getElem?_eq_getElem (by omega)⟩
      obtain ⟨b, hb⟩ : ∃ b, ids0[2 * k + 1]? = some b := ⟨_, getElem?_eq_getElem (by omega)⟩
      have hd : some (cr.hashPair a b) = pairAt cr.hashPair ids0[2 * k]? ids0[2 * k +
        1]? := by rw [ha, hb, pairAt]
      obtain ⟨hwrite, hnext⟩ := h.write (by omega) hd
      obtain ⟨ids', hrun, hlevel⟩ := ih hnext (by omega) (by omega)
      refine ⟨ids', ?_, hlevel⟩
      rw [Xgt.hashRound, if_pos hlt, h.rest _ (by omega), h.rest _ (by omega), ha, hb]
      simp only [bind_eq_bind, bind_some, hwrite]
      exact hrun
    · have hend : iMax / 2 = k := by omega
      exact ⟨ids, by rw [Xgt.hashRound, if_neg hlt, hend], hend ▸ h⟩

theorem hashLevel_spec (cr : Crypto) (n : Nat) (ids0 : List Sha256) (hn : n ≤ ids0.length) :
    ∃ ids, hashLevel cr n ids0 = some ((n + 1) / 2, ids) ∧ ids.length = ids0.length ∧
      ids.take ((n + 1) / 2) = pairUp cr.hashPair (ids0.take n) := by
  have htake {ids : List Sha256} (hlength : ids.length = ids0.length)
      (hdone : ∀ m < (n + 1) / 2, ids[m]? = pairAt cr.hashPair (ids0.take n)[2 * m]?
        (ids0.take n)[2 * m + 1]?) :
      ids.take ((n + 1) / 2) = pairUp cr.hashPair (ids0.take n) := by
    refine ext_getElem? fun m => ?_
    by_cases hm : m < (n + 1) / 2
    · rw [getElem?_take_of_lt hm, getElem?_pairUp, hdone m hm]
    · have hpair : (pairUp cr.hashPair (ids0.take n)).length ≤ m := by
        rw [length_pairUp, length_take]
        omega
      rw [getElem?_eq_none hpair, getElem?_take_eq_none (by omega)]
  obtain ⟨ids, hrun, h⟩ := Level.hashRound (n - n % 2) (n - n % 2) (by omega) (by omega)
    (Level.start cr ids0) (by omega) (by omega)
  have hpairs (m : Nat) (hm : 2 * m + 1 < n) :
      ids[m]? = pairAt cr.hashPair (ids0.take n)[2 * m]? (ids0.take n)[2 * m + 1]? := by
    rw [getElem?_take_of_lt (by omega), getElem?_take_of_lt hm, h.done m (by omega)]
  by_cases hodd : n % 2 = 1
  · -- the odd last digest is still where it was: the round has written at most half as far
    obtain ⟨last, hlast⟩ : ∃ last, ids0[n - n % 2]? = some last := ⟨_, getElem?_eq_getElem (by omega)⟩
    have hk : (n - n % 2) / 2 < ids.length := by have := h.length; omega
    refine ⟨ids.set ((n - n % 2) / 2) last, ?_, by rw [length_set, h.length],
      htake (by rw [length_set, h.length]) fun m hm => ?_⟩
    · have hcount : (n + 1) / 2 = (n - n % 2) / 2 + 1 := by omega
      simp only [hashLevel, hrun, bind_eq_bind, bind_some, if_pos hodd, h.rest _ (Nat.div_le_self _ 2),
        hlast, write?, if_pos hk, hcount]
    · by_cases hend : m = (n - n % 2) / 2
      · have hleft : 2 * m = n - n % 2 := by omega
        rw [hend, getElem?_set_self hk, ← hend, hleft, getElem?_take_of_lt (by omega), hlast,
          getElem?_take_eq_none (by omega)]
        rfl
      · rw [getElem?_set_ne (by omega), hpairs m (by omega)]
  · refine ⟨ids, ?_, h.length, htake h.length fun m hm => hpairs m (by omega)⟩
    have hcount : (n + 1) / 2 = (n - n % 2) / 2 := by omega
    simp only [hashLevel, hrun, bind_eq_bind, bind_some, if_neg hodd, hcount]

theorem merkleLoop_spec (cr : Crypto) (fuel n : Nat) (ids : List Sha256) (hn : n ≤ ids.length) (hpos : 0 < n)
    (hfuel : n ≤ fuel) :
    ∃ ids', merkleLoop cr fuel n ids = some ids' ∧ ids'[0]? = reduce cr.hashPair (ids.take n) := by
  induction fuel generalizing n ids with
  | zero => exact absurd hpos (by omega)
  | succ fuel ih =>
    by_cases hmore : n > 1
    · obtain ⟨ids1, hlevel, hlength, htake⟩ := hashLevel_spec cr n ids hn
      obtain ⟨ids', hloop, hfirst⟩ := ih ((n + 1) / 2) ids1 (by omega) (by omega) (by omega)
      refine ⟨ids', ?_, by rw [hfirst, htake, reduce_pairUp]⟩
      simp only [merkleLoop, if_pos hmore, hlevel, bind_eq_bind, bind_some, hloop]
    · have hone : n = 1 := by omega
      refine ⟨ids, by rw [merkleLoop, if_neg hmore], ?_⟩
      rcases ids with _ | ⟨d, ids⟩
      · exact absurd hn (by simp [hone])
      · simp [hone, reduce]

end Rounds

/-! ## The tree over the transactions -/

section Tree

variable (cr : Crypto) (txs : List SignedTransaction) (b : SignedBlock)

def merkleTree : Option (HashTree Sha256) :=
  ofList (txs.map cr.merkleDigest)

def rootChecksum : Option Sha256 → Checksum
  | none => ⟨0⟩
  | some d => cr.checksum d

def treeRoot : Checksum :=
  rootChecksum cr ((merkleTree cr txs).map (root cr.hashPair))

theorem treeRoot_eq :
    treeRoot cr txs = rootChecksum cr (reduce cr.hashPair (txs.map cr.merkleDigest)) := by
  rw [treeRoot, merkleTree, reduce_hash]

theorem calculateMerkleRootInPlace_eq :
    calculateMerkleRootInPlace cr b = some (treeRoot cr b.transactions) := by
  rw [treeRoot_eq]
  by_cases hempty : b.transactions = []
  · rw [calculateMerkleRootInPlace, if_pos (by rw [hempty, length_nil]), hempty, map_nil, reduce, rootChecksum]
  · have hpos : 0 < b.transactions.length := length_pos_iff.2 hempty
    let ids := b.transactions.map cr.merkleDigest
    have hlength : ids.length = b.transactions.length := length_map _
    obtain ⟨ids', hloop, hfirst⟩ := merkleLoop_spec cr ids.length ids.length ids le_rfl (by omega) le_rfl
    rw [take_length] at hfirst
    obtain ⟨d, hd⟩ : ∃ d, reduce cr.hashPair ids = some d := by
      rw [← ne_none_iff_exists', Ne, reduce_eq_none_iff, ← length_eq_zero_iff]
      omega
    rw [hd] at hfirst
    rw [calculateMerkleRootInPlace, if_neg (by omega), hd, rootChecksum]
    simp only [bind_eq_bind, bind_some, hloop, hfirst, ids]

theorem hashPairs_eq (l : List Sha256) : hashPairs cr l = pairUp cr.hashPair l := by
  fun_induction pairUp cr.hashPair l with
  | case1 => rfl
  | case2 a => rfl
  | case3 a b l ih => rw [hashPairs, ih]

theorem merkleRounds_eq (fuel : Nat) (l : List Sha256) (hfuel : l.length ≤ fuel) :
    merkleRounds cr fuel l = (reduce cr.hashPair l).toList := by
  induction fuel generalizing l with
  | zero =>
    obtain rfl : l = [] := length_eq_zero_iff.1 (by omega)
    rw [merkleRounds, reduce, toList_none]
  | succ fuel ih =>
    rcases l with _ | ⟨a, _ | ⟨b, l⟩⟩
    · rw [merkleRounds, if_pos (by simp), reduce, toList_none]
    · rw [merkleRounds, if_pos (by simp), reduce, toList_some]
    · have hshort : (pairUp cr.hashPair (a :: b :: l)).length ≤ fuel := by
        rw [length_pairUp]
        simp only [length_cons] at hfuel ⊢
        omega
      rw [merkleRounds, if_neg (by simp), hashPairs_eq, ih _ hshort, reduce_pairUp]

theorem calculateMerkleRoot_eq : calculateMerkleRoot cr b = treeRoot cr b.transactions := by
  rw [treeRoot_eq, calculateMerkleRoot, merkleRounds_eq cr _ _ (by rw [length_map])]
  cases reduce cr.hashPair (b.transactions.map cr.merkleDigest) <;> rfl

def hashedPairs : List (Sha256 × Sha256) :=
  (merkleTree cr txs).elim [] (pairs cr.hashPair)

/-- No two inputs hashed for the two trees collide. -/
structure CollisionFree (txs txs' : List SignedTransaction) : Prop where
  transactions : ∀ t ∈ txs, ∀ t' ∈ txs', cr.merkleDigest t = cr.merkleDigest t' → t = t'
  pairs : ∀ p ∈ hashedPairs cr txs, ∀ q ∈ hashedPairs cr txs',
    cr.hashPair p.1 p.2 = cr.hashPair q.1 q.2 → p = q
  roots : treeRoot cr txs = treeRoot cr txs' →
    (merkleTree cr txs).map (root cr.hashPair) = (merkleTree cr txs').map (root cr.hashPair)

/-- No leaf of one tree is an inner node of the other. -/
def LeavesApart (txs txs' : List SignedTransaction) : Prop :=
  ∀ t ∈ txs, ∀ q ∈ hashedPairs cr txs', cr.merkleDigest t ≠ cr.hashPair q.1 q.2

end Tree

section Determines

variable {cr : Crypto} {txs txs' : List SignedTransaction}

theorem CollisionFree.trees (h : CollisionFree cr txs txs') (hleaves : LeavesApart cr txs txs')
    (hleaves' : LeavesApart cr txs' txs) {t t' : HashTree Sha256} (ht : merkleTree cr txs = some t)
    (ht' : merkleTree cr txs' = some t') : HashTree.CollisionFree cr.hashPair t t' := by
  have hpairs : hashedPairs cr txs = t.pairs cr.hashPair := by rw [hashedPairs, ht, elim_some]
  have hpairs' : hashedPairs cr txs' = t'.pairs cr.hashPair := by rw [hashedPairs, ht', elim_some]
  refine ⟨fun p hp q hq => h.pairs p (hpairs ▸ hp) q (hpairs' ▸ hq), fun d hd q hq => ?_, fun p hp d hd => ?_⟩
  · rw [HashTree.leaves_ofList ht, List.mem_map] at hd
    obtain ⟨x, hx, rfl⟩ := hd
    exact hleaves x hx q (hpairs' ▸ hq)
  · rw [HashTree.leaves_ofList ht', List.mem_map] at hd
    obtain ⟨x, hx, rfl⟩ := hd
    exact (hleaves' x hx p (hpairs ▸ hp)).symm

theorem eq_of_digests_eq (h : ∀ t ∈ txs, ∀ t' ∈ txs', cr.merkleDigest t = cr.merkleDigest t' → t = t')
    (hdigests : txs.map cr.merkleDigest = txs'.map cr.merkleDigest) : txs = txs' := by
  induction txs generalizing txs' with
  | nil => exact (map_eq_nil_iff.1 hdigests.symm).symm
  | cons t txs ih =>
    cases txs' with
    | nil => cases hdigests
    | cons t' txs' =>
      obtain ⟨hhead, htail⟩ := List.cons.inj hdigests
      rw [h t (.head _) t' (.head _) hhead,
        ih (fun u hu u' hu' => h u (.tail _ hu) u' (.tail _ hu')) htail]

theorem eq_of_treeRoot_eq (h : CollisionFree cr txs txs') (hleaves : LeavesApart cr txs txs')
    (hleaves' : LeavesApart cr txs' txs) (hroot : treeRoot cr txs = treeRoot cr txs') : txs = txs' := by
  have hreduce := h.roots hroot
  simp only [merkleTree, ← reduce_hash] at hreduce
  exact eq_of_digests_eq h.transactions
    (eq_of_reduce_eq (fun _ ht _ ht' => h.trees hleaves hleaves' ht ht') hreduce)

end Determines

theorem merkle_root_determines (cr : Crypto) :
    (∀ b : SignedBlock, calculateMerkleRootInPlace cr b = some (treeRoot cr b.transactions) ∧
      calculateMerkleRoot cr b = treeRoot cr b.transactions) ∧
    ∀ b b' : SignedBlock, CollisionFree cr b.transactions b'.transactions →
      LeavesApart cr b.transactions b'.transactions → LeavesApart cr b'.transactions b.transactions →
      calculateMerkleRootInPlace cr b = calculateMerkleRootInPlace cr b' →
        b.transactions = b'.transactions := by
  refine ⟨fun b => ⟨calculateMerkleRootInPlace_eq cr b, calculateMerkleRoot_eq cr b⟩,
    fun b b' h hleaves hleaves' hroot => ?_⟩
  rw [calculateMerkleRootInPlace_eq, calculateMerkleRootInPlace_eq, some.injEq] at hroot
  exact eq_of_treeRoot_eq h hleaves hleaves' hroot

def merkleTransactions : List SignedTransaction :=
  [toyTransaction 0 [] [] 1, toyTransaction 0 [] [] 2, toyTransaction 0 [] [] 4]

theorem hashedPairs_merkleTransactions :
    hashedPairs toyParams.toCrypto merkleTransactions = [(3000#256, 4000#256), (1000#256, 2000#256)] := by
  simp [hashedPairs, merkleTree, merkleTransactions, ofList, reduce, pairUp, pairs, root,
    toyParams, toyTransaction]

theorem merkle_root_determines_three :
    let b := toyBlock ⟨0, 0⟩ 3 merkleTransactions
    let b' := toyBlock ⟨1, 1⟩ 6 merkleTransactions
    b ≠ b' ∧ LeavesApart toyParams.toCrypto b.transactions b'.transactions ∧
      b.transactions = b'.transactions := by
  have hapart : LeavesApart toyParams.toCrypto merkleTransactions merkleTransactions := by
    rw [LeavesApart, hashedPairs_merkleTransactions]
    simp [merkleTransactions, toyParams, toyTransaction]
  have hfree : CollisionFree toyParams.toCrypto merkleTransactions merkleTransactions := by
    refine ⟨by decide, ?_, fun _ => rfl⟩
    rw [hashedPairs_merkleTransactions]
    simp [toyParams]
  intro b b'
  have hroot : calculateMerkleRootInPlace toyParams.toCrypto b =
    calculateMerkleRootInPlace toyParams.toCrypto b' := rfl
  exact ⟨by decide, hapart, (merkle_root_determines toyParams.toCrypto).2 b b' hfree hapart hapart hroot⟩

end Xgt
