import XgtChain.Chain.PushBlock

/-!
# Skipping signatures

`skip_transaction_signatures` leaves out the authorization of transactions and nothing else.
-/

namespace Xgt

open Base

def SkipFlags.unsigned (skip : SkipFlags) : SkipFlags := { skip with skipTransactionSignatures := true }

def Env.unsigned (env : Env) : Env := { env with skip := env.skip.unsigned }

namespace Objects

variable {s s' : Objects} {P : Params} {env : Env} {b : SignedBlock}

theorem applyOperation_unsigned (cr : Crypto) (op : Operation) :
    s.applyOperation cr env.unsigned op = s.applyOperation cr env op := by
  cases op <;> rfl

theorem applyTransaction_unsigned_ok {cr : Crypto} {t : SignedTransaction}
    (h : s.applyTransaction cr t env = .ok s') : s.applyTransaction cr t env.unsigned = .ok s' := by
  have hops (u : Objects) : u.applyOperations cr env.unsigned t.operations =
      u.applyOperations cr env t.operations := by
    unfold applyOperations
    simp only [applyOperation_unsigned]
  unfold applyTransaction at h ⊢
  obtain ⟨_, hvalid, h⟩ := of_bind h
  obtain ⟨_, hdupe, h⟩ := of_bind h
  obtain ⟨_, -, h⟩ := of_bind h
  refine bind_ok hvalid (bind_ok hdupe (bind_ok rfl ?_))
  simp only [hops]
  exact h

theorem applyBlock_unsigned (h : s.applyBlock P env b = .ok s') :
    s.applyBlock P env.unsigned b = .ok s' := by
  unfold applyBlock at h ⊢
  simp only [bind_ok_iff] at h
  obtain ⟨_, hmerkle, _, hsize, s1, hheader, _, hwitness, s2, htxs, hfinish⟩ := h
  have htxs' : s1.applyTransactions P.toCrypto env.unsigned b.transactions = .ok s2 :=
    foldlM_ok_image (φ := id) htxs fun _ _ _ _ hstep => applyTransaction_unsigned_ok hstep
  refine bind_ok hmerkle (bind_ok hsize (bind_ok hheader ?_))
  exact bind_ok hwitness (bind_ok htxs' hfinish)

end Objects

namespace Node

variable {P : Params} {n n' : Node P} {skip : SkipFlags} {pinned : List ForkItem} {b : SignedBlock}
  {r : Bool} {skip' : SkipFlags}

theorem applyBlock_unsigned {u : Unit} (h : n.applyBlock skip pinned b = (n', .ok u)) :
    n.applyBlock skip.unsigned pinned b = (n', .ok u) := by
  obtain ⟨s, hs, hmigrate⟩ := applyBlock_ok h
  have hs' : n.objects.applyBlock P (n.env skip.unsigned false) b = .ok s :=
    Objects.applyBlock_unsigned hs
  exact applyBlock_of_ok hs' hmigrate

theorem applyBranch_unsigned {xs : List ForkItem} (h : applyBranch skip pinned xs n = (n', none)) :
    applyBranch skip.unsigned pinned xs n = (n', none) := by
  induction xs generalizing n with
  | nil => exact h
  | cons x xs ih =>
    unfold applyBranch at h ⊢
    split at h
    · next n1 u hstep =>
      rw [applyBlock_unsigned hstep]
      exact ih h
    · cases h

theorem extend_unsigned (h : n.extend skip b = (n', .ok r)) : n.extend skip.unsigned b = (n', .ok r) := by
  unfold extend at h ⊢
  split at h
  · next n1 u hstep =>
    rw [applyBlock_unsigned hstep]
    exact h
  · cases h

theorem switchForks_unsigned {newHead : ForkItem} (h : n.switchForks skip newHead = (n', .ok r)) :
    n.switchForks skip.unsigned newHead = (n', .ok r) := by
  unfold switchForks at h ⊢
  split at h
  · cases h
  · unfold switchBranch at h ⊢
    split at h
    · cases h
    · split at h
      · next n2 happly =>
        rw [applyBranch_unsigned happly]
        exact h
      · exact absurd h restoreBranch_ne_ok

theorem pushBlockCore_unsigned (h : n.pushBlockCore skip b = (n', .ok r)) :
    n.pushBlockCore skip.unsigned b = (n', .ok r) := by
  unfold pushBlockCore at h ⊢
  by_cases hforkDb : skip.skipForkDb = true
  · rw [if_pos hforkDb] at h
    rw [if_pos (show skip.unsigned.skipForkDb = true from hforkDb)]
    exact extend_unsigned h
  · rw [if_neg hforkDb] at h
    rw [if_neg (show ¬skip.unsigned.skipForkDb = true from hforkDb)]
    split at h
    · cases h
    · next forkDb newHead hpush =>
      dsimp only at h ⊢
      split_ifs at h ⊢
      · exact extend_unsigned h
      · exact switchForks_unsigned h
      · exact h

theorem checkpointFlags_unsigned (h : n.checkpointFlags skip b = .ok skip') :
    n.checkpointFlags skip.unsigned b = .ok skip'.unsigned := by
  unfold checkpointFlags at h ⊢
  split at h
  · cases h
    rfl
  · split_ifs at h ⊢
    · cases h
      rfl
    · obtain ⟨_, hmatch, h⟩ := of_bind h
      cases h
      exact bind_ok hmatch rfl
    · obtain ⟨_, hmatch, h⟩ := of_bind h
      cases h
      exact bind_ok hmatch rfl

theorem pushBlock_eq (budget : Nat) {result : Result Bool} (hflags : n.checkpointFlags skip b = .ok skip')
    (hcore : n.clearPending.pushBlockCore skip' b = (n', result)) :
    (n.pushBlock skip budget b).2 = result ∧ (n.pushBlock skip budget b).1.chain = n'.chain := by
  unfold pushBlock
  simp only [hflags, hcore]
  exact ⟨trivial, restorePending_chain⟩

theorem pushBlock_budget (budget budget' : Nat) :
    (n.pushBlock skip budget b).2 = (n.pushBlock skip budget' b).2 ∧
      (n.pushBlock skip budget b).1.chain = (n.pushBlock skip budget' b).1.chain := by
  unfold pushBlock
  split
  · exact ⟨rfl, rfl⟩
  · exact ⟨rfl, restorePending_chain.trans restorePending_chain.symm⟩

theorem pushBlock_unsigned {budget : Nat} (budget' : Nat) (h : (n.pushBlock skip budget b).2 = .ok r) :
    (n.pushBlock skip.unsigned budget' b).2 = .ok r ∧
      (n.pushBlock skip.unsigned budget' b).1.chain = (n.pushBlock skip budget b).1.chain := by
  rcases hflags : n.checkpointFlags skip b with e | skip'
  · rw [pushBlock, hflags] at h
    cases h
  · rcases hcore : n.clearPending.pushBlockCore skip' b with ⟨n', result⟩
    obtain ⟨hresult, hchain⟩ := pushBlock_eq budget hflags hcore
    rw [h] at hresult
    subst hresult
    rw [hchain]
    exact pushBlock_eq budget' (checkpointFlags_unsigned hflags) (pushBlockCore_unsigned hcore)

end Node

end Xgt
