import XgtChain.Chain.Genesis

/-!
# Contracts

`contract_create_evaluator` fills in the owner and the code of a contract.
-/

namespace Xgt

open Base ObjectIndex

namespace Objects

variable {s s' : Objects} {o : ContractCreateOperation}

def contractByOwner (s : Objects) (owner : WalletName) : Option (Nat × ContractObject) :=
  s.contracts.find? fun c => c.owner = owner

def contractByHash (s : Objects) (hash : ContractHash) : Option (Nat × ContractObject) :=
  s.contracts.find? fun c => c.contractHash = hash

def readBack (r : Nat × ContractObject) : Nat × ContractObject :=
  (0, { owner := r.2.owner, code := r.2.code })

/-- Each contract is found by its owner and its hash, and no two are one. -/
structure ContractsKept (s : Objects) (ops : List ContractCreateOperation) : Prop where
  found : ∀ o ∈ ops, ∃ r, s.contractByOwner o.owner = some r ∧ s.contractByHash r.2.contractHash = some r ∧
    r.2.code = o.code ∧ (readBack r).2.code = o.code
  distinct : ops.Pairwise fun o o' => ∀ r r', s.contractByOwner o.owner = some r →
    s.contractByOwner o'.owner = some r' → r.1 ≠ r'.1 ∧ r.2.contractHash ≠ r'.2.contractHash ∧
      (readBack r).1 ≠ (readBack r').1 ∧ (readBack r).2.contractHash ≠ (readBack r').2.contractHash

theorem applyContractCreate_ok_iff :
    s.applyContractCreate o = .ok s' ↔
      (∀ c ∈ s.contracts.objects, o.owner ≠ c.owner ∧ (⟨0⟩ : ContractHash) ≠ c.contractHash) ∧
      s' = { s with contracts := s.contracts.append { owner := o.owner, code := o.code } } := by
  simp only [applyContractCreate, bind_ok_iff, dbCreate_ok_iff, create?_eq_some_iff, Keyed.clash,
    Bool.or_eq_false_iff, decide_eq_false_iff_not, pure, Except.pure, Except.ok.injEq, and_assoc,
    exists_and_left, exists_eq_left, eq_comm (b := s'), ne_eq]

theorem contractsKept_singleton (h : s.applyContractCreate o = .ok s') : s'.ContractsKept [o] := by
  obtain ⟨hnew, rfl⟩ := applyContractCreate_ok_iff.1 h
  have howner : s.contractByOwner o.owner = none :=
    find?_eq_none.2 fun c hc => decide_eq_false (hnew c hc).1.symm
  have hhash : s.contractByHash ⟨0⟩ = none :=
    find?_eq_none.2 fun c hc => decide_eq_false (hnew c hc).2.symm
  refine ⟨fun o' ho' => ?_, List.pairwise_singleton _ _⟩
  rw [List.mem_singleton.1 ho']
  exact ⟨_, find?_append_of_none howner (decide_eq_true rfl),
    find?_append_of_none hhash (decide_eq_true rfl), rfl, rfl⟩

theorem contracts_kept_iff (s : Objects) (ops : List ContractCreateOperation)
    (hops : (ops.map (·.owner)).Nodup) :
    (∃ s', ops.foldlM applyContractCreate s = .ok s' ∧ s'.ContractsKept ops) ↔
      ops.length ≤ 1 ∧
        ∀ o ∈ ops, ∀ c ∈ s.contracts.objects, o.owner ≠ c.owner ∧ (⟨0⟩ : ContractHash) ≠ c.contractHash := by
  match ops with
  | [] => exact iff_of_true ⟨s, rfl, by simp, .nil⟩ (by simp)
  | [o] =>
    rw [List.foldlM_cons]
    constructor
    · rintro ⟨s', hrun, -⟩
      obtain ⟨s1, hfirst, -⟩ := of_bind hrun
      simpa using (applyContractCreate_ok_iff.1 hfirst).1
    · intro h
      have hfirst := applyContractCreate_ok_iff.2 ⟨h.2 o (.head _), rfl⟩
      exact ⟨_, bind_ok hfirst rfl, contractsKept_singleton hfirst⟩
  | o :: o' :: rest =>
    refine iff_of_false (fun ⟨s', hrun, _⟩ => ?_) (by simp)
    -- the hash of the first contract is taken when the second one comes
    obtain ⟨s1, hfirst, hrun⟩ := foldlM_cons_ok_iff.1 hrun
    obtain ⟨s2, hsecond, -⟩ := foldlM_cons_ok_iff.1 hrun
    obtain ⟨-, rfl⟩ := applyContractCreate_ok_iff.1 hfirst
    refine ((applyContractCreate_ok_iff.1 hsecond).1 { owner := o.owner, code := o.code } ?_).2 rfl
    simp [objects, append]

theorem contracts_kept_one :
    ∃ s', [⟨xgtTempWallet, [1]⟩].foldlM applyContractCreate (genesis ⟨1⟩) = .ok s' ∧
      s'.ContractsKept [⟨xgtTempWallet, [1]⟩] :=
  (contracts_kept_iff (genesis ⟨1⟩) [⟨xgtTempWallet, [1]⟩] (by decide)).2 ⟨by decide, by decide⟩

theorem second_contract_refused :
    ∃ e, [⟨xgtTempWallet, [1]⟩, ⟨xgtInitMinerName, [2]⟩].foldlM applyContractCreate (genesis ⟨1⟩) = .error e :=
  exists_error_of_toOption (by decide +kernel)

end Objects

end Xgt
