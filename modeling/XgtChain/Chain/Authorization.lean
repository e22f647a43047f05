import XgtChain.Chain.IdleChain

/-!
# The heights without money authority

`_apply_transaction` forgives a missing money authority when the number of the next block is in the table
of `get_shared_db_merkle`.
-/

namespace Xgt

open Base

namespace Objects

variable {s s' : Objects} {cr : Crypto} {t : SignedTransaction} {env : Env}

theorem applyTransaction_verified (hskip : env.skip = skipNothing)
    (h : s.applyTransaction cr t env = .ok s') :
    s.verifyTransaction cr t = .ok () ∨
      (sharedDbMerkle.lookup (s.headBlockNum + 1)).isSome ∧
        ∃ e, s.verifyTransaction cr t = .error e ∧ e.kind = .txMissingMoneyAuth := by
  obtain ⟨-, -, hauth, -⟩ := applyTransaction_ok hskip h
  exact (authorize_ok hauth).2

theorem applyTransaction_signed :
    ∃ s' : Objects,
      (genesis ⟨1⟩).applyTransaction toyParams.toCrypto
        (toyTransaction 0 [.transfer toyTransfer] [1]) toyEnv =
          .ok s' ∧
      (genesis ⟨1⟩).verifyTransaction toyParams.toCrypto
        (toyTransaction 0 [.transfer toyTransfer] [1]) = .ok () := by
  obtain ⟨s', hs', -⟩ := exists_ok_of_any (p := fun _ => true)
    (x := (genesis ⟨1⟩).applyTransaction toyParams.toCrypto
      (toyTransaction 0 [.transfer toyTransfer] [1]) toyEnv)
    (by decide +kernel)
  refine ⟨s', hs', (applyTransaction_verified rfl hs').resolve_right ?_⟩
  rintro ⟨htable, -⟩
  exact absurd htable (by decide +kernel)

theorem applyTransaction_unsigned :
    ∃ (blocks : List SignedBlock) (n : Node toyParams) (t : SignedTransaction) (s' : Objects),
      n = (Node.init toyParams).pushBlocks blocks ∧ n.objects.headBlockNum = 3705110 ∧
      t.operations = [.transfer toyTransfer] ∧ t.signatures = [] ∧
      n.objects.applyTransaction toyParams.toCrypto t (n.env skipNothing false) = .ok s' ∧
      n.objects.verifyTransaction toyParams.toCrypto t ≠ .ok () := by
  let t := toyTransaction 0 [.transfer toyTransfer] [] (xgtGenesisTime + 3705110 + 60)
  obtain ⟨n, blocks, hrun, -, hobjects⟩ := idleNode_reaches (k := 3705110) (by omega)
  obtain ⟨s', hs', -⟩ := exists_ok_of_any (p := fun _ => true)
    (x := (idleState 3705110).applyTransaction toyParams.toCrypto t toyEnv)
    (by decide +kernel)
  refine ⟨blocks, n, t, s', hrun.symm, ?_, rfl, rfl, ?_, ?_⟩
  · rw [hobjects]
    rfl
  · have hagrees : (n.env skipNothing false).Agrees toyEnv := ⟨rfl, rfl, rfl, rfl⟩
    rw [hobjects, applyTransaction_agrees hagrees fun _ => by decide]
    exact hs'
  · rw [hobjects]
    decide +kernel

end Objects

end Xgt
