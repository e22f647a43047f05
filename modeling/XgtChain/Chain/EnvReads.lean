import XgtChain.Chain.ApplyBlock

/-!
# What a block reads besides the objects

An operation reads the flags of the pending queue and the keys that the node draws, and before block
2116800 a pow operation reads the head block (`applyOperation_agrees`).
-/

namespace Xgt

open Base

structure Env.Agrees (env env' : Env) : Prop where
  skip : env.skip = env'.skip
  producing : env.producing = env'.producing
  pendingTx : env.pendingTx = env'.pendingTx
  random : env.random = env'.random

namespace Objects

variable {s : Objects} {cr : Crypto} {P : Params} {env env' : Env} {b : SignedBlock} {t : SignedTransaction}

theorem applyOperation_agrees {op : Operation} (h : env.Agrees env')
    (hpow : ∀ o, op = .pow o → 2116800 ≤ s.headBlockNum) :
    s.applyOperation cr env op = s.applyOperation cr env' op := by
  unfold applyOperation
  cases op with
  | transfer o => simp only [applyTransfer, createReceiver, h.random]
  | custom o => simp only [applyCustom, h.producing]
  | customJson o => simp only [applyCustomJson, h.producing]
  | pow o => simp only [applyPow, if_pos (hpow o rfl)]
  | xttSetup o => simp only [applyXttSetup, pushRequiredAction, h.pendingTx]
  | xttCreate o => simp only [applyXttCreate, h.pendingTx]
  | _ => rfl

theorem applyTransaction_congr (hskip : env.skip = env'.skip)
    (hops : ∀ before op after u1 u, t.operations = before ++ op :: after →
      s.recordTransaction cr t env = .ok u1 → u1.applyOperations cr env before = .ok u →
      u.chainPart = s.chainPart → u.applyOperation cr env op = u.applyOperation cr env' op) :
    s.applyTransaction cr t env = s.applyTransaction cr t env' := by
  have hrecord : s.recordTransaction cr t env' = s.recordTransaction cr t env := by
    unfold recordTransaction
    rw [hskip]
  unfold applyTransaction
  rw [hskip, hrecord]
  iterate 4 refine bind_congr fun _ => ?_
  refine bind_congr_of_ok fun u1 hu1 => foldlM_congr_of_reached fun before op after u hsplit hu => ?_
  rw [hops before op after u1 u hsplit hu1 hu
    ((applyOperations_chainPart hu).trans (congrArg Prod.fst (recordTransaction_frame hu1)))]

theorem applyBlock_congr (hskip : env.skip = env'.skip)
    (hops : ∀ t v v1 before op after u, IsStateFor P env s b t v → t.operations = before ++ op :: after →
      v.recordTransaction P.toCrypto t env = .ok v1 → v1.applyOperations P.toCrypto env before = .ok u →
      u.chainPart = s.chainPart →
      u.applyOperation P.toCrypto env op = u.applyOperation P.toCrypto env' op)
    (hprior : b.blockNum ≠ 1 → b.blockNum % 302400 = 1 →
      env.fetchPriorBlock (b.blockNum - 302400) = env'.fetchPriorBlock (b.blockNum - 302400)) :
    s.applyBlock P env b = s.applyBlock P env' b := by
  have hfinish (u : Objects) : u.finishBlock P env b = u.finishBlock P env' b := by
    have hdynamic : u.updateGlobalDynamicData P.toCrypto env b =
        u.updateGlobalDynamicData P.toCrypto env' b := by
      unfold updateGlobalDynamicData
      rw [hskip]
    have hadjust (v : Objects) : v.adjustDifficulty P env b = v.adjustDifficulty P env' b := by
      unfold adjustDifficulty
      split_ifs
      · rfl
      · rw [hprior (by omega) (by omega)]
      · rfl
    simp only [finishBlock, hdynamic, hadjust]
  unfold applyBlock
  simp only [hskip, hfinish]
  iterate 2 refine bind_congr fun _ => ?_
  refine bind_congr_of_ok fun s1 hs1 => bind_congr fun _ => ?_
  have htxs : s1.applyTransactions P.toCrypto env b.transactions =
      s1.applyTransactions P.toCrypto env' b.transactions := by
    refine foldlM_congr_of_reached fun before t after v hsplit hv => ?_
    refine applyTransaction_congr hskip fun before' op after' v1 u hsplit' hv1 hu hpart => ?_
    exact hops t v v1 before' op after' u ⟨s1, before, after, hs1, hsplit, hv⟩ hsplit' hv1 hu
      (hpart.trans ((applyTransactions_chainPart hv).trans
        (congrArg Prod.fst (processHeaderExtensions_frame hs1))))
  rw [htxs]

theorem applyTransaction_agrees (h : env.Agrees env')
    (hpow : (∃ o, Operation.pow o ∈ t.operations) → 2116800 ≤ s.headBlockNum) :
    s.applyTransaction cr t env = s.applyTransaction cr t env' := by
  refine applyTransaction_congr h.skip fun before op after u1 u hsplit _ _ hu => ?_
  refine applyOperation_agrees h fun o ho => ?_
  rw [show u.headBlockNum = s.headBlockNum from congrArg ChainPart.headBlockNumber hu]
  exact hpow ⟨o, by simp [hsplit, ho]⟩

theorem applyBlock_agrees (h : env.Agrees env')
    (hpow : (∃ t ∈ b.transactions, ∃ o, Operation.pow o ∈ t.operations) → 2116800 ≤ s.headBlockNum)
    (hperiod : b.blockNum = 1 ∨ b.blockNum % 302400 ≠ 1) :
    s.applyBlock P env b = s.applyBlock P env' b := by
  refine applyBlock_congr h.skip ?_ fun hne hone => by omega
  rintro t v v1 before op after u ⟨-, txs, rest, -, htxs, -⟩ hsplit - - hu
  refine applyOperation_agrees h fun o ho => ?_
  rw [show u.headBlockNum = s.headBlockNum from congrArg ChainPart.headBlockNumber hu]
  exact hpow ⟨t, by simp [htxs], o, by simp [hsplit, ho]⟩

theorem applyBlock_empty (hskip : env.skip = env'.skip) (hempty : b.transactions = [])
    (hperiod : b.blockNum = 1 ∨ b.blockNum % 302400 ≠ 1) :
    s.applyBlock P env b = s.applyBlock P env' b := by
  refine applyBlock_congr hskip ?_ fun hne hone => by omega
  rintro t v v1 before op after u ⟨-, txs, rest, -, htxs, -⟩
  simp [hempty] at htxs

end Objects

end Xgt
