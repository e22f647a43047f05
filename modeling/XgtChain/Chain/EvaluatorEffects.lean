import XgtChain.Chain.Calls

/-!
# What an operation leaves unchanged

How an operation writes authorities, and that the chain properties stay as they are.
-/

namespace Xgt

open Base ObjectIndex

def Objects.frame (s : Objects) : ChainPart × ObjectIndex AccountAuthorityObject :=
  (s.chainPart, s.authorities)

namespace Objects

variable {s s' : Objects} {name : WalletName}

theorem Does.frame (h : Does Call.Plain s s') : s'.frame = s.frame := by
  refine h.lift (R := fun s s' => s'.frame = s.frame) (fun _ => rfl) (fun h h' => h'.trans h) ?_
  intro s s' c hc hrun
  cases hrun <;> first | exact hc.elim | rfl

theorem Does.frame_of_idle (h : Does Call.Idle s s') : s'.frame = s.frame :=
  h.liquid.plain.frame

theorem adjustBalance_frame {delta : Asset} (h : s.adjustBalance name delta = .ok s') : s'.frame = s.frame :=
  (adjustBalance_liquid (List.mem_singleton_self _) h).kind.plain.frame

/-! ## Authorities -/

structure Rows (P : AccountAuthorityObject → Prop) (W : WalletName → Prop) (s s' : Objects) : Prop where
  chainPart : s'.chainPart = s.chainPart
  rows : ∀ a ∈ s'.authorities.objects, a ∈ s.authorities.objects ∨ P a
  kept : ∀ w r, ¬W w → s.findAuthority w = some r → s'.findAuthority w = some r

theorem of_getAuthority {r : Nat × AccountAuthorityObject}
    (h : s.getAuthority name = .ok r) : r ∈ s.authorities.rows ∧ r.2.account = name := by
  have hfind : s.authorities.find? (fun a => a.account = name) = some (r.1, r.2) :=
    getRow_ok_iff.1 h
  exact ⟨(of_find? hfind).1, by simpa using (of_find? hfind).2⟩

section Rows

variable {P : AccountAuthorityObject → Prop} {W : WalletName → Prop} {s'' : Objects}

theorem Rows.of_eq (hchain : s'.chainPart = s.chainPart) (hauths : s'.authorities = s.authorities) :
    Rows P W s s' := by
  refine ⟨hchain, fun a ha => .inl (hauths ▸ ha), fun w r _ hr => ?_⟩
  rw [findAuthority, hauths]
  exact hr

theorem Rows.trans (h : Rows P W s s') (h' : Rows P W s' s'') : Rows P W s s'' :=
  ⟨h'.chainPart.trans h.chainPart, fun a ha => (h'.rows a ha).elim (h.rows a) .inr,
    fun w r hw hr => h'.kept w r hw (h.kept w r hw hr)⟩

theorem createWallet_rows {name : WalletName} {memo : PublicKey} {auth : AccountAuthorityObject} (hP : P auth)
    (h : s.createWallet name memo auth = .ok s') :
    Rows P W s s' ∧ ∀ r ∈ s.authorities.rows, r ∈ s'.authorities.rows := by
  obtain ⟨wallets, auths, -, hnew, rfl⟩ := createWallet_ok h
  refine ⟨⟨rfl, fun a ha => ?_, fun w r _ hr => find?_create? hnew hr⟩, fun r hr => ?_⟩
  · rcases (mem_create? hnew).1 ha with hold | rfl
    · exact .inl hold
    · exact .inr hP
  · rw [create?_eq hnew]
    exact List.mem_append_left _ hr

end Rows

def Rewrites (op : Operation) (w : WalletName) : Prop :=
  match op with
  | .walletUpdate o => w = o.wallet
  | _ => False

variable {cr : Crypto} {env : Env} {op : Operation} {r : Nat × AccountAuthorityObject}

theorem Does.rows (env : Env) (h : Does (Makes cr op) s s') :
    Rows (Writes cr env op) (Rewrites op) s s' ∧
      ∀ r ∈ s.authorities.rows, ¬Rewrites op r.2.account → r ∈ s'.authorities.rows := by
  refine h.lift (R := fun s s' => Rows (Writes cr env op) (Rewrites op) s s' ∧
    ∀ r ∈ s.authorities.rows, ¬Rewrites op r.2.account → r ∈ s'.authorities.rows)
    (fun _ => ⟨.of_eq rfl rfl, fun _ hr _ => hr⟩)
    (fun h h' => ⟨h.1.trans h'.1, fun r hr hw => h'.2 r (h.2 r hr hw) hw⟩) ?_
  intro s s' c hc hrun
  obtain ⟨-, ⟨-, hupdates⟩, hof⟩ := hc
  cases hrun with
  | authority hrun =>
    obtain ⟨o, rfl⟩ := hupdates rfl
    cases hrun with
    | @modify id old a _ t hrow hmod _ =>
      obtain ⟨hname, haccount⟩ := hof
      have hname : old.account = o.wallet := List.mem_singleton.1 hname
      refine ⟨⟨rfl, fun b hb => ?_, fun w r hw hr => ?_⟩, fun r hr hw => ?_⟩
      · rcases of_mem_modify? hmod hb with hold | rfl
        · exact .inl hold
        · exact .inr (haccount.trans hname)
      · have hne : old.account ≠ w := fun heq => hw (heq ▸ hname)
        rw [← hr]
        exact find?_modify?_other hmod hrow (by simp [hne]) (by simp [haccount, hne])
      · rw [modify?_eq hmod]
        refine mem_set_of_ne hr fun hid => hw ?_
        rw [eq_of_mem hr hrow hid]
        exact hname
    | _ => exact hof.elim
  | dgp f => exact ⟨.of_eq (hof _) rfl, fun _ hr _ => hr⟩
  | blockSummary => exact hof.elim
  | _ => exact ⟨.of_eq rfl rfl, fun _ hr _ => hr⟩

theorem Creates.rows {u u' : Objects} (h : Creates cr env op s u u') :
    Rows (Writes cr env op) (Rewrites op) u u' ∧ ∀ r ∈ u.authorities.rows, r ∈ u'.authorities.rows := by
  cases h with
  | none => exact ⟨.of_eq rfl rfl, fun _ hr => hr⟩
  | some _ _ _ hauth hnew => exact createWallet_rows hauth hnew

variable (h : s.applyOperation cr env op = .ok s')
include h

theorem applyOperation_rows : Rows (Writes cr env op) (Rewrites op) s s' := by
  obtain ⟨u, u', hbefore, hcreates, hafter⟩ := applyOperation_parts h
  exact ((hbefore.rows env).1.trans hcreates.rows.1).trans (hafter.rows env).1

theorem applyOperation_keptRow (hr : r ∈ s.authorities.rows)
    (hw : ¬Rewrites op r.2.account) : r ∈ s'.authorities.rows := by
  obtain ⟨u, u', hbefore, hcreates, hafter⟩ := applyOperation_parts h
  have hkept := (hbefore.rows env).2 r hr hw
  exact (hafter.rows env).2 r (hcreates.rows.2 r hkept) hw

end Objects

end Xgt
