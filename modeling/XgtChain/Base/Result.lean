import Mathlib.Data.List.Basic

/-!
# Fallible computations

Rules for functions that return `Except ε α`, so that a proof about such a function peels it apart step by
step and never unfolds the monad.
-/

namespace Base

open List

variable {ε α β σ : Type}
variable {e : ε} {x : Except ε α} {f : α → Except ε β} {b : β}

def ensure (c : Bool) (e : ε) : Except ε Unit :=
  if c then .ok () else .error e

@[simp] theorem ensure_ok_iff {c : Bool} {u : Unit} : ensure c e = .ok u ↔ c = true := by
  cases c <;> simp [ensure]

theorem ensure_ok {p : Prop} [Decidable p] (h : p) : ensure (decide p) e = .ok () :=
  ensure_ok_iff.2 (decide_eq_true h)

theorem of_ensure {p : Prop} [Decidable p] {u : Unit} (h : ensure (decide p) e = .ok u) : p :=
  of_decide_eq_true (ensure_ok_iff.1 h)

@[simp] theorem ensure_error_iff {c : Bool} {e' : ε} : ensure c e = .error e' ↔ c = false ∧ e = e' := by
  cases c <;> simp [ensure]

@[simp] theorem ensure_true (e : ε) : ensure true e = .ok () := rfl

theorem ok_bind (a : α) (f : α → Except ε β) : (.ok a >>= f) = f a := rfl

@[simp] theorem bind_ok_iff : (x >>= f) = .ok b ↔ ∃ a, x = .ok a ∧ f a = .ok b := by
  cases x with
  | error e | ok a => simp [bind, Except.bind]

theorem of_bind (h : (x >>= f) = .ok b) : ∃ a, x = .ok a ∧ f a = .ok b :=
  bind_ok_iff.1 h

theorem bind_ok {a : α} (ha : x = .ok a) (hb : f a = .ok b) : (x >>= f) = .ok b :=
  bind_ok_iff.2 ⟨a, ha, hb⟩

theorem bind_error_iff : (x >>= f) = .error e ↔ x = .error e ∨ ∃ a, x = .ok a ∧ f a = .error e := by
  cases x with
  | error e' | ok a => simp [bind, Except.bind]

theorem map_ok_iff {f : α → β} : x.map f = .ok b ↔ ∃ a, x = .ok a ∧ f a = b := by
  cases x <;> simp [Except.map]

theorem map_error_iff {f : α → β} : x.map f = .error e ↔ x = .error e := by
  cases x <;> simp [Except.map]

theorem bind_congr_of_ok {f g : α → Except ε β} (h : ∀ a, x = .ok a → f a = g a) :
    (x >>= f) = (x >>= g) := by
  cases x with
  | error e => rfl
  | ok a => exact h a rfl

instance decidableExistsOk (x : Except ε α) : Decidable (∃ a, x = .ok a) :=
  match x with
  | .ok a => isTrue ⟨a, rfl⟩
  | .error _ => isFalse fun ⟨_, h⟩ => by cases h

instance decidableForallOk (x : Except ε α) (p : α → Prop) [∀ a, Decidable (p a)] :
    Decidable (∀ a, x = .ok a → p a) :=
  match x with
  | .ok a => decidable_of_iff (p a) ⟨fun h _ ha => (Except.ok.inj ha) ▸ h, fun h => h a rfl⟩
  | .error _ => isTrue fun _ h => by cases h

theorem exists_ok_of_any {p : α → Bool} (h : x.toOption.any p = true) : ∃ a, x = .ok a ∧ p a = true := by
  cases x with
  | error e => cases h
  | ok a => exact ⟨a, rfl, h⟩

def failsWith (x : Except ε α) (p : ε → Bool) : Bool :=
  match x with
  | .ok _ => false
  | .error e => p e

theorem exists_error_of_failsWith {p : ε → Bool} (h : failsWith x p = true) :
    ∃ e, x = .error e ∧ p e = true := by
  cases x with
  | error e => exact ⟨e, rfl, h⟩
  | ok a => cases h

theorem exists_error_of_toOption (h : x.toOption = none) : ∃ e, x = .error e := by
  cases x with
  | error e => exact ⟨e, rfl⟩
  | ok a => cases h

section Loops

variable {f g : σ → α → Except ε σ} {s t : σ} {l : List α} {P : σ → Prop} {bs : List β}

theorem foldlM_cons_ok_iff {a : α} :
    (a :: l).foldlM f s = .ok t ↔ ∃ s', f s a = .ok s' ∧ l.foldlM f s' = .ok t := by
  rw [foldlM_cons, bind_ok_iff]

theorem foldlM_ok_of_step (h : l.foldlM f s = .ok t) (hs : P s)
    (step : ∀ s a s', a ∈ l → P s → f s a = .ok s' → P s') : P t := by
  induction l generalizing s with
  | nil =>
    cases h
    exact hs
  | cons a l ih =>
    obtain ⟨s', hstep, hrest⟩ := foldlM_cons_ok_iff.1 h
    exact ih hrest (step s a s' (.head _) hs hstep) fun u b u' hb =>
      step u b u' (.tail _ hb)

theorem foldlM_ok_image {τ : Type} {φ : σ → τ} {k : τ → α → Except ε τ} (h : l.foldlM f s = .ok t)
    (step : ∀ s a s', a ∈ l → f s a = .ok s' → k (φ s) a = .ok (φ s')) :
    l.foldlM k (φ s) = .ok (φ t) := by
  induction l generalizing s with
  | nil =>
    cases h
    rfl
  | cons a l ih =>
    obtain ⟨s', hstep, hrest⟩ := foldlM_cons_ok_iff.1 h
    exact foldlM_cons_ok_iff.2 ⟨φ s', step s a s' (.head _) hstep, ih hrest fun u b u' hb =>
      step u b u' (.tail _ hb)⟩

theorem foldlM_congr_of_reached
    (same : ∀ before a after u, l = before ++ a :: after → before.foldlM f s = .ok u → f u a = g u a) :
    l.foldlM f s = l.foldlM g s := by
  induction l generalizing s with
  | nil => rfl
  | cons a l ih =>
    rw [foldlM_cons, foldlM_cons, ← same [] a l s rfl rfl]
    refine bind_congr_of_ok fun s' hstep => ih fun before c after u hsplit hreach => ?_
    exact same (a :: before) c after u (by rw [hsplit]; rfl)
      (foldlM_cons_ok_iff.2 ⟨s', hstep, hreach⟩)

theorem foldlM_ok_rel {R : σ → σ → Prop} {s' t' : σ} (h : l.foldlM f s = .ok t)
    (h' : l.foldlM g s' = .ok t') (hs : R s s')
    (step : ∀ u u' a v v', a ∈ l → R u u' → f u a = .ok v → g u' a = .ok v' → R v v') : R t t' := by
  induction l generalizing s s' with
  | nil =>
    cases h
    cases h'
    exact hs
  | cons a l ih =>
    obtain ⟨v, hstep, hrest⟩ := foldlM_cons_ok_iff.1 h
    obtain ⟨v', hstep', hrest'⟩ := foldlM_cons_ok_iff.1 h'
    exact ih hrest hrest' (step s s' a v v' (.head _) hs hstep hstep')
      fun u u' c w w' hc => step u u' c w w' (.tail _ hc)

theorem foldlM_error_of_step {P : ε → Prop} {e : ε} (h : l.foldlM f s = .error e)
    (step : ∀ s a e, a ∈ l → f s a = .error e → P e) : P e := by
  induction l generalizing s with
  | nil => cases h
  | cons a l ih =>
    rw [foldlM_cons] at h
    rcases bind_error_iff.1 h with hstep | ⟨s', -, hrest⟩
    · exact step s a e (.head _) hstep
    · exact ih hrest fun u b e hb => step u b e (.tail _ hb)

theorem forM_ok_iff {f : α → Except ε Unit} {u : Unit} : l.forM f = .ok u ↔ ∀ a ∈ l, f a = .ok () := by
  induction l with
  | nil => simp [List.forM, pure, Except.pure]
  | cons a l ih =>
    change (f a >>= fun _ => l.forM f) = .ok u ↔ _
    rw [bind_ok_iff, forall_mem_cons]
    constructor
    · rintro ⟨⟨⟩, ha, hl⟩
      exact ⟨ha, ih.1 hl⟩
    · rintro ⟨ha, hl⟩
      exact ⟨(), ha, ih.2 hl⟩

theorem mapM_ok_of_forall {f : α → Except ε β} {Q : α → β → Prop} (h : ∀ a ∈ l, ∃ b, f a = .ok b ∧ Q a b) :
    ∃ bs, l.mapM f = .ok bs ∧ (∀ a ∈ l, ∃ b ∈ bs, Q a b) ∧ ∀ b ∈ bs, ∃ a ∈ l, Q a b := by
  induction l with
  | nil => exact ⟨[], rfl, by simp, by simp⟩
  | cons a l ih =>
    obtain ⟨b, hb, hQ⟩ := h a (.head _)
    obtain ⟨bs, hbs, hleft, hright⟩ := ih fun c hc => h c (.tail _ hc)
    refine ⟨b :: bs, ?_, ?_, ?_⟩
    · rw [mapM_cons, hb, hbs]
      rfl
    · rintro c (⟨⟩ | ⟨_, hc⟩)
      · exact ⟨b, .head _, hQ⟩
      · obtain ⟨d, hd, hQd⟩ := hleft c hc
        exact ⟨d, .tail _ hd, hQd⟩
    · rintro d (⟨⟩ | ⟨_, hd⟩)
      · exact ⟨a, .head _, hQ⟩
      · obtain ⟨c, hc, hQc⟩ := hright d hd
        exact ⟨c, .tail _ hc, hQc⟩

theorem mapM_ok_map {f : α → Except ε β} {g : β → α} {Q : β → Prop} (h : l.mapM f = .ok bs)
    (hg : ∀ a ∈ l, ∀ b, f a = .ok b → g b = a ∧ Q b) : bs.map g = l ∧ ∀ b ∈ bs, Q b := by
  induction l generalizing bs with
  | nil =>
    cases h
    exact ⟨rfl, nofun⟩
  | cons a l ih =>
    rw [mapM_cons] at h
    obtain ⟨b, hb, h⟩ := bind_ok_iff.1 h
    obtain ⟨bs, hbs, h⟩ := bind_ok_iff.1 h
    cases h
    obtain ⟨hab, hQ⟩ := hg a (.head _) b hb
    obtain ⟨hmap, hall⟩ := ih hbs fun c hc => hg c (.tail _ hc)
    exact ⟨by rw [map_cons, hab, hmap], forall_mem_cons.2 ⟨hQ, hall⟩⟩

theorem mapM_ok_getLast? {f : α → Except ε β} {a : α} (h : l.mapM f = .ok bs) (ha : l.getLast? = some a) :
    ∃ b, f a = .ok b ∧ bs.getLast? = some b := by
  induction l generalizing bs with
  | nil => cases ha
  | cons c l ih =>
    rw [mapM_cons] at h
    obtain ⟨d, hd, h⟩ := bind_ok_iff.1 h
    obtain ⟨ds, hds, h⟩ := bind_ok_iff.1 h
    cases h
    cases l with
    | nil =>
      cases ha
      cases hds
      exact ⟨d, hd, rfl⟩
    | cons c' l =>
      obtain ⟨b, hb, hlast⟩ := ih hds ha
      refine ⟨b, hb, ?_⟩
      rw [getLast?_cons, hlast]
      rfl

end Loops

section Throws

def after : EStateM.Result ε σ α → σ
  | .ok _ s => s
  | .error _ s => s

variable {x : EStateM ε σ α} {f : α → EStateM ε σ β} {s t : σ}

theorem run_bind_ok_iff {b : β} : (x >>= f) s = .ok b t ↔ ∃ a u, x s = .ok a u ∧ f a u = .ok b t := by
  change EStateM.bind x f s = .ok b t ↔ _
  unfold EStateM.bind
  cases x s with
  | ok a u => simp
  | error e u => simp

theorem run_bind_error_iff {e : ε} :
    (x >>= f) s = .error e t ↔ x s = .error e t ∨ ∃ a u, x s = .ok a u ∧ f a u = .error e t := by
  change EStateM.bind x f s = .error e t ↔ _
  unfold EStateM.bind
  cases x s with
  | ok a u => simp
  | error e u => simp

variable {g : α → EStateM ε σ Unit} {l : List α} {P : σ → Prop}

theorem forM_cons_run_ok_iff {a : α} :
    (a :: l).forM g s = .ok () t ↔ ∃ u, g a s = .ok () u ∧ l.forM g u = .ok () t := by
  change (g a >>= fun _ => l.forM g) s = .ok () t ↔ _
  rw [run_bind_ok_iff]
  exact ⟨fun ⟨_, u, h⟩ => ⟨u, h⟩, fun ⟨u, h⟩ => ⟨(), u, h⟩⟩

theorem forM_run_eq_foldl {h : σ → α → σ} (hrun : l.forM g s = .ok () t)
    (step : ∀ a s s', g a s = .ok () s' → s' = h s a) : t = l.foldl h s := by
  induction l generalizing s with
  | nil =>
    cases hrun
    rfl
  | cons a l ih =>
    obtain ⟨u, hu, hrest⟩ := forM_cons_run_ok_iff.1 hrun
    rw [foldl_cons, ← step a s u hu]
    exact ih hrest

theorem forM_run_error_of_step {e : ε} (hrun : l.forM g s = .error e t) (hs : P s)
    (step : ∀ a s s', a ∈ l → P s → g a s = .ok () s' → P s') :
    ∃ a ∈ l, ∃ u, P u ∧ g a u = .error e t := by
  induction l generalizing s with
  | nil => cases hrun
  | cons a l ih =>
    change (g a >>= fun _ => l.forM g) s = .error e t at hrun
    rcases run_bind_error_iff.1 hrun with hthrow | ⟨⟨⟩, u, hu, hrest⟩
    · exact ⟨a, .head _, s, hs, hthrow⟩
    · obtain ⟨b, hb, hthrow⟩ := ih hrest (step a s u (.head _) hs hu) fun b v v' hb =>
        step b v v' (.tail _ hb)
      exact ⟨b, .tail _ hb, hthrow⟩

end Throws

end Base
