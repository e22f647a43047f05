import XgtChain.Base.Result

/-!
# Runs

A run of a step relation is indexed by its events, each with the state that it happens in.
-/

namespace Base

open List

variable {σ ε : Type}

/-- A run from the first state, with each event and the state before it. -/
inductive Run (step : σ → ε → σ → Prop) : σ → List (σ × ε) → σ → Prop where
  | nil {s : σ} : Run step s [] s
  | snoc {s0 s s' : σ} {events : List (σ × ε)} {e : ε} (h : Run step s0 events s) (hstep : step s e s') :
      Run step s0 (events ++ [(s, e)]) s'

namespace Run

variable {step : σ → ε → σ → Prop} {s0 s s' : σ} {events events' : List (σ × ε)}

theorem trans (h : Run step s0 events s) (h' : Run step s events' s') :
    Run step s0 (events ++ events') s' := by
  induction h' with
  | nil => rwa [append_nil]
  | snoc _ hstep ih =>
    rw [← append_assoc]
    exact .snoc ih hstep

theorem single {e : ε} (h : step s e s') : Run step s [(s, e)] s' := .snoc .nil h

theorem cons {s1 : σ} {e : ε} (h : step s0 e s1) (hrest : Run step s1 events s) :
    Run step s0 ((s0, e) :: events) s := (single h).trans hrest

theorem mono {step' : σ → ε → σ → Prop} (h : Run step s0 events s) (himp : ∀ s e s', step s e s' →
    step' s e s') :
    Run step' s0 events s := by
  induction h with
  | nil => exact .nil
  | snoc _ hstep ih => exact .snoc ih (himp _ _ _ hstep)

theorem invariant {I : σ → Prop} (h : Run step s0 events s) (h0 : I s0)
    (kept : ∀ {s s' : σ} {e : ε}, (s, e) ∈ events → I s → step s e s' → I s') :
    I s ∧ ∀ event ∈ events, I event.1 := by
  induction h with
  | nil => exact ⟨h0, fun _ hmem => absurd hmem not_mem_nil⟩
  | snoc _ hstep ih =>
    obtain ⟨hs, hevents⟩ := ih fun hmem => kept (mem_append_left _ hmem)
    refine ⟨kept mem_concat_self hs hstep, fun event hmem => ?_⟩
    rcases mem_append.1 hmem with hmem | hmem
    · exact hevents event hmem
    · rwa [mem_singleton.1 hmem]

theorem invariant_iff {I J : σ → Prop} {C : σ × ε → Prop} (h : Run step s0 events s) (h0 : J s0)
    (property : ∀ {s : σ}, J s → I s)
    (kept : ∀ {s s' : σ} {e : ε}, J s → step s e s' → (C (s, e) → J s') ∧ (I s' → C (s, e))) :
    ((∀ event ∈ events, I event.1) ∧ I s) ↔ ∀ event ∈ events, C event := by
  constructor
  · -- `J` holds as long as `I` does
    suffices hboth : (∀ event ∈ events, I event.1) ∧ I s → (∀ event ∈ events, C event) ∧ J s from
      fun hI => (hboth hI).1
    induction h with
    | nil => exact fun _ => ⟨fun _ hmem => absurd hmem not_mem_nil, h0⟩
    | snoc _ hstep ih =>
      rintro ⟨hevents, hs'⟩
      obtain ⟨hC, hJ⟩ := ih ⟨fun event hmem => hevents event (mem_append_left _ hmem),
        hevents _ mem_concat_self⟩
      have hlast := (kept hJ hstep).2 hs'
      refine ⟨fun event hmem => ?_, (kept hJ hstep).1 hlast⟩
      rcases mem_append.1 hmem with hmem | hmem
      · exact hC event hmem
      · rwa [mem_singleton.1 hmem]
  · intro hC
    obtain ⟨hs, hevents⟩ := h.invariant h0 fun hmem hs hstep => (kept hs hstep).1 (hC _ hmem)
    exact ⟨fun event hmem => property (hevents event hmem), property hs⟩

section Total

variable {f : σ → ε → σ}

def states (f : σ → ε → σ) : σ → List ε → List (σ × ε)
  | _, [] => []
  | s, e :: es => (s, e) :: states f (f s e) es

theorem states_append (s : σ) (es es' : List ε) :
    states f s (es ++ es') = states f s es ++ states f (es.foldl f s) es' := by
  induction es generalizing s with
  | nil => rfl
  | cons e es ih => exact congrArg _ (ih (f s e))

theorem of_foldl (s : σ) (es : List ε) :
    Run (fun s e s' => f s e = s') s (states f s es) (es.foldl f s) := by
  induction es generalizing s with
  | nil => exact .nil
  | cons e es ih => exact .cons rfl (ih (f s e))

theorem of_foldl_of_forall {Q : σ × ε → Prop} (s : σ) (es : List ε) (h : ∀ p ∈ states f s es, Q p) :
    Run (fun s e s' => Q (s, e) ∧ f s e = s') s (states f s es) (es.foldl f s) := by
  induction es generalizing s with
  | nil => exact .nil
  | cons e es ih =>
    exact .cons ⟨h _ (.head _), rfl⟩ (ih (f s e) fun p hp => h p (.tail _ hp))

variable {τ δ : Type} {g : τ → δ → τ} {φ : σ → τ} {ι : δ → ε} (hstep : ∀ s e, φ (f s (ι e)) = g (φ s) e)
include hstep

theorem foldl_part (s : σ) (es : List δ) : φ ((es.map ι).foldl f s) = es.foldl g (φ s) := by
  induction es generalizing s with
  | nil => rfl
  | cons e es ih => rw [map_cons, foldl_cons, foldl_cons, ih, hstep]

theorem states_part (s : σ) (es : List δ) :
    ∀ p ∈ states f s (es.map ι), ∃ e, p.2 = ι e ∧ (φ p.1, e) ∈ states g (φ s) es := by
  induction es generalizing s with
  | nil => exact fun p hp => absurd hp not_mem_nil
  | cons e es ih =>
    intro p hp
    rcases mem_cons.1 hp with rfl | hp
    · exact ⟨e, rfl, .head _⟩
    · obtain ⟨e', he', hmem⟩ := ih _ p hp
      exact ⟨e', he', .tail _ (hstep s e ▸ hmem)⟩

end Total

variable {ξ : Type} {f : σ → ε → Except ξ σ}

def trace (f : σ → ε → Except ξ σ) : σ → List ε → List (σ × ε)
  | _, [] => []
  | s, e :: es => (s, e) :: match f s e with
    | .ok s' => trace f s' es
    | .error _ => []

theorem of_foldlM {es : List ε} (h : es.foldlM f s = .ok s') :
    Run (fun s e s' => f s e = .ok s') s (trace f s es) s' := by
  induction es generalizing s with
  | nil =>
    cases h
    exact .nil
  | cons e es ih =>
    obtain ⟨s1, hstep, hrest⟩ := foldlM_cons_ok_iff.1 h
    rw [trace, hstep]
    exact .cons hstep (ih hrest)

end Run

end Base
