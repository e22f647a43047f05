import XgtChain.Base.Run
import XgtChain.Chain.Tokens

/-!
# The pool of identifiers for tokens

A token is created under an identifier of the pool, which is filled again from a generator: a function
from seeds to identifiers.
-/

namespace Xgt

open Base NaiPoolObject List Nat Option
open scoped List

variable (p : NaiPoolObject) (sym : AssetSymbol)

def NaiPoolObject.pool : List AssetSymbol := p.nais.take p.numAvailableNais

def NaiPoolObject.seed : Nat := (p.lastBlockId.hash % 2 ^ 32 + p.attemptsPerBlock) % 2 ^ 32

def NaiPoolObject.Done : Prop := 10 ≤ p.numAvailableNais ∨ 100 ≤ p.collisionsPerBlock

instance (p : NaiPoolObject) : Decidable p.Done := inferInstanceAs (Decidable (_ ∨ _))

def NaiPoolObject.collide : NaiPoolObject :=
  { p with attemptsPerBlock := p.attemptsPerBlock + 1, collisionsPerBlock := p.collisionsPerBlock + 1 }

def NaiPoolObject.place : NaiPoolObject :=
  { p with attemptsPerBlock := p.attemptsPerBlock + 1, nais := p.nais.set p.numAvailableNais sym,
           numAvailableNais := p.numAvailableNais + 1 }

theorem NaiPoolObject.pool_place {p : NaiPoolObject} (h : p.numAvailableNais < p.nais.length) :
    (p.place sym).pool = p.pool ++ [sym] := by
  simp only [pool, place]
  rw [take_add_one, take_set_of_le le_rfl, getElem?_set_self h]
  rfl

namespace Objects

variable (gen : Nat → Nai) (s : Objects)
variable {β : Type} {r : β}

/-! ## Lookups of tokens -/

def hasNai (n : Nai) : Bool := s.xttTokens.rows.any fun r => r.2.liquidSymbol.assetNum / 32 = n.digits

variable {s} {key : β → Nat} {rows : List β} {bound : Nat} {sym}

def lower {β : Type} (key : β → Nat) (bound : Nat) (best : Option β) (r : β) : Option β :=
  if key r < bound then best
  else match best with
    | none => some r
    | some b => if key r < key b then some r else some b

theorem lower_le (key : β → Nat) (bound : Nat) {best : Option β} {b : β} (hb : b ∈ best) :
    ∃ b' ∈ lower key bound best r, key b' ≤ key b := by
  cases hb
  unfold lower
  split_ifs with hlow
  · exact ⟨b, rfl, le_rfl⟩
  · by_cases hlt : key r < key b
    · exact ⟨r, if_pos hlt, hlt.le⟩
    · exact ⟨b, if_neg hlt, le_rfl⟩

theorem lower_le_self (best : Option β) (hr : bound ≤ key r) :
    ∃ b ∈ lower key bound best r, key b ≤ key r := by
  unfold lower
  rw [if_neg (not_lt.2 hr)]
  cases best with
  | none => exact ⟨r, rfl, le_rfl⟩
  | some b =>
    by_cases hlt : key r < key b
    · exact ⟨r, if_pos hlt, le_rfl⟩
    · exact ⟨b, if_neg hlt, not_lt.1 hlt⟩

theorem foldl_lower (key : β → Nat) (bound : Nat) (best : Option β)
    (hr : r ∈ best ∨ r ∈ rows ∧ bound ≤ key r) :
    ∃ b ∈ rows.foldl (lower key bound) best, key b ≤ key r := by
  induction rows generalizing best r with
  | nil => exact hr.elim (fun hr => ⟨r, hr, le_rfl⟩) fun hr => absurd hr.1 not_mem_nil
  | cons r' rows ih =>
    have step : ∀ {b}, b ∈ lower key bound best r' → key b ≤ key r →
        ∃ b' ∈ rows.foldl (lower key bound) (lower key bound best r'), key b' ≤ key r := by
      intro b hb hle
      obtain ⟨b', hb', hle'⟩ := ih _ (.inl hb)
      exact ⟨b', hb', hle'.trans hle⟩
    rcases hr with hr | ⟨hr, hbound⟩
    · obtain ⟨b, hb, hle⟩ := lower_le key bound (r := r') hr
      exact step hb hle
    · rcases mem_cons.1 hr with rfl | hr
      · obtain ⟨b, hb, hle⟩ := lower_le_self best hbound
        exact step hb hle
      · exact ih _ (.inr ⟨hr, hbound⟩)

theorem bound_le_of_foldl_lower (hr : r ∈ rows.foldl (lower key bound) none) : bound ≤ key r := by
  refine foldlRecOn (motive := fun best : Option β => ∀ r ∈ best, bound ≤ key r) rows _
    (fun _ h => absurd h (not_mem_none _)) ?_ r hr
  intro best hbest r _ b hb
  unfold lower at hb
  split_ifs at hb with hlow
  · exact hbest b hb
  · split at hb
    · cases hb
      exact not_lt.1 hlow
    · split_ifs at hb <;> cases hb
      · exact not_lt.1 hlow
      · exact hbest _ rfl

theorem mem_of_foldl_lower (h : r ∈ rows.foldl (lower key bound) none) : r ∈ rows := by
  refine foldlRecOn (motive := fun best : Option β => ∀ r ∈ best, r ∈ rows) rows _
    (fun _ h => absurd h (not_mem_none _)) ?_ r h
  intro best hbest a ha b hb
  unfold lower at hb
  split_ifs at hb
  · exact hbest b hb
  · cases best with
    | none => exact some.inj hb ▸ ha
    | some c =>
      dsimp only at hb
      split_ifs at hb
      · exact some.inj hb ▸ ha
      · exact hbest b hb

def lowestToken (s : Objects) (sym : AssetSymbol) : Option (Nat × XttTokenObject) :=
  (s.xttTokens.rows.foldl
    (lower (fun r => r.2.liquidSymbol.assetNum) (sym.assetNum / 32 * 32 + 16)) none).filter
      fun r => r.2.liquidSymbol.assetNum / 32 = sym.assetNum / 32

theorem findTokenAgnostic_lower (s : Objects) (sym : AssetSymbol) :
    s.findTokenAgnostic sym =
      (fcAssert (1 ≤ sym.assetNum / 32 ∧ sym.assetNum / 32 ≤ 99999999) "NAI out of range" >>= fun _ =>
        fcAssert (sym.assetNum / 32 ≠ 2) "decimal_places == XGT_PRECISION_XGT" >>= fun _ =>
          pure (s.lowestToken sym)) := by
  unfold findTokenAgnostic lowestToken
  refine congrArg _ (funext fun _ => congrArg _ (funext fun _ => congrArg pure ?_))
  congr 2
  funext best r
  cases best <;> rfl

theorem of_lowestToken {r : Nat × XttTokenObject} (h : s.lowestToken sym = some r) :
    r ∈ s.xttTokens.rows ∧ r.2.liquidSymbol.assetNum / 32 = sym.assetNum / 32 := by
  obtain ⟨hr, hsym⟩ := filter_eq_some_iff.1 h
  exact ⟨mem_of_foldl_lower hr, of_decide_eq_true hsym⟩

theorem lowestToken_of_mem {r : Nat × XttTokenObject} (hr : r ∈ s.xttTokens.rows)
    (hcontrol : r.2.liquidSymbol.assetNum / 16 % 2 = 1)
    (hsym : r.2.liquidSymbol.assetNum / 32 = sym.assetNum / 32) : ∃ b, s.lowestToken sym = some b := by
  obtain ⟨b, hb, hle⟩ := foldl_lower (fun r : Nat × XttTokenObject => r.2.liquidSymbol.assetNum)
    (sym.assetNum / 32 * 32 + 16) none (.inr ⟨hr, by omega⟩)
  have hbound := bound_le_of_foldl_lower hb
  exact ⟨b, filter_eq_some_iff.2 ⟨hb, decide_eq_true (by omega)⟩⟩

/-- Every token's symbol has its control bit. -/
abbrev ControlBits (s : Objects) : Prop := ∀ r ∈ s.xttTokens.rows, r.2.liquidSymbol.assetNum / 16 % 2 = 1

theorem findTokenAgnostic_nai (hs : s.ControlBits) (n : Nai) :
    ∃ token, s.findTokenAgnostic n.symbol = .ok token ∧ token.isSome = s.hasNai n := by
  have hdigits : n.symbol.assetNum / 32 = n.digits := by
    simp only [Nai.symbol]
    omega
  rw [findTokenAgnostic_lower, hdigits]
  refine ⟨_, bind_ok (fcAssert_ok n.inRange)
    (bind_ok (fcAssert_ok n.notXgt) rfl), ?_⟩
  rw [Bool.eq_iff_iff, isSome_iff_exists]
  constructor
  · rintro ⟨r, hr⟩
    obtain ⟨hr, hsym⟩ := of_lowestToken hr
    exact any_eq_true.2 ⟨r, hr, decide_eq_true (hsym.trans hdigits)⟩
  · intro hhas
    obtain ⟨r, hr, hn⟩ := any_eq_true.1 hhas
    exact lowestToken_of_mem hr (hs r hr) ((of_decide_eq_true hn).trans hdigits.symm)

theorem take_swap_perm {α : Type} {l : List α} {n i : Nat} (hn : n < l.length) (hi : i ≤ n) (a b : α) :
    (((l.set i a).set i ((l.set i a).getD n b)).set n ((l.set i a).getD i b)).take n ~
      (l.take (n + 1)).eraseIdx i := by
  have hlast : l.take (n + 1) = l.take n ++ [l.get ⟨n, hn⟩] := by
    rw [take_add_one, getElem?_eq_getElem hn]
    rfl
  have hlength : (l.take n).length = n := length_take_of_le hn.le
  rw [take_set_of_le le_rfl, set_set, take_set, hlast]
  rcases Nat.lt_or_eq_of_le hi with hlt | rfl
  · have hget : (l.set i a).getD n b = l.get ⟨n, hn⟩ := by
      simp [getD_eq_getElem?_getD, getElem?_set_ne hlt.ne, getElem?_eq_getElem hn]
    rw [hget, eraseIdx_append_of_lt_length (hlt.trans_eq hlength.symm)]
    exact (set_perm_cons_eraseIdx (hlt.trans_eq hlength.symm) _).trans
      (perm_append_singleton _ _).symm
  · rw [set_eq_of_length_le hlength.le, eraseIdx_append_of_length_le hlength.le, hlength,
      Nat.sub_self]
    simp

theorem pool_removeFromNaiPool (sym : AssetSymbol) (hnum : s.naiPool.numAvailableNais ≤ s.naiPool.nais.length) :
    (s.removeFromNaiPool sym).naiPool.pool ~ s.naiPool.pool.erase (strippedSymbol sym) := by
  have hlength : s.naiPool.pool.length = s.naiPool.numAvailableNais := length_take_of_le hnum
  unfold removeFromNaiPool
  dsimp only
  split_ifs with hindex
  · have hsucc : s.naiPool.numAvailableNais - 1 + 1 = s.naiPool.numAvailableNais := by omega
    rw [erase_eq_eraseIdx_of_idxOf rfl]
    have hperm := take_swap_perm (l := s.naiPool.nais) (n := s.naiPool.numAvailableNais - 1)
      (by omega) (le_sub_one_of_lt hindex) ⟨0⟩ ⟨0⟩
    rwa [hsucc] at hperm
  · rw [erase_of_not_mem]
    intro hmem
    exact hindex ((idxOf_lt_length_iff.2 hmem).trans_eq hlength)

/-! ## Refills -/

variable (s) in
def naiDraws (word : Nat) : Nat → Nat → Nat → Nat → List Nai
  | 0, _, _, _ => []
  | fuel + 1, room, tries, attempts =>
    if room = 0 ∨ tries = 0 then []
    else
      let n := gen ((word + attempts) % 2 ^ 32)
      n :: if s.hasNai n then naiDraws word fuel room (tries - 1) (attempts + 1)
        else naiDraws word fuel (room - 1) tries (attempts + 1)

def drawsFrom (s : Objects) (fuel : Nat) (p : NaiPoolObject) : List Nai :=
  s.naiDraws gen (p.lastBlockId.hash % 2 ^ 32) fuel (10 - p.numAvailableNais) (100 - p.collisionsPerBlock)
    p.attemptsPerBlock

variable (s) in
def freeNais (draws : List Nai) : List AssetSymbol := (draws.filter fun n => !s.hasNai n).map Nai.symbol

variable (s) in
def collisions (draws : List Nai) : Nat := draws.countP s.hasNai

variable {gen} {p} {p' : NaiPoolObject} {n : Nai} {draws : List Nai} {fuel : Nat}

theorem drawsFrom_succ :
    s.drawsFrom gen (fuel + 1) p = if p.Done then [] else
      gen p.seed :: if s.hasNai (gen p.seed) then s.drawsFrom gen fuel p.collide
        else s.drawsFrom gen fuel (p.place (gen p.seed).symbol) := by
  rw [drawsFrom, naiDraws]
  simp only [Nat.sub_eq_zero_iff_le, Nat.sub_sub]
  rfl

theorem refillNaisWith_succ (fuel : Nat) (hs : s.ControlBits)
    (hlength : p.nais.length = 10) :
    s.refillNaisWith gen (fuel + 1) p = if p.Done then .ok p
      else if s.hasNai (gen p.seed) then s.refillNaisWith gen fuel p.collide
      else s.refillNaisWith gen fuel (p.place (gen p.seed).symbol) := by
  rw [refillNaisWith]
  by_cases hdone : p.Done
  · rw [if_pos hdone]
    exact if_pos hdone
  · rw [if_neg hdone]
    refine (if_neg hdone).trans ?_
    dsimp only
    change s.findTokenAgnostic (gen p.seed).symbol >>= _ = _
    obtain ⟨token, htoken, hsome⟩ := findTokenAgnostic_nai hs (gen p.seed)
    have hfound : (p.nais.take p.numAvailableNais).idxOf (gen p.seed).symbol ≠ p.nais.length := by
      have hle := idxOf_le_length (l := p.nais.take p.numAvailableNais) (a := (gen p.seed).symbol)
      rw [length_take] at hle
      unfold Done at hdone
      omega
    rw [htoken, ← hsome]
    change (if token.isNone = true ∧ _ then _ else _) = _
    cases token with
    | none => exact if_pos ⟨rfl, hfound⟩
    | some t => rfl

structure Refilled (s : Objects) (p p' : NaiPoolObject) (draws : List Nai) : Prop where
  pool : p'.pool = p.pool ++ s.freeNais draws
  collisions : p'.collisionsPerBlock = p.collisionsPerBlock + s.collisions draws
  lastBlockId : p'.lastBlockId = p.lastBlockId
  length : p'.nais.length = 10
  num : p'.numAvailableNais ≤ 10
  few : p'.collisionsPerBlock ≤ 100

theorem Refilled.of_collide (h : Refilled s p.collide p' draws) (hn : s.hasNai n = true) :
    Refilled s p p' (n :: draws) := by
  refine ⟨?_, ?_, h.lastBlockId, h.length, h.num, h.few⟩
  · rw [h.pool, freeNais, freeNais, filter_cons_of_neg (by simp [hn])]
    rfl
  · rw [h.collisions, Objects.collisions, Objects.collisions, countP_cons_of_pos hn]
    exact add_right_comm ..

theorem Refilled.of_place (h : Refilled s (p.place n.symbol) p' draws) (hn : s.hasNai n = false)
    (hroom : p.numAvailableNais < p.nais.length) : Refilled s p p' (n :: draws) := by
  refine ⟨?_, ?_, h.lastBlockId, h.length, h.num, h.few⟩
  · rw [h.pool, pool_place _ hroom, freeNais, freeNais, filter_cons_of_pos (by simp [hn]),
      map_cons, append_assoc]
    rfl
  · rw [h.collisions, Objects.collisions, Objects.collisions, countP_cons_of_neg (by simp [hn])]
    rfl

theorem refillNaisWith_spec (gen : Nat → Nai) (hs : s.ControlBits)
    (fuel : Nat) (hlength : p.nais.length = 10) (hnum : p.numAvailableNais ≤ 10)
    (hfew : p.collisionsPerBlock ≤ 100) :
    ∃ p', s.refillNaisWith gen fuel p = .ok p' ∧ Refilled s p p' (s.drawsFrom gen fuel p) := by
  have idle : Refilled s p p [] := ⟨(append_nil _).symm, rfl, rfl, hlength, hnum, hfew⟩
  induction fuel generalizing p with
  | zero => exact ⟨p, rfl, idle⟩
  | succ fuel ih =>
    rw [refillNaisWith_succ _ hs hlength, drawsFrom_succ]
    by_cases hdone : p.Done
    · rw [if_pos hdone, if_pos hdone]
      exact ⟨p, rfl, idle⟩
    · rw [if_neg hdone, if_neg hdone]
      obtain ⟨hroom, htries⟩ := not_or.1 hdone
      have hroom := not_le.1 hroom
      by_cases hn : s.hasNai (gen p.seed)
      · rw [if_pos hn, if_pos hn]
        obtain ⟨p', hp', hrefilled⟩ := ih (p := p.collide) hlength hnum (not_le.1 htries)
          ⟨(append_nil _).symm, rfl, rfl, hlength, hnum, not_le.1 htries⟩
        exact ⟨p', hp', hrefilled.of_collide hn⟩
      · rw [if_neg hn, if_neg hn]
        have hset : (p.place (gen p.seed).symbol).nais.length = 10 := (length_set ..).trans hlength
        obtain ⟨p', hp', hrefilled⟩ := ih (p := p.place (gen p.seed).symbol) hset hroom hfew
          ⟨(append_nil _).symm, rfl, rfl, hset, hroom, hfew⟩
        exact ⟨p', hp', hrefilled.of_place (eq_false_of_ne_true hn) (hroom.trans_eq hlength.symm)⟩

theorem refillNaisWith_done (hs : s.ControlBits)
    (hlength : p.nais.length = 10)
    (hfuel : (10 - p.numAvailableNais) + (100 - p.collisionsPerBlock) ≤ fuel) :
    s.refillNaisWith gen (fuel + 1) p = s.refillNaisWith gen fuel p ∧
      ∀ p', s.refillNaisWith gen fuel p = .ok p' → p'.Done := by
  induction fuel generalizing p with
  | zero =>
    have hdone : p.Done := by
      unfold Done
      omega
    rw [refillNaisWith_succ _ hs hlength, if_pos hdone]
    refine ⟨rfl, ?_⟩
    rintro _ ⟨⟩
    exact hdone
  | succ fuel ih =>
    rw [refillNaisWith_succ _ hs hlength, refillNaisWith_succ fuel hs hlength]
    by_cases hdone : p.Done
    · rw [if_pos hdone, if_pos hdone]
      refine ⟨rfl, ?_⟩
      rintro _ ⟨⟩
      exact hdone
    · rw [if_neg hdone, if_neg hdone]
      obtain ⟨hroom, htries⟩ := not_or.1 hdone
      split_ifs
      · refine ih (p := p.collide) hlength ?_
        simp only [collide]
        omega
      · refine ih ((length_set ..).trans hlength) ?_
        simp only [place]
        omega

/-! ## Runs -/

inductive NaiEvent where
  | create (o : XttCreateOperation)
  | refill
  | block (id : BlockId)

variable (gen) in
def applyNaiEvent (s : Objects) : NaiEvent → Result Objects
  | .create o => do
    o.validate
    s.createXtt o
  | .refill => s.replenishNaiPoolWith gen
  | .block id => pure { s with dgp := { s.dgp with headBlockId := id } }

variable (gen) in
/-- A run of the events that touch the pool. -/
abbrev NaiRun : Objects → List (Objects × NaiEvent) → Objects → Prop :=
  Run fun s e s' => s.applyNaiEvent gen e = .ok s'

variable (gen) in
def refillDraws (s : Objects) : List Nai := s.drawsFrom gen 110 s.currentNaiPool

/-- The pool has no symbol twice, and none of a token. -/
structure NaisSound (s : Objects) : Prop where
  nodup : s.naiPool.pool.Nodup
  free : ∀ sym ∈ s.naiPool.pool, ∀ r ∈ s.xttTokens.rows, r.2.liquidSymbol.assetNum / 32 ≠ sym.assetNum / 32

variable (gen) in
/-- A refill draws only symbols that are new. -/
def DrawsNew : Objects × NaiEvent → Prop
  | (s, .refill) => (s.freeNais (s.refillDraws gen)).Nodup ∧
      ∀ sym ∈ s.freeNais (s.refillDraws gen), sym ∉ s.naiPool.pool
  | _ => True

structure NaisFormed (s : Objects) : Prop where
  length : s.naiPool.nais.length = 10
  num : s.naiPool.numAvailableNais ≤ 10
  few : s.naiPool.collisionsPerBlock ≤ 100
  pool : ∀ sym ∈ s.naiPool.pool, ∃ n : Nai, sym = n.symbol
  tokens : s.ControlBits

variable (s) in
def collisionsOfBlock : Nat := s.currentNaiPool.collisionsPerBlock

theorem currentNaiPool_nais : s.currentNaiPool.nais = s.naiPool.nais := by
  unfold currentNaiPool
  split_ifs <;> rfl

theorem currentNaiPool_num : s.currentNaiPool.numAvailableNais = s.naiPool.numAvailableNais := by
  unfold currentNaiPool
  split_ifs <;> rfl

theorem currentNaiPool_pool : s.currentNaiPool.pool = s.naiPool.pool := by
  rw [pool, currentNaiPool_nais, currentNaiPool_num]
  rfl

theorem currentNaiPool_lastBlockId : s.currentNaiPool.lastBlockId = s.headBlockId := by
  unfold currentNaiPool
  split_ifs with hnew
  · rfl
  · exact not_not.1 hnew

theorem NaisFormed.collisionsOfBlock_le (h : s.NaisFormed) : s.collisionsOfBlock ≤ 100 := by
  unfold collisionsOfBlock currentNaiPool
  split_ifs
  · exact zero_le _
  · exact h.few

theorem NaisFormed.replenish (h : s.NaisFormed) (gen : Nat → Nai) :
    ∃ p, s.replenishNaiPoolWith gen = .ok { s with naiPool := p } ∧
      p.pool = s.naiPool.pool ++ s.freeNais (s.refillDraws gen) ∧
      { s with naiPool := p }.NaisFormed ∧
      { s with naiPool := p }.collisionsOfBlock = s.collisionsOfBlock + s.collisions (s.refillDraws gen) := by
  unfold replenishNaiPoolWith
  by_cases htries : s.currentNaiPool.collisionsPerBlock < 100
  · rw [if_pos htries]
    obtain ⟨p, hp, hrefilled⟩ := refillNaisWith_spec gen h.tokens 110
      (currentNaiPool_nais (s := s) ▸ h.length) (currentNaiPool_num (s := s) ▸ h.num) htries.le
    have hpool : p.pool = s.naiPool.pool ++ s.freeNais (s.refillDraws gen) := by
      rw [hrefilled.pool, currentNaiPool_pool]
      rfl
    refine ⟨p, bind_ok hp rfl, hpool,
      ⟨hrefilled.length, hrefilled.num, hrefilled.few, fun sym hsym => ?_, h.tokens⟩, ?_⟩
    · rcases mem_append.1 (hpool ▸ hsym) with hsym | hsym
      · exact h.pool sym hsym
      · obtain ⟨n, -, hn⟩ := mem_map.1 hsym
        exact ⟨n, hn.symm⟩
    · have hcurrent : { s with naiPool := p }.currentNaiPool = p :=
        if_neg (not_not.2 (hrefilled.lastBlockId.trans currentNaiPool_lastBlockId))
      rw [collisionsOfBlock, hcurrent, hrefilled.collisions]
      rfl
  · have hnone : s.refillDraws gen = [] := by
      rw [refillDraws, drawsFrom_succ]
      exact if_pos (.inr (not_lt.1 htries))
    rw [if_neg htries, hnone]
    exact ⟨s.naiPool, rfl, (append_nil _).symm, h, rfl⟩

theorem createXtt_pool {o : XttCreateOperation} (hvalid : o.validate = .ok ()) (h : s.createXtt o = .ok s') :
    s'.naiPool = (s.removeFromNaiPool o.symbol).naiPool ∧ s'.headBlockId = s.headBlockId ∧
      ∀ r ∈ s'.xttTokens.rows, r ∈ s.xttTokens.rows ∨ r.2.liquidSymbol = o.symbol := by
  have alike : ∀ {t t' : Objects}, t.naiPool = t'.naiPool →
      (t.removeFromNaiPool o.symbol).naiPool = (t'.removeFromNaiPool o.symbol).naiPool := by
    intro t t' heq
    unfold removeFromNaiPool
    rw [heq]
    dsimp only
    split_ifs
    · rfl
    · exact heq
  obtain ⟨token, s1, tokens, htoken, hpaid, hnew, rfl⟩ := createXtt_ok h
  obtain ⟨pool, hremoved⟩ := removeFromNaiPool_eq { s1 with xttTokens := tokens } o.symbol
  have hsub : s1.naiPool = s.naiPool ∧ s1.headBlockId = s.headBlockId ∧
      ∀ r ∈ s1.xttTokens.rows, r ∈ s.xttTokens.rows := by
    rcases payOrResetXtt_ok hpaid with ⟨-, -, s2, hspent, hnull⟩ | ⟨t, -, -, rfl⟩
    · obtain ⟨_, rfl⟩ := adjustBalance_xgt hspent (of_xttCreate_validate hvalid).2
      obtain ⟨_, rfl⟩ := adjustBalance_xgt hnull (of_xttCreate_validate hvalid).2
      exact ⟨rfl, rfl, fun r hr => hr⟩
    · exact ⟨rfl, rfl, fun r hr => mem_of_mem_filter hr⟩
  obtain ⟨hpool, hhead, hrows⟩ := hsub
  refine ⟨alike hpool, ?_, fun r hr => ?_⟩
  · rw [hremoved]
    exact hhead
  rw [hremoved, show Objects.xttTokens _ = tokens from rfl, ObjectIndex.create?_eq hnew] at hr
  rcases mem_append.1 hr with hr | hr
  · exact .inl (hrows r hr)
  · rw [mem_singleton.1 hr]
    exact .inr rfl

theorem removeFromNaiPool_counters (sym : AssetSymbol) :
    (s.removeFromNaiPool sym).naiPool.nais.length = s.naiPool.nais.length ∧
      (s.removeFromNaiPool sym).naiPool.numAvailableNais ≤ s.naiPool.numAvailableNais ∧
      (s.removeFromNaiPool sym).naiPool.collisionsPerBlock = s.naiPool.collisionsPerBlock ∧
      (s.removeFromNaiPool sym).naiPool.lastBlockId = s.naiPool.lastBlockId := by
  unfold removeFromNaiPool
  dsimp only
  split_ifs
  · exact ⟨by simp only [length_set], sub_le _ _, rfl, rfl⟩
  · exact ⟨rfl, le_rfl, rfl, rfl⟩

section Steps

variable {o : XttCreateOperation} {e : NaiEvent}

theorem NaisFormed.create (h : s.NaisFormed) (hvalid : o.validate = .ok ()) (hok : s.createXtt o = .ok s') :
    s'.NaisFormed ∧ s'.naiPool.pool ~ s.naiPool.pool.erase (strippedSymbol o.symbol) ∧
      s'.collisionsOfBlock = s.collisionsOfBlock := by
  obtain ⟨hpool, hhead, hrows⟩ := createXtt_pool hvalid hok
  obtain ⟨hlength, hnum, hfew, hlast⟩ := removeFromNaiPool_counters (s := s) o.symbol
  have hperm := pool_removeFromNaiPool o.symbol (h.num.trans_eq h.length.symm)
  rw [← hpool] at hlength hnum hfew hlast hperm
  refine ⟨⟨hlength.trans h.length, hnum.trans h.num, hfew.trans_le h.few,
    fun sym hsym => h.pool sym (mem_of_mem_erase (hperm.mem_iff.1 hsym)), fun r hr => ?_⟩, hperm, ?_⟩
  · rcases hrows r hr with hr | hr
    · exact h.tokens r hr
    · rw [hr]
      exact (of_xttCreate_validate hvalid).1
  · unfold collisionsOfBlock currentNaiPool
    rw [hlast, hhead]
    split_ifs
    · rfl
    · exact hfew

theorem NaisSound.create (h : s.NaisSound) (hformed : s.NaisFormed) (hvalid : o.validate = .ok ())
    (hok : s.createXtt o = .ok s') : s'.NaisSound := by
  obtain ⟨-, -, hrows⟩ := createXtt_pool hvalid hok
  obtain ⟨-, hperm, -⟩ := hformed.create hvalid hok
  refine ⟨hperm.nodup_iff.2 (h.nodup.erase _), fun sym hsym r hr => ?_⟩
  have hsym := hperm.mem_iff.1 hsym
  have hmem := mem_of_mem_erase hsym
  rcases hrows r hr with hr | hr
  · exact h.free sym hmem r hr
  · obtain ⟨n, rfl⟩ := hformed.pool sym hmem
    have hcontrol := (of_xttCreate_validate hvalid).1
    intro hsame
    -- the entry with the token's identifier is the one that was removed
    have hstripped : n.symbol = strippedSymbol o.symbol := by
      rw [hr] at hsame
      simp only [Nai.symbol, strippedSymbol, AssetSymbol.mk.injEq] at hsame ⊢
      omega
    rw [hstripped] at hsym
    exact h.nodup.not_mem_erase hsym

theorem freeNais_free {draws : List Nai} {sym : AssetSymbol} (h : sym ∈ s.freeNais draws)
    {r : Nat × XttTokenObject} (hr : r ∈ s.xttTokens.rows) : r.2.liquidSymbol.assetNum / 32 ≠
      sym.assetNum / 32 := by
  obtain ⟨n, hn, rfl⟩ := mem_map.1 h
  have hnone := (mem_filter.1 hn).2
  intro hsame
  have hdigits : n.symbol.assetNum / 32 = n.digits := by
    simp only [Nai.symbol]
    omega
  have hhas : s.hasNai n = true := any_eq_true.2 ⟨r, hr, decide_eq_true (hsame.trans hdigits)⟩
  rw [hhas] at hnone
  exact Bool.false_ne_true hnone

theorem NaisFormed.step (h : s.NaisFormed) (hstep : s.applyNaiEvent gen e = .ok s') : s'.NaisFormed := by
  cases e with
  | create o =>
    obtain ⟨_, hvalid, hok⟩ := of_bind hstep
    exact (h.create hvalid hok).1
  | refill =>
    obtain ⟨p, hp, -, hformed, -⟩ := h.replenish gen
    cases hp.symm.trans hstep
    exact hformed
  | block id =>
    cases hstep
    exact ⟨h.length, h.num, h.few, h.pool, h.tokens⟩

theorem NaisSound.step (h : s.NaisSound) (hformed : s.NaisFormed) (hstep : s.applyNaiEvent gen e = .ok s') :
    s'.NaisSound ↔ DrawsNew gen (s, e) := by
  cases e with
  | create o =>
    obtain ⟨_, hvalid, hok⟩ := of_bind hstep
    exact ⟨fun _ => trivial, fun _ => h.create hformed hvalid hok⟩
  | refill =>
    obtain ⟨p, hp, hpool, -⟩ := hformed.replenish gen
    cases hp.symm.trans hstep
    refine ⟨fun hsound => ?_, fun hnew => ⟨?_, fun sym hsym r hr => ?_⟩⟩
    · have hnodup := hsound.nodup
      rw [hpool] at hnodup
      obtain ⟨-, hnew, hdisjoint⟩ := nodup_append.1 hnodup
      exact ⟨hnew, fun sym hsym hmem => hdisjoint sym hmem sym hsym rfl⟩
    · change p.pool.Nodup
      rw [hpool]
      exact nodup_append.2 ⟨h.nodup, hnew.1, fun sym hsym sym' hsym' heq => hnew.2 sym' hsym' (heq ▸ hsym)⟩
    · rcases mem_append.1 (hpool ▸ hsym) with hsym | hsym
      · exact h.free sym hsym r hr
      · exact freeNais_free hsym hr
  | block id =>
    cases hstep
    exact ⟨fun _ => trivial, fun _ => ⟨h.nodup, h.free⟩⟩

variable (gen) in
def eventCollisions : Objects × NaiEvent → Nat
  | (s, .refill) => s.collisions (s.refillDraws gen)
  | _ => 0

theorem NaisFormed.collisions_step {e : NaiEvent} (h : s.NaisFormed) (hstep : s.applyNaiEvent gen e = .ok s')
    (hhead : s'.headBlockId = s.headBlockId) :
    s'.collisionsOfBlock = s.collisionsOfBlock + eventCollisions gen (s, e) := by
  cases e with
  | create o =>
    obtain ⟨_, hvalid, hok⟩ := of_bind hstep
    exact (h.create hvalid hok).2.2
  | refill =>
    obtain ⟨p, hp, -, -, hcollisions⟩ := h.replenish gen
    cases hp.symm.trans hstep
    exact hcollisions
  | block id =>
    cases hstep
    cases hhead
    rfl

theorem NaisFormed.collisions_run {events : List (Objects × NaiEvent)} (h : s.NaisFormed)
    (hrun : NaiRun gen s events s') (hheads : ∀ event ∈ events, event.1.headBlockId = s.headBlockId)
    (hhead : s'.headBlockId = s.headBlockId) :
    s'.collisionsOfBlock = s.collisionsOfBlock + (events.map (eventCollisions gen)).sum := by
  induction hrun with
  | nil => rfl
  | @snoc s1 s' events e hrun hstep ih =>
    have hlast := hheads _ mem_concat_self
    have hformed := (hrun.invariant h fun _ hs hstep => hs.step hstep).1
    rw [hformed.collisions_step hstep (hhead.trans hlast.symm),
      ih (fun event hmem => hheads event (mem_append_left _ hmem)) hlast, map_append,
      sum_append_nat, map_singleton, sum_singleton, add_assoc]

end Steps

/-! ## The pool in every run -/

theorem naisFormed_empty (hpool : s.naiPool = {}) (htokens : s.xttTokens = .empty) : s.NaisFormed ∧
    s.NaisSound := by
  have hnone : s.naiPool.pool = [] := by
    rw [hpool]
    rfl
  have hrows : s.xttTokens.rows = [] := by
    rw [htokens]
    rfl
  refine ⟨⟨by rw [hpool]; decide, by rw [hpool]; decide, by rw [hpool]; decide, ?_, ?_⟩, ?_, ?_⟩
  all_goals simp [hnone, hrows]

theorem nais_sound_iff (gen : Nat → Nai) {s0 s : Objects} {events : List (Objects × NaiEvent)}
    (hpool : s0.naiPool = {}) (htokens : s0.xttTokens = .empty) (h : NaiRun gen s0 events s) :
    ((∀ event ∈ events, event.1.NaisSound) ∧ s.NaisSound ↔ ∀ event ∈ events, DrawsNew gen event) ∧
      (∃ p, (∀ fuel, 110 ≤ fuel → s.refillNaisWith gen fuel s.currentNaiPool = .ok p) ∧
        (p.numAvailableNais = 10 ∨ p.collisionsPerBlock = 100)) ∧
      ∀ events' s', NaiRun gen s events' s' → (∀ event ∈ events', event.1.headBlockId = s.headBlockId) →
        s'.headBlockId = s.headBlockId → (events'.map (eventCollisions gen)).sum ≤ 100 := by
  obtain ⟨hformed0, hsound0⟩ := naisFormed_empty hpool htokens
  have hformed := (h.invariant hformed0 fun _ hs hstep => hs.step hstep).1
  refine ⟨?_, ?_, fun events' s' hrun hheads hhead => ?_⟩
  · exact h.invariant_iff (J := fun s => s.NaisFormed ∧ s.NaisSound) ⟨hformed0, hsound0⟩ (fun hs => hs.2)
      fun hs hstep => ⟨fun hnew => ⟨hs.1.step hstep, (hs.2.step hs.1 hstep).2 hnew⟩, (hs.2.step hs.1 hstep).1⟩
  · have hlength := (congrArg length (currentNaiPool_nais (s := s))).trans hformed.length
    obtain ⟨p, hp, hrefilled⟩ := refillNaisWith_spec gen hformed.tokens 110 hlength
      (currentNaiPool_num.trans_le hformed.num) hformed.collisionsOfBlock_le
    refine ⟨p, fun fuel hfuel => ?_, ?_⟩
    · induction fuel, hfuel using le_induction with
      | base => exact hp
      | succ fuel hle ih => exact (refillNaisWith_done hformed.tokens hlength (by omega)).1.trans ih
    · have hdone := (refillNaisWith_done hformed.tokens hlength (by omega)).2 p hp
      exact hdone.imp (le_antisymm hrefilled.num) (le_antisymm hrefilled.few)
  · have hcount := hformed.collisions_run hrun hheads hhead
    have hle := (hrun.invariant hformed fun _ hs hstep => hs.step hstep).1.collisionsOfBlock_le
    omega

def naiCreate (seed : Nat) : XttCreateOperation where
  controlAccount := xgtInitMinerName
  symbol := naiGenerate seed
  desiredTicker := ""
  xttCreationFee := .xgt 1000
  precision := 0

theorem nais_sound_two : ∃ (events : List (Objects × NaiEvent)) (s : Objects),
    events.length = 4 ∧ s.naiPool.numAvailableNais = 9 ∧ s.xttTokens.rows.length = 2 ∧
      NaiRun naiGenerator (genesis ⟨1⟩) events s ∧
      ((∀ event ∈ events, event.1.NaisSound) ∧ s.NaisSound ↔ ∀ event ∈ events, DrawsNew naiGenerator event) ∧
      (∃ p, (∀ fuel, 110 ≤ fuel → s.refillNaisWith naiGenerator fuel s.currentNaiPool = .ok p) ∧
        (p.numAvailableNais = 10 ∨ p.collisionsPerBlock = 100)) ∧
      ∀ events' s', NaiRun naiGenerator s events' s' →
        (∀ event ∈ events', event.1.headBlockId = s.headBlockId) → s'.headBlockId = s.headBlockId →
          (events'.map (eventCollisions naiGenerator)).sum ≤ 100 := by
  let es : List NaiEvent := [.refill, .create (naiCreate 3), .refill, .create (naiCreate 5)]
  obtain ⟨s, hs, hshape⟩ := exists_ok_of_any (x := es.foldlM (applyNaiEvent naiGenerator) (genesis ⟨1⟩))
    (p := fun s => s.naiPool.numAvailableNais = 9 ∧ s.xttTokens.rows.length = 2) (by decide +kernel)
  obtain ⟨hnum, htokens⟩ := of_decide_eq_true hshape
  have hrun := Run.of_foldlM hs
  exact ⟨_, s, by decide +kernel, hnum, htokens, hrun, nais_sound_iff naiGenerator rfl rfl hrun⟩

theorem nais_drawn_twice : ∃ (events : List (Objects × NaiEvent)) (s : Objects),
    NaiRun naiGenerator (genesis ⟨1⟩) events s ∧ (∃ event ∈ events, ¬event.1.naiPool.pool.Nodup) ∧
      ∃ sym ∈ s.naiPool.pool, ∃ r ∈ s.xttTokens.rows, r.2.liquidSymbol.assetNum / 32 = sym.assetNum / 32 := by
  let es : List NaiEvent := [.refill, .create (naiCreate 3), .block ⟨1, 0⟩, .refill, .create (naiCreate 0)]
  obtain ⟨s, hs, hshape⟩ := exists_ok_of_any (x := es.foldlM (applyNaiEvent naiGenerator) (genesis ⟨1⟩))
    (p := fun s => s.naiPool.pool.any fun sym => s.xttTokens.rows.any fun r =>
      r.2.liquidSymbol.assetNum / 32 = sym.assetNum / 32) (by decide +kernel)
  have htwice : (Run.trace (applyNaiEvent naiGenerator) (genesis ⟨1⟩) es).any
      (fun event => ¬event.1.naiPool.pool.Nodup) = true := by decide +kernel
  obtain ⟨event, hevent, hpool⟩ := any_eq_true.1 htwice
  obtain ⟨sym, hsym, hrow⟩ := any_eq_true.1 hshape
  obtain ⟨r, hr, hsame⟩ := any_eq_true.1 hrow
  exact ⟨_, s, Run.of_foldlM hs, ⟨event, hevent, of_decide_eq_true hpool⟩, sym, hsym, r, hr,
    of_decide_eq_true hsame⟩

end Objects

end Xgt
