import XgtChain.Chainbase.Database
import XgtChain.Protocol.Validate

/-!
# Custom operations

A plugin can register an interpreter for the `custom_json` operations with its id.
-/

namespace Xgt

open Base Chainbase

/-! ## Inner operations -/

def Variant.asString : Variant → Result String
  | .null | .double | .blob => .ok ""
  | .int64 n | .uint64 n => .ok (toString n)
  | .bool b => .ok (if b then "true" else "false")
  | .string s => .ok s
  | .array _ | .object _ => .error ⟨.other, "Invalid cast to string"⟩

structure CustomOperationType (Op : Type) where
  count : Nat
  legacyName : Nat → String
  name : Nat → String
  default : Op
  fromVariant : Nat → Variant → Result Op
  validate : Op → Result Unit
  getRequiredAuthorities : Op → RequiredAuths → RequiredAuths

namespace CustomOperationType

variable {Op : Type} (T : CustomOperationType Op) {ops : List Op}

def toTag (name : Nat → String) (n : String) : Option Nat :=
    (List.range T.count).reverse.find? fun i => name i = n

def setWhich (which : Int) (value : Variant) : Result Op := do
  fcAssert (which < T.count ∧ 0 ≤ which) "w < count() && w >= 0"
  T.fromVariant which.toNat value

def customOpFromVariant : Variant → Result Op
  | .array (.uint64 which :: value :: _) => T.setWhich ((which : Int).bmod (2 ^ 64)) value
  | .array (name :: value :: _) => do
    match T.toTag T.legacyName (← name.asString) with
    | some which => T.setWhich which value
    | none => .error ⟨.assertException, "Invalid operation name"⟩
  | .array _ => .ok T.default
  | .object fields =>
    match fields.lookup "type", fields.lookup "value" with
    | none, _ => .error ⟨.assertException, "Type field doesn't exist."⟩
    | some _, none => .error ⟨.assertException, "Value field doesn't exist."⟩
    | some (.int64 which), some value => T.setWhich which value
    | some (.uint64 which), some value => T.setWhich ((which : Int).bmod (2 ^ 64)) value
    | some (.bool b), some value => T.setWhich (if b then 1 else 0) value
    | some type, some value => do
      match T.toTag T.name (← type.asString) with
      | some which => T.setWhich which value
      | none => .error ⟨.assertException, "Invalid object name"⟩
  | _ => .error ⟨.assertException, "Input data have to treated as object."⟩

def operations : Variant → Result (List Op)
  | .array (.array first :: rest) => (.array first :: rest).mapM T.customOpFromVariant
  | v => do pure [← T.customOpFromVariant v]

def requiredBy (ops : List Op) : RequiredAuths := ops.foldl (fun r op => T.getRequiredAuthorities op r) {}

def checkOperations (ops : List Op) (outer : CustomJsonOperation) : Result Unit := do
  let required := requiredAuthorities [.customJson outer]
  let inner ← ops.foldlM (fun r op => do
    T.validate op
    pure (T.getRequiredAuthorities op r)) {}
  fcAssert (inner.recovery = required.recovery) "inner_recovery == outer_recovery"
  fcAssert (inner.money = required.money) "inner_money == outer_money"
  fcAssert (inner.social = required.social) "inner_social == outer_social"
  fcAssert (inner.other = required.other) "inner_other == outer_other"

theorem foldlM_validate {r r' : RequiredAuths}
    (h : ops.foldlM (fun r op => do T.validate op; pure (T.getRequiredAuthorities op r)) r = .ok r') :
    (∀ op ∈ ops, T.validate op = .ok ()) ∧ r' = ops.foldl (fun r op => T.getRequiredAuthorities op r) r := by
  induction ops generalizing r with
  | nil =>
    cases h
    exact ⟨fun op hop => absurd hop List.not_mem_nil, rfl⟩
  | cons op ops ih =>
    obtain ⟨r1, hfirst, hrest⟩ := foldlM_cons_ok_iff.1 h
    obtain ⟨⟨⟩, hvalid, hr1⟩ := of_bind hfirst
    cases hr1
    obtain ⟨hvalids, hr'⟩ := ih hrest
    exact ⟨List.forall_mem_cons.2 ⟨hvalid, hvalids⟩, hr'⟩

theorem checkOperations_ok {outer : CustomJsonOperation} (h : T.checkOperations ops outer = .ok ()) :
    (∀ op ∈ ops, T.validate op = .ok ()) ∧ T.requiredBy ops = requiredAuthorities [.customJson outer] := by
  obtain ⟨inner, hinner, h⟩ := of_bind h
  obtain ⟨hvalid, rfl⟩ := T.foldlM_validate hinner
  simp only [bind_ok_iff] at h
  obtain ⟨_, hrecovery, _, hmoney, _, hsocial, hother⟩ := h
  refine ⟨hvalid, ?_⟩
  rw [fcAssert_ok_iff, decide_eq_true_iff] at hrecovery hmoney hsocial hother
  unfold requiredBy
  generalize ops.foldl (fun r op => T.getRequiredAuthorities op r) {} = inner
    at hrecovery hmoney hsocial hother ⊢
  generalize requiredAuthorities [.customJson outer] = required at hrecovery hmoney hsocial hother ⊢
  obtain ⟨money, recovery, social, other⟩ := inner
  cases hmoney
  cases hrecovery
  cases hsocial
  cases hother
  rfl

end CustomOperationType

section Programs

variable {ι : Type} {Row : ι → Type} [DecidableEq ι] [∀ i, Keyed (Row i)]

structure CustomEffect (Row : ι → Type) where
  calls : List (IndexCall Row)
  outcome : Result Unit

structure CustomProgram {ι : Type} (Row : ι → Type) [DecidableEq ι] [∀ i, Keyed (Row i)] where
  effect : Database Row → CustomEffect Row
  addresses : ∀ D : Database Row, D.Addresses (effect D).calls

abbrev CustomStep (Row : ι → Type) := Database Row → Option (Database Row × Result Unit)

def CustomProgram.run (p : CustomProgram Row) : CustomStep Row := fun D =>
  some (D.calls (p.effect D).calls, (p.effect D).outcome)

def CustomStep.andThen (a b : CustomStep Row) : CustomStep Row := fun D =>
  match a D with
  | some (D', .ok _) => b D'
  | r => r

end Programs

structure CustomInterpreter (Op : Type) {ι : Type} (Row : ι → Type) [DecidableEq ι] [∀ i, Keyed (Row i)] where
  types : CustomOperationType Op
  fromString : String → Result Variant
  preApply : Op → CustomProgram Row
  evaluator : Op → Option (CustomProgram Row)
  postApply : Op → CustomProgram Row

namespace CustomInterpreter

variable {Op ι : Type} {Row : ι → Type} [DecidableEq ι] [∀ i, Keyed (Row i)] (I : CustomInterpreter Op Row)
  (indexList : List ι) (producing : Bool) (o outer : CustomJsonOperation)
  (D : Database Row) (ops : List Op) (op : Op)

def evaluate : CustomStep Row := fun D => (I.evaluator op).bind fun p => p.run D

def applyOperation : CustomStep Row :=
  (I.preApply op).run.andThen ((I.evaluate op).andThen (I.postApply op).run)

def applyEach : List Op → CustomStep Row
  | [] => fun D => some (D, .ok ())
  | op :: ops => (I.applyOperation op).andThen (applyEach ops)

def endSession (e : Exc) : Option (Database Row × Result Unit) :=
  match Database.undo indexList D with
  | .ok _ D' => some (D', .error e)
  | .error _ _ => none

def applyOperations (outer : CustomJsonOperation) : CustomStep Row := fun D =>
  match I.types.checkOperations ops outer with
  | .error e => endSession indexList D.startUndoSession e
  | .ok _ =>
    match I.applyEach ops D.startUndoSession with
    | none => none
    | some (D', .error e) => endSession indexList D' e
    | some (D', .ok _) => some (D'.squash, .ok ())

def parse : Result (List Op) := do
  I.types.operations (← I.fromString outer.json)

def apply : CustomStep Row := fun D =>
  match I.parse outer with
  | .error e => some (D, .error e)
  | .ok ops => I.applyOperations indexList ops outer D

def outerChecks : Result Unit := do
  if producing then
    fcAssert (o.json.utf8ByteSize ≤ 8192) "Operation JSON must be less than 8192 bytes."
  fcAssert (o.requiredAuths.elems.length + o.requiredSocialAuths.elems.length ≤
    xgtMaxAuthorityMembership) "Authority membership exceeded."

def doApply : CustomStep Row := fun D =>
  match outerChecks producing o with
  | .error e => some (D, .error e)
  | .ok _ =>
    match I.apply indexList o D with
    | some (D', .error e) => some (D', if producing then .error e else .ok ())
    | r => r

/-- Every inner operation has been applied. -/
def AllApplied (D D' : Database Row) : Prop :=
  ∃ ops Dn, I.parse o = .ok ops ∧ I.types.requiredBy ops = requiredAuthorities [.customJson o] ∧
    I.applyEach ops D.startUndoSession = some (Dn, .ok ()) ∧ ∀ i, (D' i).toTable = (Dn i).toTable

def Recovers (D : Database Row) : Prop :=
  ∃ Dn r, I.applyEach ops D.startUndoSession = some (Dn, r) ∧
    ∀ e, r = .error e → ∀ i, Undoable (D i).toTable (Dn i).toTable

/-- The operations that pass the checks can be undone. -/
def Recoverable : Prop :=
  ∀ ops, outerChecks producing o = .ok () → I.parse o = .ok ops → I.types.checkOperations ops o = .ok () →
    I.Recovers ops D

end CustomInterpreter

open CustomInterpreter

/-! ## The calls of a step -/

section Calls

variable {ι : Type} {Row : ι → Type} [DecidableEq ι] [∀ i, Keyed (Row i)] {a b : CustomStep Row}

def CustomStep.MakesCalls (a : CustomStep Row) : Prop :=
  ∀ D D' r, a D = some (D', r) → ∃ cs, D.Addresses cs ∧ D' = D.calls cs

theorem CustomProgram.makesCalls (p : CustomProgram Row) : p.run.MakesCalls := by
  intro D D' r h
  cases h
  exact ⟨_, p.addresses D, rfl⟩

theorem CustomStep.MakesCalls.andThen (ha : a.MakesCalls) (hb : b.MakesCalls) : (a.andThen b).MakesCalls := by
  intro D D' r h
  unfold CustomStep.andThen at h
  cases hfirst : a D with
  | none =>
    rw [hfirst] at h
    cases h
  | some first =>
    obtain ⟨D1, outcome⟩ := first
    obtain ⟨cs, hcs, rfl⟩ := ha D D1 outcome hfirst
    rw [hfirst] at h
    cases outcome with
    | error e =>
      cases h
      exact ⟨cs, hcs, rfl⟩
    | ok _ =>
      obtain ⟨cs', hcs', rfl⟩ := hb _ D' r h
      exact ⟨cs ++ cs', hcs.append hcs', List.foldl_append.symm⟩

end Calls

namespace CustomInterpreter

variable {Op ι : Type} {Row : ι → Type} [DecidableEq ι] [∀ i, Keyed (Row i)] {I : CustomInterpreter Op Row}
  {D D' Dn : Database Row} {indexList : List ι} {o : CustomJsonOperation}

theorem evaluate_makesCalls (op : Op) : (I.evaluate op).MakesCalls := by
  intro D D' r h
  obtain ⟨p, -, hrun⟩ := Option.bind_eq_some_iff.1 h
  exact p.makesCalls D D' r hrun

theorem applyEach_makesCalls (ops : List Op) : (I.applyEach ops).MakesCalls := by
  induction ops with
  | nil =>
    intro D D' r h
    cases h
    exact ⟨[], trivial, rfl⟩
  | cons op ops ih =>
    exact ((I.preApply op).makesCalls.andThen
      ((evaluate_makesCalls op).andThen (I.postApply op).makesCalls)).andThen ih

theorem endSession_iff {cs : List (IndexCall Row)} (e : Exc) (hD : ∀ i, ∃ u, Refines (D i) u)
    (hcs : D.startUndoSession.Addresses cs) (hnodup : indexList.Nodup) (hall : ∀ i, i ∈ indexList) :
    (endSession indexList (D.startUndoSession.calls cs) e = some (D, .error e) ∧
        ∀ i, Undoable (D i).toTable (D.startUndoSession.calls cs i).toTable) ∨
      (endSession indexList (D.startUndoSession.calls cs) e = none ∧
        ¬ ∀ i, Undoable (D i).toTable (D.startUndoSession.calls cs i).toTable) := by
  have hiff := Database.undo_session_iff hD hcs hnodup hall
  unfold endSession
  cases hundo : Database.undo indexList (D.startUndoSession.calls cs) with
  | ok _ D' =>
    rw [Database.undo_session_eq hD hcs hnodup hall hundo]
    exact .inl ⟨rfl, hiff.1 ⟨D', hundo⟩⟩
  | error m D' =>
    refine .inr ⟨rfl, fun hundoable => ?_⟩
    obtain ⟨D'', hok⟩ := hiff.2 hundoable
    cases hundo.symm.trans hok

omit [DecidableEq ι] in
theorem undoable_start (hD : ∀ i, ∃ u, Refines (D i) u) (i : ι) :
    Undoable (D i).toTable (D.startUndoSession i).toTable := by
  obtain ⟨u, hu⟩ := hD i
  intro i j v w x hv hw hx hij _
  exact hu.stacked.legal.unique hv hx hij

theorem applyOperations_cases (ops : List Op) (o : CustomJsonOperation) (hD : ∀ i, ∃ u, Refines (D i) u)
    (hnodup : indexList.Nodup) (hall : ∀ i, i ∈ indexList) :
    (∃ Dn, I.types.checkOperations ops o = .ok () ∧ I.applyEach ops D.startUndoSession = some (Dn, .ok ()) ∧
        I.applyOperations indexList ops o D = some (Dn.squash, .ok ())) ∨
      (∃ e, I.applyOperations indexList ops o D = some (D, .error e) ∧
        (I.types.checkOperations ops o = .ok () → I.Recovers ops D)) ∨
      I.applyOperations indexList ops o D = none ∧ I.types.checkOperations ops o = .ok () ∧
        ¬I.Recovers ops D := by
  unfold applyOperations
  cases hcheck : I.types.checkOperations ops o with
  | error e =>
    refine .inr (.inl ⟨e, ?_, fun h => by cases h⟩)
    have hnone : D.startUndoSession.Addresses ([] : List (IndexCall Row)) := trivial
    rcases endSession_iff e hD hnone hnodup hall with ⟨hend, -⟩ | ⟨-, hnot⟩
    · exact hend
    · exact absurd (undoable_start hD) hnot
  | ok _ =>
    cases hrun : I.applyEach ops D.startUndoSession with
    | none =>
      refine .inr (.inr ⟨rfl, rfl, ?_⟩)
      rintro ⟨Dn, r, hrun', -⟩
      cases hrun.symm.trans hrun'
    | some run =>
      obtain ⟨Dn, outcome⟩ := run
      cases outcome with
      | ok _ => exact .inl ⟨Dn, rfl, rfl, rfl⟩
      | error e =>
        obtain ⟨calls, hcalls, rfl⟩ := applyEach_makesCalls ops _ Dn _ hrun
        rcases endSession_iff e hD hcalls hnodup hall with ⟨hend, hback⟩ | ⟨hend, hnot⟩
        · exact .inr (.inl ⟨e, hend, fun _ => ⟨_, _, hrun, fun _ _ => hback⟩⟩)
        · refine .inr (.inr ⟨hend, rfl, ?_⟩)
          rintro ⟨Dn, r, hrun', hback⟩
          cases hrun.symm.trans hrun'
          exact hnot (hback e rfl)

end CustomInterpreter

theorem custom_json_atomic_iff {Op ι : Type} {Row : ι → Type} [DecidableEq ι] [∀ i, Keyed (Row i)]
    (I : CustomInterpreter Op Row) (indexList : List ι) (hnodup : indexList.Nodup)
    (hall : ∀ i, i ∈ indexList) (D : Database Row) (hD : ∀ i, ∃ u, Chainbase.Run (D i) u) (producing : Bool)
    (o : CustomJsonOperation) :
    (∃ D' r, I.doApply indexList producing o D = some (D', r) ∧ (I.AllApplied o D D' ∧ r = .ok () ∨ D' = D)) ↔
      I.Recoverable producing o D := by
  have hrefines : ∀ i, ∃ u, Refines (D i) u := fun i => by
    obtain ⟨u, hu⟩ := hD i
    exact ⟨u, hu.refines⟩
  unfold doApply Recoverable apply
  cases houter : outerChecks producing o with
  | error e => exact ⟨fun _ ops h => (by cases h), fun _ => ⟨D, _, rfl, .inr rfl⟩⟩
  | ok _ =>
    cases hparse : I.parse o with
    | error e => exact ⟨fun _ ops _ h => (by cases h), fun _ => ⟨D, _, rfl, .inr rfl⟩⟩
    | ok ops =>
      dsimp only
      rcases applyOperations_cases (I := I) ops o hrefines hnodup hall with
        ⟨Dn, hcheck, hrun, happly⟩ | ⟨e, happly, hrecovers⟩ | ⟨happly, hcheck, hnot⟩
      · -- all inner operations were applied
        rw [happly]
        refine ⟨fun _ ops' _ hops' _ => ?_, fun _ => ⟨_, _, rfl, .inl ⟨?_, rfl⟩⟩⟩
        · cases hops'
          exact ⟨Dn, _, hrun, fun e he => by cases he⟩
        · obtain ⟨-, hrequired⟩ := I.types.checkOperations_ok hcheck
          exact ⟨ops, Dn, hparse, hrequired, hrun, fun i => GenericIndex.squash_toTable (Dn i)⟩
      · -- an exception, and the session was undone
        rw [happly]
        refine ⟨fun _ ops' _ hops' hcheck => ?_, fun _ => ⟨D, _, rfl, .inr rfl⟩⟩
        cases hops'
        exact hrecovers hcheck
      · -- the process ended
        rw [happly]
        exact ⟨fun ⟨_, _, h, _⟩ => (by cases h), fun h => absurd (h ops rfl rfl hcheck) hnot⟩

abbrev NameRow (_ : Unit) : Type := NamedRow

def oneNameDb : Database NameRow := fun _ => after (GenericIndex.emplace ⟨1⟩ noNames)

theorem oneNameDb_run (i : Unit) : ∃ u, Chainbase.Run (oneNameDb i) u := by
  have hrun := noNames_run.call (c := .create ⟨1⟩) trivial
  exact ⟨_, hrun⟩

def idleProgram : CustomProgram NameRow := ⟨fun _ => ⟨[], .ok ()⟩, fun _ => trivial⟩

def renameProgram : CustomProgram NameRow where
  effect D :=
    if (D ()).find? 0 = some ⟨1⟩ then
      ⟨[⟨(), .modify 0 ⟨1⟩ ⟨3⟩⟩, ⟨(), .create ⟨1⟩⟩], .error ⟨.assertException, "not allowed"⟩⟩
    else ⟨[], .ok ()⟩
  addresses D := by
    split_ifs with hrow
    · exact ⟨hrow, trivial, trivial⟩
    · trivial

def renameInterpreter : CustomInterpreter Unit NameRow where
  types := ⟨1, fun _ => "rename", fun _ => "rename_operation", (), fun _ _ => .ok (), fun _ =>
    .ok (), fun _ r => r⟩
  fromString _ := .ok (.array [.array [.string "rename", .null]])
  preApply _ := idleProgram
  evaluator _ := some renameProgram
  postApply _ := idleProgram

def renameOperation : CustomJsonOperation := ⟨.empty, .empty, "names", "[[\"rename\", null]]"⟩

theorem custom_json_atomic_rename :
    (∃ D' r, renameInterpreter.doApply [()] false renameOperation oneNameDb = some (D', r) ∧
        (renameInterpreter.AllApplied renameOperation oneNameDb D' ∧ r = .ok () ∨ D' = oneNameDb)) ↔
      renameInterpreter.Recoverable false renameOperation oneNameDb :=
  custom_json_atomic_iff renameInterpreter [()] (by decide)
    (by simp) oneNameDb oneNameDb_run false renameOperation

theorem custom_json_ends_process :
    (∀ i, ∃ u, Chainbase.Run (oneNameDb i) u) ∧
      renameInterpreter.doApply [()] false renameOperation oneNameDb = none :=
  ⟨oneNameDb_run, rfl⟩

end Xgt
