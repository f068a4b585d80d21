import Mathlib.Data.List.Basic

/-! Runs of a machine whose steps are a partial function of its state and an action.
A guard restricts which actions a run may take; an unguarded run allows all of them. -/

namespace Xbbg.Library

/-- Take the actions in order; `none` as soon as one of them is not enabled. -/
def runActions {σ α : Type*} (step : σ → α → Option σ) : σ → List α → Option σ
  | s, [] => some s
  | s, a :: rest => (step s a).bind fun t => runActions step t rest

theorem runActions_append {σ α : Type*} (step : σ → α → Option σ) (s : σ) (front back : List α) :
    runActions step s (front ++ back) =
      (runActions step s front).bind fun t => runActions step t back := by
  induction front generalizing s with
  | nil => rfl
  | cons a rest ih =>
    cases hs : step s a with
    | none => simp [runActions, hs]
    | some t => simp [runActions, hs, ih]

/-- A run from one state to another in which every action meets `ok` in the state
that it is taken from. -/
inductive Run {σ α : Type*} (step : σ → α → Option σ) (ok : σ → α → Prop) :
    σ → List α → σ → Prop where
  | nil (s : σ) : Run step ok s [] s
  | cons {s t u : σ} {a : α} {rest : List α} : ok s a → step s a = some t →
      Run step ok t rest u → Run step ok s (a :: rest) u

/-- The unguarded runs. -/
abbrev FreeRun {σ α : Type*} (step : σ → α → Option σ) : σ → List α → σ → Prop :=
  Run step fun _ _ => True

variable {σ α : Type*} {step : σ → α → Option σ} {ok ok' : σ → α → Prop} {s t u : σ}
  {actions front back : List α}

/-- What every allowed step preserves holds at the end of every run. -/
theorem Run.invariant {Inv : σ → Prop} (hst : ∀ s a t, Inv s → ok s a → step s a = some t → Inv t)
    {s t : σ} (h : Run step ok s actions t) (hs : Inv s) : Inv t := by
  induction h with
  | nil => exact hs
  | cons hok hs' _ ih => exact ih (hst _ _ _ hs hok hs')

theorem Run.append (h : Run step ok s front t) (hb : Run step ok t back u) :
    Run step ok s (front ++ back) u := by
  induction h with
  | nil => exact hb
  | cons hok hs _ ih => exact .cons hok hs (ih hb)

theorem Run.snoc {a : α} (h : Run step ok s front t) (hok : ok t a) (hs : step t a = some u) :
    Run step ok s (front ++ [a]) u :=
  h.append (.cons hok hs (.nil u))

theorem Run.mono (hi : ∀ s a, ok s a → ok' s a) (h : Run step ok s actions t) :
    Run step ok' s actions t := by
  induction h with
  | nil => exact .nil _
  | cons hok hs _ ih => exact .cons (hi _ _ hok) hs ih

theorem Run.and (h : Run step ok s actions t) (h' : Run step ok' s actions t) :
    Run step (fun u a => ok u a ∧ ok' u a) s actions t := by
  induction h with
  | nil s => exact .nil s
  | cons hok hs _ ih =>
    cases h' with
    | cons hok' hs' hr =>
      cases hs.symm.trans hs'
      exact .cons ⟨hok, hok'⟩ hs (ih hr)

theorem Run.mem (h : Run step ok s actions t) : Run step (fun _ a => a ∈ actions) s actions t := by
  induction h with
  | nil s => exact .nil s
  | cons _ hs _ ih =>
    refine .cons (by simp) hs ?_
    exact ih.mono fun _ _ hm => List.mem_cons_of_mem _ hm

/-- Executing actions, each of them checked in the state that it is taken from, gives a run. -/
theorem Run.of_checkedActions [∀ s a, Decidable (ok s a)]
    (h : runActions (fun u a => if ok u a then step u a else none) s actions = some t) :
    Run step ok s actions t := by
  induction actions generalizing s with
  | nil =>
      obtain rfl : s = t := by simpa [runActions] using h
      exact .nil s
  | cons a rest ih =>
      obtain ⟨u, hu, hr⟩ := Option.bind_eq_some_iff.mp h
      obtain ⟨hok, hs⟩ := Option.ite_none_right_eq_some.mp hu
      exact .cons hok hs (ih hr)

theorem FreeRun.of_runActions (h : runActions step s actions = some t) :
    FreeRun step s actions t :=
  .of_checkedActions (by simpa using h)

theorem Run.of_runActions (hok : ∀ u, ∀ a ∈ actions, ok u a)
    (h : runActions step s actions = some t) : Run step ok s actions t :=
  (FreeRun.of_runActions h).mem.mono fun u a hm => hok u a hm

/-- What every run of these actions shows holds where one of them ends. -/
theorem Run.exists_imp {P Q : σ → Prop} (hi : ∀ t, Run step ok s actions t → Q t → P t)
    (h : ∃ t, Run step ok s actions t ∧ Q t) : ∃ t, Run step ok s actions t ∧ P t := by
  obtain ⟨t, hr, hQ⟩ := h
  exact ⟨t, hr, hi t hr hQ⟩

end Xbbg.Library
