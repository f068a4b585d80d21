import Mathlib.Data.List.Perm.Basic

/-! A resource that readers enter while it is open, each with one message for its state. Whoever
closes it waits until no reader is inside and then takes the state away. -/

namespace Xbbg.Library

/-- How far the closing of a resource has come. -/
inductive Handshake.Phase (ρ ω : Type*) where
  | opened
  | closing (w : ω)
  | closed (w : ω)
  | gone (w : ω) (state : ρ)

/-- `inside` is the counter that the closer looks at. `pending` are the messages of the readers
inside that have not applied theirs and `leaving` counts those that have. The last two fields
are history. -/
structure Handshake (ρ μ ω : Type*) where
  state : Option ρ
  inside : ℕ
  pending : List μ
  leaving : ℕ
  phase : Handshake.Phase ρ ω
  entered : List μ
  applied : List μ

namespace Handshake

open scoped List

variable {ρ μ ω : Type*}

def start (initial : ρ) : Handshake ρ μ ω :=
  ⟨some initial, 0, [], 0, .opened, [], []⟩

inductive Step (act : ρ → μ → ρ) : Handshake ρ μ ω → Handshake ρ μ ω → Prop where
  | enter {e : Handshake ρ μ ω} (m : μ) : e.phase = .opened →
      Step act e
        { e with
          inside := e.inside + 1
          pending := e.pending ++ [m]
          entered := e.entered ++ [m] }
  | apply {e : Handshake ρ μ ω} {front back : List μ} {m : μ} {state : ρ} :
      e.pending = front ++ m :: back → e.state = some state →
      Step act e
        { e with
          state := some (act state m)
          pending := front ++ back
          leaving := e.leaving + 1
          applied := e.applied ++ [m] }
  | leave {e : Handshake ρ μ ω} {n : ℕ} : e.leaving = n + 1 →
      Step act e { e with leaving := n, inside := e.inside - 1 }
  | close {e : Handshake ρ μ ω} (w : ω) : e.phase = .opened →
      Step act e { e with phase := .closing w }
  | pass {e : Handshake ρ μ ω} {w : ω} : e.phase = .closing w → e.inside = 0 →
      Step act e { e with phase := .closed w }
  | take {e : Handshake ρ μ ω} {w : ω} {state : ρ} : e.phase = .closed w →
      e.state = some state →
      Step act e { e with state := none, phase := .gone w state }

/-- What the phase says about the readers and the state. -/
def Phase.Fits (folded : ρ) (inside : ℕ) (state : Option ρ) : Phase ρ ω → Prop
  | .opened | .closing _ => state = some folded
  | .closed _ => state = some folded ∧ inside = 0
  | .gone _ taken => state = none ∧ taken = folded ∧ inside = 0

/-- While a reader is inside, the state is there and may change. -/
theorem Phase.Fits.of_inside {folded : ρ} {inside : ℕ} {st : Option ρ} {phase : Phase ρ ω}
    (h : phase.Fits folded inside st) (hi : inside ≠ 0) :
    st = some folded ∧
      ∀ (folded' : ρ) (inside' : ℕ), phase.Fits folded' inside' (some folded') := by
  cases phase with
  | opened | closing w => exact ⟨h, fun _ _ => rfl⟩
  | closed w => exact absurd h.2 hi
  | gone w taken => exact absurd h.2.2 hi

/-- Every message that entered is applied or pending, and the state is the fold of the applied
ones until it is taken. -/
structure Sound (act : ρ → μ → ρ) (initial : ρ) (e : Handshake ρ μ ω) : Prop where
  inside : e.inside = e.pending.length + e.leaving
  entered : e.entered.Perm (e.applied ++ e.pending)
  phase : e.phase.Fits (e.applied.foldl act initial) e.inside e.state

variable {act : ρ → μ → ρ} {initial : ρ} {e e' : Handshake ρ μ ω}

theorem sound_start : (start initial : Handshake ρ μ ω).Sound act initial :=
  ⟨rfl, .refl _, rfl⟩

variable (h : e.Sound act initial)
include h

/-- A reader that has not applied its message finds the state. -/
theorem Sound.state_of_pending (hp : e.pending ≠ []) :
    e.state = some (e.applied.foldl act initial) := by
  have hpo : 0 < e.pending.length := List.length_pos_iff.mpr hp
  have hi : e.inside ≠ 0 := by
    have := h.inside
    omega
  exact (h.phase.of_inside hi).1

theorem Sound.enter (m : μ) (ho : e.phase = .opened) :
    { e with
      inside := e.inside + 1
      pending := e.pending ++ [m]
      entered := e.entered ++ [m] : Handshake ρ μ ω }.Sound act initial := by
  refine ⟨?_, ?_, ?_⟩
  · have hi := h.inside
    simp only [List.length_append, List.length_singleton]
    omega
  · rw [← List.append_assoc]
    exact h.entered.append_right [m]
  · have hp := h.phase
    rw [ho] at hp
    simpa [Phase.Fits, ho] using hp

theorem Sound.apply {front back : List μ} {m : μ} {st : ρ} (hp : e.pending = front ++ m :: back)
    (hs : e.state = some st) :
    { e with
      state := some (act st m)
      pending := front ++ back
      leaving := e.leaving + 1
      applied := e.applied ++ [m] : Handshake ρ μ ω }.Sound act initial := by
  have hi := h.inside
  rw [hp] at hi
  have hf : st = e.applied.foldl act initial :=
    Option.some.inj (hs.symm.trans (h.state_of_pending (by simp [hp])))
  refine ⟨?_, ?_, ?_⟩
  · simp only [List.length_append, List.length_cons] at hi ⊢
    omega
  · calc e.entered
      _ ~ e.applied ++ (front ++ m :: back) := hp ▸ h.entered
      _ ~ e.applied ++ (m :: (front ++ back)) := List.Perm.append_left _ List.perm_middle
      _ = e.applied ++ [m] ++ (front ++ back) := by simp
  · have hne : e.inside ≠ 0 := by
      simp only [List.length_append, List.length_cons] at hi
      omega
    simpa [← hf] using (h.phase.of_inside hne).2 (act st m) e.inside

theorem Sound.leave {n : ℕ} (hl : e.leaving = n + 1) :
    { e with leaving := n, inside := e.inside - 1 : Handshake ρ μ ω }.Sound act initial := by
  have hi := h.inside
  obtain ⟨hs, hf⟩ := h.phase.of_inside (by omega)
  refine ⟨by simp only; omega, h.entered, ?_⟩
  simpa [hs] using hf _ (e.inside - 1)

theorem Sound.step (hst : Step act e e') : e'.Sound act initial := by
  have hp := h.phase
  cases hst with
  | enter m ho => exact h.enter m ho
  | apply hpe hs => exact h.apply hpe hs
  | leave hl => exact h.leave hl
  | close w ho =>
    rw [ho] at hp
    exact ⟨h.inside, h.entered, hp⟩
  | pass hc hz =>
    rw [hc] at hp
    exact ⟨h.inside, h.entered, hp, hz⟩
  | take hcl hs =>
    rw [hcl] at hp
    exact ⟨h.inside, h.entered, rfl, Option.some.inj (hs.symm.trans hp.1), hp.2⟩

/-- Whoever has taken the state has all that the readers brought. -/
theorem Sound.of_gone {w : ω} {st : ρ} (hp : e.phase = .gone w st) :
    st = e.applied.foldl act initial ∧ e.entered.Perm e.applied := by
  have hf := h.phase
  rw [hp] at hf
  obtain ⟨-, hs, hz⟩ := hf
  have hpe : e.pending = [] := by
    have hi := h.inside
    exact List.length_eq_zero_iff.mp (by omega)
  exact ⟨hs, by simpa [hpe] using h.entered⟩

end Handshake

end Xbbg.Library
