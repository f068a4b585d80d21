import Mathlib.Data.List.Basic

/-! A stream that is read by transactions: what a reader holds is committed or goes back to the
front. -/

namespace Xbbg.Library

/-- `done` is what has been committed, `held` what a reader has taken and `waiting` the rest of
what was accepted. -/
structure Spool (α : Type*) where
  accepted : List α
  done : List α
  held : List α
  waiting : List α

namespace Spool

variable {α : Type*}

/-- What a reader that gives back what it holds would find. -/
def stream (w : Spool α) : List α :=
  w.held ++ w.waiting

inductive Move (α : Type*) where
  | accept (a : α)
  | take
  | commit
  | rollback
  | stay

inductive Step : Spool α → Move α → Spool α → Prop where
  | accept {w : Spool α} (a : α) :
      Step w (.accept a) { w with accepted := w.accepted ++ [a], waiting := w.waiting ++ [a] }
  | take {w : Spool α} {front back : List α} : w.held = [] → w.waiting = front ++ back →
      Step w .take { w with held := front, waiting := back }
  | commit {w : Spool α} : Step w .commit { w with done := w.done ++ w.held, held := [] }
  | rollback {w : Spool α} : Step w .rollback { w with held := [], waiting := w.held ++ w.waiting }
  | stay {w : Spool α} : Step w .stay w

/-- Nothing is lost, duplicated or reordered. -/
def Sound (w : Spool α) : Prop :=
  w.accepted = w.done ++ w.stream

variable {w v : Spool α} {move : Move α}

theorem Sound.step (h : w.Sound) (hs : Step w move v) : v.Sound := by
  unfold Sound stream at h ⊢
  cases hs with
  | accept a => simp [h]
  | take hh hw => simpa [hh, hw] using h
  | commit => simpa using h
  | rollback => simpa using h
  | stay => exact h

theorem Step.stream_rollback (h : Step w .rollback v) : v.stream = w.stream := by
  cases h
  simp [stream]

theorem Step.stream_commit (h : Step w .commit v) : w.stream = w.held ++ v.stream := by
  cases h
  simp [stream]

end Spool

end Xbbg.Library
