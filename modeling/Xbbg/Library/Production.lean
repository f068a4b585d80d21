import Mathlib.Data.List.Basic

/-! What a decoder makes of the messages it is given, in order: chunks up to the first error. -/

namespace Xbbg.Library

/-- The chunks so far, the error that ended them and the state of the decoder. -/
structure Production (δ β ε : Type*) where
  state : δ
  chunks : List β
  error : Option ε

namespace Production

variable {δ μ β ε : Type*}
variable {p : Production δ β ε} {decode : δ → μ → δ × Option (Except ε β)} {message : μ}

def start (state : δ) : Production δ β ε := ⟨state, [], none⟩

/-- An error, unless there was one before. -/
def fail (p : Production δ β ε) (error : ε) : Production δ β ε :=
  { p with error := p.error.or (some error) }

def feed (decode : δ → μ → δ × Option (Except ε β)) (p : Production δ β ε) (message : μ) :
    Production δ β ε :=
  match p.error with
  | some _ => p
  | none =>
    match decode p.state message with
    | (state, none) => { p with state }
    | (state, some (.ok chunk)) => { p with state, chunks := p.chunks ++ [chunk] }
    | (state, some (.error error)) => { p with state, error := some error }

theorem fail_of_error {e : ε} (h : p.error = some e) (o : ε) : p.fail o = p := by
  cases p
  simp_all [fail]

theorem feed_of_error (decode : δ → μ → δ × Option (Except ε β)) {e : ε}
    (h : p.error = some e) (message : μ) : p.feed decode message = p := by
  simp only [feed, h]

theorem feed_of_none {state : δ} (h : p.error = none)
    (hd : decode p.state message = (state, none)) :
    p.feed decode message = { p with state } := by
  simp only [feed, h, hd]

theorem feed_of_ok {state : δ} {chunk : β} (h : p.error = none)
    (hd : decode p.state message = (state, some (.ok chunk))) :
    p.feed decode message = { p with state, chunks := p.chunks ++ [chunk] } := by
  simp only [feed, h, hd]

theorem feed_of_failure {state : δ} {error : ε} (h : p.error = none)
    (hd : decode p.state message = (state, some (.error error))) :
    p.feed decode message = { p with state, error := some error } := by
  simp only [feed, h, hd]

theorem chunks_isPrefix_feed (decode : δ → μ → δ × Option (Except ε β)) (p : Production δ β ε)
    (message : μ) : p.chunks <+: (p.feed decode message).chunks := by
  unfold feed
  split
  · exact List.prefix_refl _
  · split
    · exact List.prefix_refl _
    · exact List.prefix_append _ _
    · exact List.prefix_refl _

end Production

end Xbbg.Library
