/-
Runs with a trace. Code over a state is repeated over the state and a list of events, to which it adds
what is to be observed; `Shows` says that without the events it is the same code. `Clean` says that
a run adds only events of one kind, whether it returns or stops. Because a run with its trace goes the
way of the run without, the rules for `Clean` take the states between two steps from that one.
-/
import Cing.Lib.Exec

/-- A state, and the events so far. -/
structure Traced (σ E : Type) where
  state : σ
  trace : List E

namespace Trace

open EStateM (Result)

variable {ε σ E α β : Type}

/-- Code that adds no event. -/
def quiet (x : EStateM ε σ α) : EStateM ε (Traced σ E) α := Exec.zoom Traced.state (fun s t => { t with state := s }) x

/-- Adds an event that is read off the state. -/
def note (e : σ → E) : EStateM ε (Traced σ E) Unit := modify fun t => { t with trace := t.trace ++ [e t.state] }

/-- A result without the events. -/
def plain : Result ε (Traced σ E) α → Result ε σ α
  | .ok a t => .ok a t.state
  | .error e t => .error e t.state

/-- The events at the end of a run, however it ends. -/
def events : Result ε (Traced σ E) α → List E
  | .ok _ t => t.trace
  | .error _ t => t.trace

/-! ## The same code -/

/-- Without the events, `y` is `x`. -/
def Shows (x : EStateM ε σ α) (y : EStateM ε (Traced σ E) α) : Prop := ∀ t, plain (y t) = x t.state

theorem Shows.quiet (x : EStateM ε σ α) : Shows x (quiet x : EStateM ε (Traced σ E) α) := by
  intro t
  unfold Trace.quiet Exec.zoom
  cases x t.state <;> rfl

theorem Shows.pure (a : α) : Shows (pure a : EStateM ε σ α) (pure a : EStateM ε (Traced σ E) α) := fun _ => rfl

theorem Shows.note {x : EStateM ε σ α} {y : EStateM ε (Traced σ E) α} (e : σ → E) (h : Shows x y) :
    Shows x (note e >>= fun _ => y) := fun t => h { t with trace := t.trace ++ [e t.state] }

theorem Shows.bind {x : EStateM ε σ α} {y : EStateM ε (Traced σ E) α} {f : α → EStateM ε σ β} {g : α → EStateM ε (Traced σ E) β}
    (h : Shows x y) (hfg : ∀ a, Shows (f a) (g a)) : Shows (x >>= f) (y >>= g) := by
  intro t
  have ht := h t
  rw [Exec.bind_run, Exec.bind_run, ← ht]
  cases y t with
  | ok a t' => exact hfg a t'
  | error e t' => rfl

theorem Shows.ite {c : Prop} [Decidable c] {x x' : EStateM ε σ α} {y y' : EStateM ε (Traced σ E) α} (h : Shows x y)
    (h' : Shows x' y') : Shows (if c then x else x') (if c then y else y') := by
  split
  · exact h
  · exact h'

/-- The run with its trace returns what the run without returns. -/
theorem Shows.ok {x : EStateM ε σ α} {y : EStateM ε (Traced σ E) α} (h : Shows x y) {t : Traced σ E} {a : α} {s : σ}
    (hx : x t.state = .ok a s) : ∃ t', y t = .ok a t' ∧ t'.state = s := by
  have ht := h t
  rw [hx] at ht
  cases hy : y t with
  | ok b t' =>
    rw [hy] at ht
    cases ht
    exact ⟨t', rfl, rfl⟩
  | error e t' =>
    rw [hy] at ht
    cases ht

/-! ## Clean runs -/

variable {ok : E → Prop} {s s' : σ}

/-- From `s`, the run adds good events only. -/
def Clean (ok : E → Prop) (y : EStateM ε (Traced σ E) α) (s : σ) : Prop :=
  ∀ tr, (∀ e ∈ tr, ok e) → ∀ e ∈ events (y ⟨s, tr⟩), ok e

theorem Clean.quiet (x : EStateM ε σ α) (s : σ) : Clean ok (quiet x) s := by
  intro tr htr
  unfold Trace.quiet Exec.zoom
  cases x s with
  | ok a s' => exact htr
  | error e s' => exact htr

theorem Clean.pure (a : α) (s : σ) : Clean ok (pure a : EStateM ε (Traced σ E) α) s := fun _ htr => htr

theorem Clean.note {y : EStateM ε (Traced σ E) α} {e : σ → E} (he : ok (e s)) (hy : Clean ok y s) :
    Clean ok (note e >>= fun _ => y) s := by
  intro tr htr
  refine hy (tr ++ [e s]) fun e' he' => ?_
  rcases List.mem_append.1 he' with h | h
  · exact htr e' h
  · rw [List.mem_singleton.1 h]
    exact he

theorem Clean.bind {x : EStateM ε σ α} {y : EStateM ε (Traced σ E) α} {g : α → EStateM ε (Traced σ E) β} (h : Shows x y)
    (hy : Clean ok y s) (hg : ∀ a s', x s = .ok a s' → Clean ok (g a) s') : Clean ok (y >>= g) s := by
  intro tr htr
  have hrun := h ⟨s, tr⟩
  have hev := hy tr htr
  rw [Exec.bind_run]
  cases hyt : y ⟨s, tr⟩ with
  | ok a t =>
    rw [hyt] at hrun hev
    exact hg a t.state hrun.symm t.trace hev
  | error e t =>
    rw [hyt] at hev
    exact hev

/-- If the first step returns, the second is to be clean from there. -/
theorem Clean.step {x : EStateM ε σ α} {y : EStateM ε (Traced σ E) α} {g : α → EStateM ε (Traced σ E) β} {a : α} (h : Shows x y)
    (hy : Clean ok y s) (hx : x s = .ok a s') (hg : Clean ok (g a) s') : Clean ok (y >>= g) s := by
  refine hy.bind h fun b t hb => ?_
  rw [hx] at hb
  cases hb
  exact hg

/-- If the first step stops, there is no second. -/
theorem Clean.stop {x : EStateM ε σ α} {y : EStateM ε (Traced σ E) α} {g : α → EStateM ε (Traced σ E) β} {e : ε} (h : Shows x y)
    (hy : Clean ok y s) (hx : x s = .error e s') : Clean ok (y >>= g) s := by
  refine hy.bind h fun b t hb => ?_
  rw [hx] at hb
  cases hb

theorem Clean.quiet_step {x : EStateM ε σ α} {g : α → EStateM ε (Traced σ E) β} {a : α} (hx : x s = .ok a s')
    (hg : Clean ok (g a) s') : Clean ok (Trace.quiet x >>= g) s := (Clean.quiet x s).step (.quiet x) hx hg

end Trace
