/-
Runs of imperative code that may stop. A computation is an `EStateM ε σ α`: it returns a value and
the new state, or stops with a reason and the state at that moment. The rules here take a run apart
at each bind; `Follows` says that a run over a larger state returns what another returns over what it shows.
-/
import Mathlib.Tactic

namespace Exec

variable {ε σ τ α β : Type}

/-! ## One step at a time -/

theorem bind_run (x : EStateM ε σ α) (f : α → EStateM ε σ β) (s : σ) :
    (x >>= f) s = match x s with
      | .ok a s' => f a s'
      | .error e s' => .error e s' := rfl

theorem bind_ok {x : EStateM ε σ α} {f : α → EStateM ε σ β} {s s' : σ} {a : α} (h : x s = .ok a s') :
    (x >>= f) s = f a s' := by
  rw [bind_run, h]

theorem bind_error {x : EStateM ε σ α} {f : α → EStateM ε σ β} {s s' : σ} {e : ε} (h : x s = .error e s') :
    (x >>= f) s = .error e s' := by
  rw [bind_run, h]

/-- What is bound sees only the outcome. -/
theorem bind_congr {x y : EStateM ε σ α} {f : α → EStateM ε σ β} {s t : σ} (h : x s = y t) : (x >>= f) s = (y >>= f) t := by
  rw [bind_run, bind_run, h]

@[simp] theorem pure_run (a : α) (s : σ) : (pure a : EStateM ε σ α) s = .ok a s := rfl

@[simp] theorem get_run (s : σ) : (get : EStateM ε σ σ) s = .ok s s := rfl

@[simp] theorem set_run (s t : σ) : (set t : EStateM ε σ PUnit) s = .ok ⟨⟩ t := rfl

@[simp] theorem modify_run (f : σ → σ) (s : σ) : (modify f : EStateM ε σ PUnit) s = .ok ⟨⟩ (f s) := rfl

@[simp] theorem throw_run (e : ε) (s : σ) : (throw e : EStateM ε σ α) s = .error e s := rfl

/-- A run through a bind that returned has two halves that returned. -/
theorem bind_eq_ok {x : EStateM ε σ α} {f : α → EStateM ε σ β} {s s' : σ} {b : β} :
    (x >>= f) s = .ok b s' ↔ ∃ a t, x s = .ok a t ∧ f a t = .ok b s' := by
  rw [bind_run]
  cases h : x s with
  | ok a t => simp
  | error e t => simp

/-- A loop whose body always returns. -/
theorem forM_ok {f : α → EStateM ε σ PUnit} {step : σ → α → σ} {l : List α} (h : ∀ a ∈ l, ∀ s, f a s = .ok ⟨⟩ (step s a)) (s : σ) :
    l.forM f s = .ok ⟨⟩ (l.foldl step s) := by
  induction l generalizing s with
  | nil => rfl
  | cons a l ih =>
    obtain ⟨ha, hl⟩ := List.forall_mem_cons.1 h
    exact (bind_ok (ha s)).trans (ih hl _)

theorem forM_cons_ok {f : α → EStateM ε σ PUnit} {a : α} {s s' : σ} (h : f a s = .ok ⟨⟩ s') (l : List α) :
    (a :: l).forM f s = l.forM f s' := bind_ok h

theorem forM_cons_error {f : α → EStateM ε σ PUnit} {a : α} {s s' : σ} {e : ε} (h : f a s = .error e s') (l : List α) :
    (a :: l).forM f s = .error e s' := bind_error h

/-! ## What every run keeps -/

/-- The state a run ends in, whether it returns or stops. -/
def final : EStateM.Result ε σ α → σ
  | .ok _ s => s
  | .error _ s => s

@[simp] theorem final_ok (a : α) (s : σ) : final (.ok a s : EStateM.Result ε σ α) = s := rfl

@[simp] theorem final_error (e : ε) (s : σ) : final (.error e s : EStateM.Result ε σ α) = s := rfl

/-- Whether a run returned. -/
def isOk : EStateM.Result ε σ α → Bool
  | .ok _ _ => true
  | .error _ _ => false

theorem ok_of_isOk {r : EStateM.Result ε σ Unit} (h : isOk r = true) : r = .ok () (final r) := by
  cases r with
  | ok u s => rfl
  | error e s => cases h

theorem exists_of_isOk {r : EStateM.Result ε σ α} (h : isOk r = true) : ∃ a s, r = .ok a s := by
  cases r with
  | ok a s => exact ⟨a, s, rfl⟩
  | error e s => cases h

/-- Why a run stopped, if it did. -/
def stops : EStateM.Result ε σ α → Option ε
  | .ok _ _ => none
  | .error e _ => some e

@[simp] theorem stops_ok (a : α) (s : σ) : stops (.ok a s : EStateM.Result ε σ α) = none := rfl

@[simp] theorem stops_error (e : ε) (s : σ) : stops (.error e s : EStateM.Result ε σ α) = some e := rfl

/-- What comes second does not run if what comes first stopped. -/
theorem bind_stops {x : EStateM ε σ α} {f : α → EStateM ε σ β} {s : σ} {e : ε} (h : stops (x s) = some e) :
    stops ((x >>= f) s) = some e ∧ final ((x >>= f) s) = final (x s) := by
  cases hx : x s with
  | ok a s' =>
    rw [hx] at h
    cases h
  | error e' s' =>
    rw [hx] at h
    rw [bind_error hx]
    exact ⟨h, rfl⟩

theorem ok_of_stops {x : EStateM ε σ Unit} {s : σ} (h : stops (x s) = none) : x s = .ok () (final (x s)) := by
  cases hx : x s with
  | ok a s' => rfl
  | error e s' =>
    rw [hx] at h
    cases h

/-- Wherever a run ends, its state stands in `R` to the one it started from. -/
def Keeps (R : σ → σ → Prop) (x : EStateM ε σ α) : Prop := ∀ s, R s (final (x s))

section Keeps

variable {R : σ → σ → Prop}

theorem Keeps.pure (hR : ∀ s, R s s) (a : α) : Keeps R (pure a : EStateM ε σ α) := hR

theorem Keeps.throw (hR : ∀ s, R s s) (e : ε) : Keeps R (throw e : EStateM ε σ α) := hR

theorem Keeps.bind (hR : ∀ s t u, R s t → R t u → R s u) {x : EStateM ε σ α} {f : α → EStateM ε σ β} (hx : Keeps R x)
    (hf : ∀ a, Keeps R (f a)) : Keeps R (x >>= f) := by
  intro s
  have h := hx s
  rw [bind_run]
  cases hrun : x s with
  | ok a t =>
    rw [hrun] at h
    exact hR _ _ _ h (hf a t)
  | error e t =>
    rw [hrun] at h
    exact h

/-- Two halves that change nothing. -/
theorem Keeps.eq_bind {x : EStateM ε σ α} {f : α → EStateM ε σ β} (hx : Keeps Eq x) (hf : ∀ a, Keeps Eq (f a)) :
    Keeps Eq (x >>= f) :=
  .bind (fun _ _ _ h1 h2 => h1.trans h2) hx hf

theorem Keeps.get {f : σ → EStateM ε σ α} (hf : ∀ t, Keeps R (f t)) : Keeps R (MonadState.get >>= f) := fun s => hf s s

theorem Keeps.ite {c : Prop} [Decidable c] {x y : EStateM ε σ α} (hx : Keeps R x) (hy : Keeps R y) :
    Keeps R (if c then x else y) := by
  split
  · exact hx
  · exact hy

/-- Behind code that changes nothing: it stopped, or what follows runs in the same state. -/
theorem Keeps.check {P : EStateM.Result ε σ β → Prop} {x : EStateM ε σ α} {f : α → EStateM ε σ β} {s : σ} (hx : Keeps Eq x)
    (herr : ∀ e, P (.error e s)) (hf : ∀ a, P (f a s)) : P ((x >>= f) s) := by
  have h := hx s
  rw [bind_run]
  cases hrun : x s with
  | ok a t =>
    rw [hrun] at h
    cases h
    exact hf a
  | error e t =>
    rw [hrun] at h
    cases h
    exact herr e

end Keeps

/-! ## What the runs that return maintain -/

/-- A run from a state in `P` that returns ends in a state in `P`. -/
def Maintains (P : σ → Prop) (x : EStateM ε σ α) : Prop := ∀ s a s', P s → x s = .ok a s' → P s'

section Maintains

variable {P : σ → Prop}

theorem Maintains.pure (a : α) : Maintains P (pure a : EStateM ε σ α) := by
  intro s b s' h hrun
  cases hrun
  exact h

theorem Maintains.throw (e : ε) : Maintains P (throw e : EStateM ε σ α) := nofun

theorem Maintains.modify {f : σ → σ} (hf : ∀ s, P s → P (f s)) : Maintains P (modify f : EStateM ε σ PUnit) := by
  intro s a s' h hrun
  cases hrun
  exact hf s h

theorem Maintains.bind {x : EStateM ε σ α} {f : α → EStateM ε σ β} (hx : Maintains P x) (hf : ∀ a, Maintains P (f a)) :
    Maintains P (x >>= f) := by
  intro s b s' h hrun
  obtain ⟨a, t, hxt, hft⟩ := bind_eq_ok.1 hrun
  exact hf a t b s' (hx s a t h hxt) hft

theorem Maintains.get {f : σ → EStateM ε σ α} (hf : ∀ t, Maintains P (f t)) : Maintains P (MonadState.get >>= f) :=
  fun s => hf s s

theorem Maintains.ite {c : Prop} [Decidable c] {x y : EStateM ε σ α} (hx : Maintains P x) (hy : Maintains P y) :
    Maintains P (if c then x else y) := by
  split
  · exact hx
  · exact hy

end Maintains

/-! ## What a run does not stop with -/

/-- However it starts, the code does not stop with `e`. -/
def Avoids (e : ε) (x : EStateM ε σ α) : Prop := ∀ s, stops (x s) ≠ some e

section Avoids

variable {e : ε}

theorem Avoids.pure (a : α) : Avoids e (pure a : EStateM ε σ α) := fun _ => nofun

theorem Avoids.throw {e' : ε} (h : e' ≠ e) : Avoids e (throw e' : EStateM ε σ α) := fun _ he => h (Option.some.inj he)

theorem Avoids.modify (f : σ → σ) : Avoids e (modify f : EStateM ε σ PUnit) := fun _ => nofun

theorem Avoids.bind {x : EStateM ε σ α} {f : α → EStateM ε σ β} (hx : Avoids e x) (hf : ∀ a, Avoids e (f a)) :
    Avoids e (x >>= f) := by
  intro s
  cases hrun : x s with
  | ok a s' =>
    rw [bind_ok hrun]
    exact hf a s'
  | error e' s' =>
    have := hx s
    rw [bind_error hrun]
    rwa [hrun] at this

theorem Avoids.get {f : σ → EStateM ε σ α} (hf : ∀ t, Avoids e (f t)) : Avoids e (MonadState.get >>= f) := fun s => hf s s

theorem Avoids.ite {c : Prop} [Decidable c] {x y : EStateM ε σ α} (hx : Avoids e x) (hy : Avoids e y) :
    Avoids e (if c then x else y) := by
  split
  · exact hx
  · exact hy

end Avoids

/-! ## A part of a larger state -/

/-- Runs a computation on one part of a larger state. -/
def zoom (get : τ → σ) (put : σ → τ → τ) (x : EStateM ε σ α) : EStateM ε τ α := fun t =>
  match x (get t) with
  | .ok a s => .ok a (put s t)
  | .error e s => .error e (put s t)

theorem zoom_ok {get : τ → σ} {put : σ → τ → τ} {x : EStateM ε σ α} {t : τ} {a : α} {s : σ}
    (h : x (get t) = .ok a s) : zoom get put x t = .ok a (put s t) := by
  unfold zoom; rw [h]

theorem zoom_eq_ok {get : τ → σ} {put : σ → τ → τ} {x : EStateM ε σ α} {t t' : τ} {a : α} :
    zoom get put x t = .ok a t' ↔ ∃ s, x (get t) = .ok a s ∧ t' = put s t := by
  unfold zoom
  cases x (get t) with
  | ok b s =>
    simp only [EStateM.Result.ok.injEq]
    constructor
    · rintro ⟨rfl, rfl⟩; exact ⟨s, ⟨rfl, rfl⟩, rfl⟩
    · rintro ⟨s', ⟨rfl, rfl⟩, rfl⟩; exact ⟨rfl, rfl⟩
  | error e s => simp

theorem stops_zoom (get : τ → σ) (put : σ → τ → τ) (x : EStateM ε σ α) (t : τ) : stops (zoom get put x t) = stops (x (get t)) := by
  unfold zoom
  cases x (get t) <;> rfl

theorem final_zoom (get : τ → σ) (put : σ → τ → τ) (x : EStateM ε σ α) (t : τ) :
    final (zoom get put x t) = put (final (x (get t))) t := by
  unfold zoom
  cases x (get t) <;> rfl

/-! ## Local state -/

/-- Runs a computation on a state of its own, which it starts with and which nothing else sees. -/
def calls (x : EStateM ε τ α) (t : τ) : EStateM ε σ α := fun s =>
  match x t with
  | .ok a _ => .ok a s
  | .error e _ => .error e s

theorem calls_ok {x : EStateM ε τ α} {t t' : τ} {a : α} (h : x t = .ok a t') (s : σ) : calls x t s = .ok a s := by
  unfold calls
  rw [h]

theorem calls_error {x : EStateM ε τ α} {t t' : τ} {e : ε} (h : x t = .error e t') (s : σ) : calls x t s = .error e s := by
  unfold calls
  rw [h]

/-! ## A run that follows another -/

/-- From `t`, the run of `y` returns what `x` returns from the state that `t` shows, and ends with its state on show. -/
def Follows (view : τ → σ) (t : τ) (x : EStateM ε σ α) (y : EStateM ε τ α) : Prop :=
  ∀ a s, x (view t) = .ok a s → ∃ t', y t = .ok a t' ∧ view t' = s

section Follows

variable {view : τ → σ} {t : τ}

theorem Follows.pure (t : τ) (a : α) : Follows view t (pure a : EStateM ε σ α) (pure a) := by
  intro b s h
  cases h
  exact ⟨t, rfl, rfl⟩

theorem Follows.bind {x : EStateM ε σ α} {y : EStateM ε τ α} {f : α → EStateM ε σ β} {g : α → EStateM ε τ β}
    (h : Follows view t x y) (hfg : ∀ a t', Follows view t' (f a) (g a)) : Follows view t (x >>= f) (y >>= g) := by
  intro b s hrun
  obtain ⟨a, r, hx, hf⟩ := bind_eq_ok.1 hrun
  obtain ⟨t₁, hy, rfl⟩ := h a r hx
  obtain ⟨t₂, hg, hs⟩ := hfg a t₁ b s hf
  exact ⟨t₂, bind_eq_ok.2 ⟨a, t₁, hy, hg⟩, hs⟩

/-- What is read from the state is read from what is on show. -/
theorem Follows.get {f : σ → EStateM ε σ β} {g : τ → EStateM ε τ β} (h : Follows view t (f (view t)) (g t)) :
    Follows view t (MonadState.get >>= f) (MonadState.get >>= g) := h

theorem Follows.update {f : σ → σ} {g : τ → τ} (h : view (g t) = f (view t)) :
    Follows view t (modify f : EStateM ε σ PUnit) (modify g) := by
  intro a s hrun
  cases hrun
  exact ⟨g t, rfl, h⟩

theorem Follows.stop (e : ε) (y : EStateM ε τ α) : Follows view t (throw e : EStateM ε σ α) y := nofun

theorem Follows.ite {c : Prop} [Decidable c] {x x' : EStateM ε σ α} {y y' : EStateM ε τ α} (h : Follows view t x y)
    (h' : Follows view t x' y') : Follows view t (if c then x else x') (if c then y else y') := by
  split
  · exact h
  · exact h'

end Follows

/-! ## What a run shows -/

/-- An outcome over a larger state, as it shows. -/
def shown (view : τ → σ) : EStateM.Result ε τ α → EStateM.Result ε σ α
  | .ok a t => .ok a (view t)
  | .error e t => .error e (view t)

/-- From every state in `I` the run of `y` shows the run of `x`, whether it returns or stops, and ends in `I`. -/
def Shows (view : τ → σ) (I : τ → Prop) (x : EStateM ε σ α) (y : EStateM ε τ α) : Prop :=
  ∀ t, I t → shown view (y t) = x (view t) ∧ I (final (y t))

section Shows

variable {view : τ → σ} {I : τ → Prop}

theorem stops_shown (r : EStateM.Result ε τ α) : stops (shown view r) = stops r := by
  cases r <;> rfl

theorem Shows.pure (a : α) : Shows view I (pure a : EStateM ε σ α) (pure a) := fun _ hI => ⟨rfl, hI⟩

theorem Shows.bind {x : EStateM ε σ α} {y : EStateM ε τ α} {f : α → EStateM ε σ β} {g : α → EStateM ε τ β} (h : Shows view I x y)
    (hfg : ∀ a, Shows view I (f a) (g a)) : Shows view I (x >>= f) (y >>= g) := by
  intro t hI
  obtain ⟨hshow, hend⟩ := h t hI
  rw [bind_run, bind_run, ← hshow]
  cases hy : y t with
  | ok a t' =>
    rw [hy] at hend
    exact hfg a t' hend
  | error e t' =>
    rw [hy] at hend
    exact ⟨rfl, hend⟩

end Shows

end Exec
