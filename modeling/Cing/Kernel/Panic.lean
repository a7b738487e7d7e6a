/-
kernel_panic.h: how kernel code stops. A failed assertion, a panic, an exception of the processor and a
loop that never ends are the ways a call does not return; `kernel_assert_d` is checked in the debug build only and is a
bare expression otherwise.
-/
import Cing.Lib.Exec

namespace Cing

/-- Why a call does not return. -/
inductive Stop where
  /-- `_kernel_assert_fail`, with the text of the expression. -/
  | assertFail (expr : String)
  /-- `_kernel_panic`, with its message. -/
  | panic (msg : String)
  /-- A memory access without translation. -/
  | pageFault (va : Nat)
  /-- A division by zero. -/
  | divideError
  /-- A loop that never ends. -/
  | hang
deriving DecidableEq, Repr

variable {σ : Type}

/-- `kernel_assert`. -/
def kernelAssert (c : Prop) [Decidable c] (expr : String) : EStateM Stop σ Unit :=
  if c then pure () else throw (.assertFail expr)

/-- `kernel_assert_d`, also `kernel_expect` and `kernel_ensure`: checked if `dbg`
(`BUILD_DEBUG_ENABLED`). -/
def kernelAssertD (dbg : Bool) (c : Prop) [Decidable c] (expr : String) : EStateM Stop σ Unit :=
  if dbg then kernelAssert c expr else pure ()

variable {c : Prop} [Decidable c] {s s' : σ}

theorem kernelAssert_pos (h : c) (expr : String) (s : σ) : kernelAssert c expr s = .ok () s := by
  unfold kernelAssert; rw [if_pos h]; rfl

theorem kernelAssert_neg (h : ¬ c) (expr : String) (s : σ) : kernelAssert c expr s = .error (.assertFail expr) s := by
  unfold kernelAssert; rw [if_neg h]; rfl

/-- What the debug build checks has to hold in that build only. -/
theorem kernelAssertD_of {dbg : Bool} (h : dbg = true → c) (expr : String) (s : σ) :
    kernelAssertD dbg c expr s = .ok () s := by
  unfold kernelAssertD
  cases dbg
  · rfl
  · exact kernelAssert_pos (h rfl) expr s

theorem kernelAssertD_pos (h : c) (dbg : Bool) (expr : String) (s : σ) :
    kernelAssertD dbg c expr s = .ok () s := kernelAssertD_of (fun _ => h) expr s

/-- The release build checks nothing. -/
theorem kernelAssertD_release (c : Prop) [Decidable c] (expr : String) (s : σ) : kernelAssertD false c expr s = .ok () s := rfl

theorem kernelAssertD_neg (h : ¬ c) (expr : String) (s : σ) :
    kernelAssertD true c expr s = .error (.assertFail expr) s := by
  unfold kernelAssertD; rw [if_pos rfl, kernelAssert_neg h]

theorem kernelAssert_congr {c' : Prop} [Decidable c'] (h : c ↔ c') (expr : String) :
    (kernelAssert c expr : EStateM Stop σ Unit) = kernelAssert c' expr := by
  unfold kernelAssert
  by_cases hc : c
  · rw [if_pos hc, if_pos (h.1 hc)]
  · rw [if_neg hc, if_neg fun hc' => hc (h.2 hc')]

theorem kernelAssertD_congr {c' : Prop} [Decidable c'] (h : c ↔ c') (dbg : Bool) (expr : String) :
    (kernelAssertD dbg c expr : EStateM Stop σ Unit) = kernelAssertD dbg c' expr := by
  unfold kernelAssertD
  rw [kernelAssert_congr h]

theorem kernelAssert_avoids {e : Stop} {expr : String} (h : .assertFail expr ≠ e) : Exec.Avoids e
    (kernelAssert c expr : EStateM Stop σ Unit) :=
  .ite (.pure ()) (.throw h)

theorem kernelAssert_ok {expr : String} (h : kernelAssert c expr s = .ok () s') : c ∧ s' = s := by
  unfold kernelAssert at h
  split at h
  · rw [Exec.pure_run] at h; cases h; exact ⟨‹_›, rfl⟩
  · cases h

theorem kernelAssert_follows {τ : Type} {view : τ → σ} {t : τ} {c' : Prop} [Decidable c'] (h : c → c') (expr expr' : String) :
    Exec.Follows view t (kernelAssert c expr) (kernelAssert c' expr') := by
  intro a s' hrun
  obtain ⟨hc, rfl⟩ := kernelAssert_ok hrun
  exact ⟨t, kernelAssert_pos (h hc) _ t, rfl⟩

theorem kernelAssert_bind {α : Type} {expr : String} {f : Unit → EStateM Stop σ α} {a : α}
    (h : (kernelAssert c expr >>= f) s = .ok a s') : c ∧ f () s = .ok a s' := by
  obtain ⟨_, t, hrun, hf⟩ := Exec.bind_eq_ok.1 h
  obtain ⟨hc, rfl⟩ := kernelAssert_ok hrun
  exact ⟨hc, hf⟩

/-- In either build, what follows a check that passed runs in the same state. -/
theorem kernelAssertD_bind {α : Type} {dbg : Bool} {expr : String} {f : Unit → EStateM Stop σ α} {a : α}
    (h : (kernelAssertD dbg c expr >>= f) s = .ok a s') : f () s = .ok a s' := by
  obtain ⟨_, t, hc, hf⟩ := Exec.bind_eq_ok.1 h
  cases dbg with
  | false => cases hc; exact hf
  | true => rw [← (kernelAssert_ok hc).2]; exact hf

theorem kernelAssertD_ok {expr : String} (h : kernelAssertD true c expr s = .ok () s') : c ∧ s' = s :=
  kernelAssert_ok h

/-- A check changes nothing. -/
theorem kernelAssert_keeps {R : σ → σ → Prop} (hR : ∀ s, R s s) (c : Prop) [Decidable c] (expr : String) :
    Exec.Keeps R (kernelAssert c expr : EStateM Stop σ Unit) := .ite (.pure hR _) (.throw hR _)

theorem kernelAssertD_keeps {R : σ → σ → Prop} (hR : ∀ s, R s s) (dbg : Bool) (c : Prop) [Decidable c] (expr : String) :
    Exec.Keeps R (kernelAssertD dbg c expr : EStateM Stop σ Unit) := .ite (kernelAssert_keeps hR c expr) (.pure hR _)

end Cing
