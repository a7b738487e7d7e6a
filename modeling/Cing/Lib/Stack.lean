/-
A stack of 64-bit words that grows downward in byte-addressed memory, and code that saves registers on it. What runs between saving
and restoring need only keep the top and the memory from the top on: then every saved register has its value back, whatever it was
set to.
-/
import Cing.Lib.Bytes

namespace Stack

/-- Registers of a kind `ρ`, the address of the top of the stack, and the memory the stack is in. -/
structure Machine (ρ : Type) where
  regs : ρ → UInt64
  top : Nat
  mem : Bytes.Mem

variable {ρ : Type}

/-- Pushes a word. -/
def push (v : UInt64) (s : Machine ρ) : Machine ρ := { s with top := s.top - 8, mem := Bytes.store s.mem (s.top - 8) 8 v.toNat }

/-- The word at the top. -/
def peek (s : Machine ρ) : UInt64 := UInt64.ofNat (Bytes.load s.mem s.top 8)

/-- Takes the word at the top away. -/
def drop (s : Machine ρ) : Machine ρ := { s with top := s.top + 8 }

/-- Pushes a register. -/
def save (r : ρ) (s : Machine ρ) : Machine ρ := push (s.regs r) s

/-- Pops into a register. -/
def restore [DecidableEq ρ] (r : ρ) (s : Machine ρ) : Machine ρ := { drop s with regs := Function.update s.regs r (peek s) }

/-- Pushes registers, the first one first. -/
def saveAll (l : List ρ) (s : Machine ρ) : Machine ρ := l.foldl (fun s r => save r s) s

/-- Pops into registers, the first one first. -/
def restoreAll [DecidableEq ρ] (l : List ρ) (s : Machine ρ) : Machine ρ := l.foldl (fun s r => restore r s) s

/-- The words from an address on. -/
def Holds (m : Bytes.Mem) : Nat → List UInt64 → Prop
  | _, [] => True
  | a, v :: l => Bytes.load m a 8 = v.toNat ∧ Holds m (a + 8) l

/-- The stack is as it was: its top, and the memory from there on. -/
structure Kept (s t : Machine ρ) : Prop where
  top : t.top = s.top
  mem : ∀ x, s.top ≤ x → t.mem x = s.mem x

/-! ## Words -/

variable {m m' : Bytes.Mem} {a : Nat} {v : UInt64} {l l' : List UInt64} {s t : Machine ρ} {rs : List ρ} {r : ρ}

theorem Holds.congr (h : Holds m a l) (hm : ∀ x, a ≤ x → x < a + 8 * l.length → m' x = m x) : Holds m' a l := by
  induction l generalizing a with
  | nil => trivial
  | cons v l ih =>
    rw [List.length_cons] at hm
    refine ⟨?_, ih h.2 fun x h1 h2 => hm x (by omega) (by omega)⟩
    rw [Bytes.load_congr fun x h1 h2 => hm x h1 (by omega)]
    exact h.1

theorem push_other {x : Nat} (htop : 8 ≤ s.top) (h : s.top ≤ x) : (push v s).mem x = s.mem x :=
  Bytes.store_outside _ _ _ _ _ (.inr (by omega))

/-- A word on the words that are there. -/
theorem holds_push (htop : 8 ≤ s.top) (h : Holds s.mem s.top l) : Holds (push v s).mem (push v s).top (v :: l) := by
  refine ⟨?_, ?_⟩
  · show Bytes.load (Bytes.store s.mem (s.top - 8) 8 v.toNat) (s.top - 8) 8 = v.toNat
    rw [Bytes.load_store_same]
    exact Nat.mod_eq_of_lt v.toNat_lt
  · show Holds (push v s).mem (s.top - 8 + 8) l
    rw [Nat.sub_add_cancel htop]
    exact h.congr fun x h1 _ => push_other htop h1

theorem peek_of_holds (h : Holds s.mem s.top (v :: l)) : peek s = v := by
  unfold peek
  rw [h.1]
  exact UInt64.ofNat_toNat

/-! ## Registers -/

@[simp] theorem save_regs (r : ρ) (s : Machine ρ) : (save r s).regs = s.regs := rfl

theorem saveAll_cons (r : ρ) (rs : List ρ) (s : Machine ρ) : saveAll (r :: rs) s = saveAll rs (save r s) := rfl

@[simp] theorem saveAll_regs (rs : List ρ) (s : Machine ρ) : (saveAll rs s).regs = s.regs := by
  induction rs generalizing s with
  | nil => rfl
  | cons r rs ih => rw [saveAll_cons, ih, save_regs]

theorem saveAll_top (rs : List ρ) (s : Machine ρ) : (saveAll rs s).top = s.top - 8 * rs.length := by
  induction rs generalizing s with
  | nil => rfl
  | cons r rs ih =>
    rw [saveAll_cons, ih, List.length_cons]
    show s.top - 8 - 8 * rs.length = _
    omega

/-- Saving writes below the top only. -/
theorem saveAll_other {x : Nat} (hroom : 8 * rs.length ≤ s.top) (h : s.top ≤ x) : (saveAll rs s).mem x = s.mem x := by
  induction rs generalizing s with
  | nil => rfl
  | cons r rs ih =>
    rw [List.length_cons] at hroom
    have htop : (save r s).top = s.top - 8 := rfl
    rw [saveAll_cons, ih (by omega) (by omega)]
    exact push_other (by omega) h

/-- What is on the stack after saving: the last register first. -/
theorem holds_saveAll (hroom : 8 * rs.length ≤ s.top) (h : Holds s.mem s.top l) :
    Holds (saveAll rs s).mem (saveAll rs s).top (rs.reverse.map s.regs ++ l) := by
  induction rs generalizing s l with
  | nil => exact h
  | cons r rs ih =>
    rw [List.length_cons] at hroom
    have htop : (save r s).top = s.top - 8 := rfl
    have hih := ih (s := save r s) (by omega) (holds_push (v := s.regs r) (by omega) h)
    rw [save_regs] at hih
    rw [saveAll_cons, List.reverse_cons, List.map_append, List.append_assoc]
    exact hih

variable [DecidableEq ρ]

/-- Restoring takes words that belong to the registers: each register is set to its own. -/
theorem restoreAll_of_holds {f : ρ → UInt64} (h : Holds s.mem s.top (rs.map f)) :
    restoreAll rs s = ⟨fun r => if r ∈ rs then f r else s.regs r, s.top + 8 * rs.length, s.mem⟩ := by
  induction rs generalizing s with
  | nil => simp [restoreAll]
  | cons r rs ih =>
    have hpeek : peek s = f r := peek_of_holds h
    have hstep : restoreAll (r :: rs) s = restoreAll rs (restore r s) := rfl
    rw [hstep, ih (s := restore r s) h.2]
    have hregs : (restore r s).regs = Function.update s.regs r (f r) := by
      unfold restore
      rw [hpeek]
    rw [hregs]
    refine congrArg₂ (fun g n => Machine.mk g n s.mem) (funext fun q => ?_) ?_
    · by_cases hq : q ∈ rs
      · rw [if_pos hq, if_pos (List.mem_cons_of_mem r hq)]
      · by_cases he : q = r
        · rw [if_neg hq, he, if_pos List.mem_cons_self, Function.update_self]
        · rw [if_neg hq, Function.update_of_ne he, if_neg (by simp [he, hq])]
    · show s.top + 8 + 8 * rs.length = _
      rw [List.length_cons]
      omega

/-- Saved, then anything that keeps the stack, then restored in the other order: the saved registers and the stack are as they
were. -/
theorem restoreAll_saveAll (hroom : 8 * rs.length ≤ s.top) (hkept : Kept (saveAll rs s) t) :
    restoreAll rs.reverse t = ⟨fun r => if r ∈ rs then s.regs r else t.regs r, s.top, t.mem⟩ := by
  have hsaved := holds_saveAll (l := []) hroom trivial
  rw [List.append_nil] at hsaved
  have hholds : Holds t.mem t.top (rs.reverse.map s.regs) := by
    rw [hkept.top]
    exact hsaved.congr fun x hx _ => hkept.mem x hx
  rw [restoreAll_of_holds hholds, List.length_reverse, hkept.top, saveAll_top, Nat.sub_add_cancel hroom]
  simp only [List.mem_reverse]

end Stack
