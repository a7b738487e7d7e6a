/-
mem_frame.c: the range of the kernel image that `_bootstrap_kernel_elf_symbols` computes. How many sections there are and how far
apart their entries are is read from the payload and not compared with its length; the end of a section is a 64-bit sum.
-/
import Cing.Mem.Frame

namespace Cing.Mem

section Payload

variable (elfInfo : Bytes.Mem)

/-- `secs->num`. -/
def elfNum : Nat := Bytes.load elfInfo 0 4

/-- Where entry `i` starts. -/
def elfEntry (i : Nat) : Nat := 12 + i * Bytes.load elfInfo 4 4

def elfType (i : Nat) : Nat := Bytes.load elfInfo (elfEntry elfInfo i + 4) 4

def elfAddr (i : Nat) : Nat := Bytes.load elfInfo (elfEntry elfInfo i + 16) 8

def elfSize (i : Nat) : Nat := Bytes.load elfInfo (elfEntry elfInfo i + 32) 8

/-- What is read of entry `i`: its type, and its address and size unless the type is 0. -/
def entryReads (i : Nat) : List (Nat × Nat) :=
  if elfType elfInfo i ≠ 0 then [(elfEntry elfInfo i + 32, 8), (elfEntry elfInfo i + 16, 8), (elfEntry elfInfo i + 4, 4)]
  else [(elfEntry elfInfo i + 4, 4)]

/-- Every section lies in the range of the kernel, and its two ends are those of sections. -/
structure Covers (s : FrameState) : Prop where
  covers : ∀ i < elfNum elfInfo, elfType elfInfo i ≠ 0 →
    s.kernStartPa ≤ elfAddr elfInfo i ∧ elfAddr elfInfo i + elfSize elfInfo i ≤ s.kernEndPa
  first : ∃ i < elfNum elfInfo, elfType elfInfo i ≠ 0 ∧ s.kernStartPa = elfAddr elfInfo i
  last : ∃ i < elfNum elfInfo, elfType elfInfo i ≠ 0 ∧ s.kernEndPa = elfAddr elfInfo i + elfSize elfInfo i

/-- The payload has room for the entries that are read. -/
def Roomy (elfInfoLen : Nat) : Prop := 8 ≤ elfInfoLen ∧ ∀ i < elfNum elfInfo, elfEntry elfInfo i + 8 ≤ elfInfoLen ∧
  (elfType elfInfo i ≠ 0 → elfEntry elfInfo i + 40 ≤ elfInfoLen)

end Payload

/-! ## The loop -/

variable {dbg : Bool} {elfInfo : Bytes.Mem} {n self elfInfoLen : Nat} {s s' : FrameState}

/-- What the first `n` rounds do. -/
structure Scanned (elfInfo : Bytes.Mem) (n : Nat) (s s' : FrameState) : Prop where
  reads : ∀ r, r ∈ s'.reads ↔ r ∈ s.reads ∨ ∃ i < n, r ∈ entryReads elfInfo i
  start : ∀ i < n, elfType elfInfo i ≠ 0 → s'.kernStartPa ≤ elfAddr elfInfo i
  start_of : s'.kernStartPa = s.kernStartPa ∨ ∃ i < n, elfType elfInfo i ≠ 0 ∧ s'.kernStartPa = elfAddr elfInfo i
  stop : ∀ i < n, elfType elfInfo i ≠ 0 → u64 (elfSize elfInfo i + elfAddr elfInfo i) ≤ s'.kernEndPa
  stop_of : s'.kernEndPa = s.kernEndPa ∨
    ∃ i < n, elfType elfInfo i ≠ 0 ∧ s'.kernEndPa = u64 (elfSize elfInfo i + elfAddr elfInfo i)

theorem elfRead_run (elfInfo : Bytes.Mem) (off n : Nat) (s : FrameState) :
    elfRead elfInfo off n s = .ok (Bytes.load elfInfo off n) { s with reads := (off, n) :: s.reads } := rfl

/-- One round, run to its end. -/
theorem elfRound_run (elfInfo : Bytes.Mem) (n : Nat) (s : FrameState) :
    ∃ s', elfRound elfInfo (elfEntry elfInfo n) s = .ok () s' ∧ s'.reads = entryReads elfInfo n ++ s.reads ∧
      s'.kernStartPa = (if elfType elfInfo n ≠ 0 then min (elfAddr elfInfo n) s.kernStartPa else s.kernStartPa) ∧
      s'.kernEndPa = if elfType elfInfo n ≠ 0 then max (u64 (elfSize elfInfo n + elfAddr elfInfo n)) s.kernEndPa
        else s.kernEndPa := by
  unfold elfRound entryReads
  rw [Exec.bind_ok (elfRead_run elfInfo _ 4 s), show Bytes.load elfInfo (elfEntry elfInfo n + 4) 4 = elfType elfInfo n from rfl]
  by_cases hty : elfType elfInfo n ≠ 0
  · rw [if_pos hty, if_pos hty, if_pos hty, if_pos hty, Exec.bind_ok (elfRead_run elfInfo _ 8 _),
      Exec.bind_ok (Exec.modify_run _ _), Exec.bind_ok (elfRead_run elfInfo _ 8 _), Exec.modify_run]
    refine ⟨_, rfl, rfl, ?_, ?_⟩
    · dsimp only
      rw [show Bytes.load elfInfo (elfEntry elfInfo n + 16) 8 = elfAddr elfInfo n from rfl]
      split
      · exact (min_eq_left (by omega)).symm
      · exact (min_eq_right (by omega)).symm
    · dsimp only
      rw [show Bytes.load elfInfo (elfEntry elfInfo n + 32) 8 = elfSize elfInfo n from rfl,
        show Bytes.load elfInfo (elfEntry elfInfo n + 16) 8 = elfAddr elfInfo n from rfl]
      split
      · exact (max_eq_left (by omega)).symm
      · exact (max_eq_right (by omega)).symm
  · rw [if_neg hty, if_neg hty, if_neg hty, if_neg hty]
    exact ⟨_, rfl, rfl, rfl, rfl⟩

/-- One round more. -/
theorem Scanned.succ {s₁ s₂ : FrameState} (h : Scanned elfInfo n s s₁) (hreads : s₂.reads = entryReads elfInfo n ++ s₁.reads)
    (hstart : s₂.kernStartPa = if elfType elfInfo n ≠ 0 then min (elfAddr elfInfo n) s₁.kernStartPa else s₁.kernStartPa)
    (hstop : s₂.kernEndPa = if elfType elfInfo n ≠ 0 then max (u64 (elfSize elfInfo n + elfAddr elfInfo n)) s₁.kernEndPa
    else s₁.kernEndPa) :
    Scanned elfInfo (n + 1) s s₂ := by
  have hlt : n < n + 1 := Nat.lt_succ_self n
  have hall : ∀ r, r ∈ s₂.reads ↔ r ∈ s.reads ∨ ∃ i < n + 1, r ∈ entryReads elfInfo i := by
    intro r
    rw [hreads, List.mem_append, h.reads, Nat.exists_lt_succ_right, or_left_comm, or_comm (a := r ∈ entryReads elfInfo n)]
  by_cases hty : elfType elfInfo n ≠ 0
  · rw [if_pos hty] at hstart hstop
    refine ⟨hall, fun i hi hi' => ?_, ?_, fun i hi hi' => ?_, ?_⟩
    · rcases Nat.lt_succ_iff_lt_or_eq.1 hi with hi | rfl
      · have hle := h.start i hi hi'
        omega
      · omega
    · rcases min_choice (elfAddr elfInfo n) s₁.kernStartPa with he | he
      · exact .inr ⟨n, hlt, hty, hstart.trans he⟩
      · rw [hstart, he]
        exact h.start_of.imp_right fun hat => hat.imp fun i hi => ⟨hi.1.trans hlt, hi.2⟩
    · rcases Nat.lt_succ_iff_lt_or_eq.1 hi with hi | rfl
      · have hle := h.stop i hi hi'
        omega
      · omega
    · rcases max_choice (u64 (elfSize elfInfo n + elfAddr elfInfo n)) s₁.kernEndPa with he | he
      · exact .inr ⟨n, hlt, hty, hstop.trans he⟩
      · rw [hstop, he]
        exact h.stop_of.imp_right fun hat => hat.imp fun i hi => ⟨hi.1.trans hlt, hi.2⟩
  · rw [if_neg hty] at hstart hstop
    refine ⟨hall, fun i hi hi' => ?_, ?_, fun i hi hi' => ?_, ?_⟩
    · rcases Nat.lt_succ_iff_lt_or_eq.1 hi with hi | rfl
      · rw [hstart]
        exact h.start i hi hi'
      · exact absurd hi' hty
    · rw [hstart]
      exact h.start_of.imp_right fun hat => hat.imp fun i hi => ⟨hi.1.trans hlt, hi.2⟩
    · rcases Nat.lt_succ_iff_lt_or_eq.1 hi with hi | rfl
      · rw [hstop]
        exact h.stop i hi hi'
      · exact absurd hi' hty
    · rw [hstop]
      exact h.stop_of.imp_right fun hat => hat.imp fun i hi => ⟨hi.1.trans hlt, hi.2⟩

theorem elfLoop_run (elfInfo : Bytes.Mem) (s : FrameState) (n : Nat) :
    ∃ s', elfLoop elfInfo (Bytes.load elfInfo 4 4) n s = .ok () s' ∧ Scanned elfInfo n s s' := by
  induction n with
  | zero =>
    refine ⟨s, rfl, fun r => ⟨.inl, ?_⟩, fun i hi => absurd hi (Nat.not_lt_zero i), .inl rfl,
      fun i hi => absurd hi (Nat.not_lt_zero i), .inl rfl⟩
    rintro (hr | ⟨i, hi, -⟩)
    · exact hr
    · exact absurd hi (Nat.not_lt_zero i)
  | succ n ih =>
    obtain ⟨s₁, hloop, hsc⟩ := ih
    obtain ⟨s₂, hround, hreads, hstart, hstop⟩ := elfRound_run elfInfo n s₁
    exact ⟨s₂, by rw [elfLoop, Exec.bind_ok hloop]; exact hround, hsc.succ hreads hstart hstop⟩

/-! ## When the range is right -/

/-- The reads stay in the payload if and only if the payload has room for the entries. -/
theorem Scanned.reads_inside_iff {s₀ : FrameState} (h : Scanned elfInfo (elfNum elfInfo) s₀ s) (h₀ : s₀.reads = [(4, 4), (0, 4)]) :
    (∀ r ∈ s.reads, r.1 + r.2 ≤ elfInfoLen) ↔ Roomy elfInfo elfInfoLen := by
  constructor
  · intro hin
    have hentry : ∀ i < elfNum elfInfo, ∀ r ∈ entryReads elfInfo i, r.1 + r.2 ≤ elfInfoLen := fun i hi r hr =>
      hin r ((h.reads r).2 (.inr ⟨i, hi, hr⟩))
    refine ⟨hin (4, 4) ((h.reads _).2 (.inl (h₀ ▸ List.mem_cons_self))), fun i hi => ⟨?_, fun hty => ?_⟩⟩
    · refine hentry i hi (elfEntry elfInfo i + 4, 4) ?_
      unfold entryReads
      split <;> simp
    · refine hentry i hi (elfEntry elfInfo i + 32, 8) ?_
      unfold entryReads
      rw [if_pos hty]
      exact List.mem_cons_self
  · rintro ⟨h8, hroom⟩ r hr
    rcases (h.reads r).1 hr with hr | ⟨i, hi, hr⟩
    · rw [h₀] at hr
      simp only [List.mem_cons, List.not_mem_nil, or_false] at hr
      rcases hr with rfl | rfl
      · exact h8
      · dsimp only
        omega
    · obtain ⟨htype, hrest⟩ := hroom i hi
      unfold entryReads at hr
      split at hr
      next hty =>
        have h40 := hrest hty
        simp only [List.mem_cons, List.not_mem_nil, or_false] at hr
        rcases hr with rfl | rfl | rfl <;> (dsimp only; omega)
      next =>
        rw [List.mem_singleton] at hr
        rw [hr]
        exact htype

/-- A range with something in it is right if and only if no section reaches 2^64. -/
theorem Scanned.covers_iff {s₀ : FrameState} (h : Scanned elfInfo (elfNum elfInfo) s₀ s) (hstart : s₀.kernStartPa = 2 ^ 64 - 1)
    (hstop : s₀.kernEndPa = 0) (hself : self < s.kernEndPa) (hself' : s.kernStartPa < self) :
    Covers elfInfo s ↔ ∀ i < elfNum elfInfo, elfType elfInfo i ≠ 0 → elfAddr elfInfo i + elfSize elfInfo i < 2 ^ 64 := by
  have hend : s.kernEndPa < 2 ^ 64 := by
    rcases h.stop_of with he | ⟨i, -, -, he⟩
    · omega
    · rw [he]
      exact Nat.mod_lt _ (by norm_num)
  constructor
  · intro hc i hi hty
    have hle := (hc.covers i hi hty).2
    omega
  · intro hno
    have hsum : ∀ i < elfNum elfInfo, elfType elfInfo i ≠ 0 →
        u64 (elfSize elfInfo i + elfAddr elfInfo i) = elfAddr elfInfo i + elfSize elfInfo i := by
      intro i hi hty
      have hlt := hno i hi hty
      rw [u64_of_lt (by omega), Nat.add_comm]
    refine ⟨fun i hi hty => ⟨h.start i hi hty, ?_⟩, ?_, ?_⟩
    · rw [← hsum i hi hty]
      exact h.stop i hi hty
    · rcases h.start_of with he | hat
      · omega
      · exact hat
    · rcases h.stop_of with he | ⟨i, hi, hty, he⟩
      · omega
      · exact ⟨i, hi, hty, he.trans (hsum i hi hty)⟩

/-- What `_bootstrap_kernel_elf_symbols` checks behind the loop. -/
def elfChecks (dbg : Bool) (self : Nat) : FrameM Unit := do
  let s ← get
  kernelAssert (u64Sub s.kernEndPa s.kernStartPa < 1024 * 1024 * 1024) "(_kern_end_pa - _kern_start_pa) < 1024 * 1024 * 1024"
  kernelAssert (self < s.kernEndPa) "(uptr_t)_bootstrap_kernel_elf_symbols < _kern_end_pa"
  kernelAssert (self > s.kernStartPa) "(uptr_t)_bootstrap_kernel_elf_symbols > _kern_start_pa"
  let valid ← memPaRangeValid dbg s.kernStartPa s.kernEndPa
  kernelAssert (valid = true) "mem_pa_range_valid(_kern_start_pa, _kern_end_pa)"

theorem memPaRangeValid_keeps (dbg : Bool) (start stop : Nat) : Exec.Keeps Eq (memPaRangeValid dbg start stop) :=
  .get fun _ => .eq_bind (kernelAssertD_keeps (fun _ => rfl) dbg _ _) fun _ => .pure (fun _ => rfl) _

theorem elfChecks_final (dbg : Bool) (self : Nat) (s : FrameState) : Exec.final (elfChecks dbg self s) = s := by
  have hkeeps : Exec.Keeps Eq (elfChecks dbg self) := by
    refine .get fun t => .eq_bind (kernelAssert_keeps (fun _ => rfl) _ _) fun _ => ?_
    refine .eq_bind (kernelAssert_keeps (fun _ => rfl) _ _) fun _ => ?_
    refine .eq_bind (kernelAssert_keeps (fun _ => rfl) _ _) fun _ => ?_
    exact .eq_bind (memPaRangeValid_keeps dbg _ _) fun _ => kernelAssert_keeps (fun _ => rfl) _ _
  exact (hkeeps s).symm

theorem elfChecks_ok (h : elfChecks dbg self s = .ok () s') : self < s.kernEndPa ∧ s.kernStartPa < self ∧ s' = s := by
  have hs' := elfChecks_final dbg self s
  rw [h, Exec.final_ok] at hs'
  unfold elfChecks at h
  rw [Exec.bind_ok (Exec.get_run s)] at h
  obtain ⟨-, h⟩ := kernelAssert_bind h
  obtain ⟨h1, h⟩ := kernelAssert_bind h
  obtain ⟨h2, h⟩ := kernelAssert_bind h
  exact ⟨h1, h2, hs'⟩

/-- The state before the loop. -/
def elfState (s : FrameState) : FrameState := { s with reads := [(4, 4), (0, 4)], kernStartPa := 2 ^ 64 - 1, kernEndPa := 0 }

/-- `_bootstrap_kernel_elf_symbols` gets through the loop. -/
theorem bootstrapKernelElfSymbols_run (dbg : Bool) (elfInfo : Bytes.Mem) (self : Nat) (hstage : s.bootStage = memBootstrapStage0)
    (hreads : s.reads = []) : ∃ s₁, bootstrapKernelElfSymbols dbg elfInfo self s = elfChecks dbg self s₁ ∧
      Scanned elfInfo (elfNum elfInfo) (elfState s) s₁ := by
  obtain ⟨s₁, hloop, hsc⟩ := elfLoop_run elfInfo (elfState s) (elfNum elfInfo)
  refine ⟨s₁, ?_, hsc⟩
  have hbegin : { s with reads := (4, 4) :: (0, 4) :: s.reads, kernStartPa := 2 ^ 64 - 1, kernEndPa := 0 } = elfState s := by
    rw [hreads]
    rfl
  rw [show elfNum elfInfo = Bytes.load elfInfo 0 4 from rfl] at hloop
  unfold bootstrapKernelElfSymbols
  rw [Exec.bind_ok (Exec.get_run s), Exec.bind_ok (kernelAssert_pos hstage _ s), Exec.bind_ok (elfRead_run elfInfo 0 4 s),
    Exec.bind_ok (elfRead_run elfInfo 4 4 _), Exec.bind_ok (Exec.modify_run _ _), hbegin, Exec.bind_ok hloop]
  rfl

/-- `_bootstrap_kernel_elf_symbols` reads inside of its payload if and only if the payload has room for the entries, and when it
returns, the range is right if and only if no section reaches 2^64. -/
theorem kernel_range_iff (dbg : Bool) (elfInfo : Bytes.Mem) (self elfInfoLen : Nat) (hstage : s.bootStage = memBootstrapStage0)
    (hreads : s.reads = []) :
    ((∀ r ∈ (Exec.final (bootstrapKernelElfSymbols dbg elfInfo self s)).reads, r.1 + r.2 ≤ elfInfoLen) ↔ Roomy elfInfo elfInfoLen) ∧
      ∀ s', bootstrapKernelElfSymbols dbg elfInfo self s = .ok () s' →
        (Covers elfInfo s' ↔ ∀ i < elfNum elfInfo, elfType elfInfo i ≠ 0 → elfAddr elfInfo i + elfSize elfInfo i < 2 ^ 64) := by
  obtain ⟨s₁, hrun, hsc⟩ := bootstrapKernelElfSymbols_run dbg elfInfo self hstage hreads
  constructor
  · rw [hrun, elfChecks_final]
    exact hsc.reads_inside_iff rfl
  · intro s' hs'
    rw [hrun] at hs'
    obtain ⟨h1, h2, rfl⟩ := elfChecks_ok hs'
    exact hsc.covers_iff rfl rfl h1 h2

/-- A payload with one section, of type 1. -/
def elfOf (addr size : Nat) : Bytes.Mem :=
  Bytes.store (Bytes.store (Bytes.store (Bytes.store (Bytes.store (fun _ => 0) 0 4 1) 4 4 64) 16 4 1) 28 8 addr) 44 8 size

/-- A machine with memory from 1M to 128M. -/
def elfState₀ : FrameState := { frameState₀ with sections := fun _ => ⟨0x100000, 0x7f00000⟩, secCnt := 1 }

theorem kernel_range_iff_one : ∃ s', bootstrapKernelElfSymbols true (elfOf 0x200000 0x1000) 0x200800 elfState₀ = .ok () s' ∧
    ((∀ r ∈ s'.reads, r.1 + r.2 ≤ 76) ↔ Roomy (elfOf 0x200000 0x1000) 76) ∧
    (Covers (elfOf 0x200000 0x1000) s' ↔ ∀ i < elfNum (elfOf 0x200000 0x1000), elfType (elfOf 0x200000 0x1000) i ≠ 0 →
      elfAddr (elfOf 0x200000 0x1000) i + elfSize (elfOf 0x200000 0x1000) i < 2 ^ 64) := by
  have hrun : bootstrapKernelElfSymbols true (elfOf 0x200000 0x1000) 0x200800 elfState₀ = .ok () _ :=
    Exec.ok_of_isOk (by decide +kernel)
  have h := kernel_range_iff true (elfOf 0x200000 0x1000) 0x200800 76 (show elfState₀.bootStage = memBootstrapStage0 from rfl) rfl
  exact ⟨_, hrun, h.1, h.2 _ hrun⟩

/-- A payload that ends behind the header, and still says that there is a section. -/
theorem elf_reads_behind : ¬ ∀ r ∈ (Exec.final (bootstrapKernelElfSymbols true (elfOf 0x200000 0x1000) 0x200800 elfState₀)).reads,
    r.1 + r.2 ≤ 12 := by
  decide +kernel

end Cing.Mem
