/-
interrupts_definations.asm: the stubs that the gates lead to. A stub puts its number into `rdi`, saves the registers, calls the
handler with the number and the address of what it saved, restores the registers and returns from the interrupt. As the number is
there before `rdi` is saved, code that is interrupted gets the number back in `rdi`, and everything else as it was.
-/
import Cing.Interrupts.Dispatch
import Cing.Lib.Stack

namespace Cing

/-- The registers that a stub saves. -/
inductive Reg where
  | rax | rbx | rcx | rdx | rsi | rdi | rbp | r8 | r9 | r10 | r11 | r12 | r13 | r14 | r15
deriving DecidableEq, Repr

/-- The processor, and the kernel it runs. -/
structure Processor (κ : Type) where
  stack : Stack.Machine Reg
  rip : UInt64
  cs : UInt64
  ss : UInt64
  rflags : UInt64
  kernel : IntrState κ

/-- Why an interrupt does not return. -/
inductive Fault where
  /-- The processor has no gate for the vector. -/
  | noGate (v : Nat)
  /-- The kernel stopped. -/
  | stopped (e : Stop)
deriving DecidableEq, Repr

abbrev ProcM (κ : Type) := EStateM Fault (Processor κ)

namespace Stub

open Idt Intr

variable {κ : Type}

/-! ## The code -/

/-- The C functions that stubs call. -/
inductive CFunction where
  | intrIsrHandler
  | intrIrqHandler

/-- The instructions of a stub. -/
inductive Instr where
  | cli
  | sti
  | movImm (r : Reg) (v : UInt64)
  | movRsp (r : Reg)
  | push (r : Reg)
  | pop (r : Reg)
  | call (f : CFunction)
  | iretq

/-- The pushes of a common stub. -/
def saved : List Reg := [.rax, .rbx, .rcx, .rdx, .rsi, .rdi, .rbp, .r8, .r9, .r10, .r11, .r12, .r13, .r14, .r15]

/-- The pops of a common stub. -/
def restored : List Reg := [.r15, .r14, .r13, .r12, .r11, .r10, .r9, .r8, .rbp, .rdi, .rsi, .rdx, .rcx, .rbx, .rax]

/-- `isr_common_stub` and `irq_common_stub`. -/
def commonStub (f : CFunction) : List Instr := saved.map .push ++ [.movRsp .rsi, .call f] ++ restored.map .pop ++ [.sti, .iretq]

/-- `def_isr_handler`. -/
def defIsrHandler (i : Nat) : List Instr := [.cli, .movImm .rdi (UInt64.ofNat i)] ++ commonStub .intrIsrHandler

/-- `def_irq_handler`. -/
def defIrqHandler (i : Nat) : List Instr := [.cli, .movImm .rdi (UInt64.ofNat (32 + i))] ++ commonStub .intrIrqHandler

/-! ## The processor -/

/-- The interrupt flag. -/
def interruptFlag : UInt64 := 0x200

/-- Runs code of the kernel. -/
def onKernel (x : IntrM κ Unit) : ProcM κ Unit := fun p =>
  match x p.kernel with
  | .ok a k => .ok a { p with kernel := k }
  | .error e k => .error (.stopped e) { p with kernel := k }

/-- The words of an interrupt frame are pushed: from the last one, at the lowest address, up. -/
def pushFrame (p : Processor κ) : Stack.Machine Reg :=
  Stack.push p.rip <| Stack.push p.cs <| Stack.push p.rflags <| Stack.push (UInt64.ofNat p.stack.top) <|
    Stack.push p.ss { p.stack with top := p.stack.top / 16 * 16 }

/-- The word `k` words above the top. -/
def frameWord (s : Stack.Machine Reg) (k : Nat) : UInt64 := UInt64.ofNat (Bytes.load s.mem (s.top + 8 * k) 8)

section Code

-- what the registered handlers do, what a call of C code leaves in the registers and the stack, and where the linker puts what
variable (run : κ → Nat → Nat → IntrM κ Unit) (abi : Stack.Machine Reg → Stack.Machine Reg) (sym : Symbols)
    (code : UInt64 → List Instr)

/-- A C function. -/
def callC : CFunction → Nat → Nat → IntrM κ Unit
  | .intrIsrHandler, id, _ => intrIsrHandler id
  | .intrIrqHandler, id, stackAddr => intrIrqHandler run id stackAddr

/-- An instruction. -/
def exec : Instr → ProcM κ Unit
  | .cli => modify fun p => { p with rflags := p.rflags &&& ~~~interruptFlag }
  | .sti => modify fun p => { p with rflags := p.rflags ||| interruptFlag }
  | .movImm r v => modify fun p => { p with stack := { p.stack with regs := Function.update p.stack.regs r v } }
  | .movRsp r => modify fun p =>
      { p with stack := { p.stack with regs := Function.update p.stack.regs r (UInt64.ofNat p.stack.top) } }
  | .push r => modify fun p => { p with stack := Stack.save r p.stack }
  | .pop r => modify fun p => { p with stack := Stack.restore r p.stack }
  | .call f => do
    let p ← get
    onKernel (callC run f (p.stack.regs .rdi).toNat (p.stack.regs .rsi).toNat)
    modify fun p => { p with stack := abi p.stack }
  | .iretq => modify fun p => { p with
      rip := frameWord p.stack 0, cs := frameWord p.stack 1, rflags := frameWord p.stack 2
      stack := { p.stack with top := (frameWord p.stack 3).toNat }, ss := frameWord p.stack 4 }

/-- What the processor does at an interrupt, if there is a gate for it: it saves where it is on the stack, which it aligns to 16
bytes before, and goes where the gate says. An interrupt gate clears the interrupt flag, a trap gate does not. -/
def enter (v : Nat) : ProcM κ Unit := do
  let p ← get
  let options := gateOptions p.kernel.idt v
  if v * 16 + 15 ≤ p.kernel.idtr.1 ∧ p.kernel.idtr.2 = sym.idt ∧ options.testBit 15 then
    set { p with
      stack := pushFrame p, rip := UInt64.ofNat (gateOffset p.kernel.idt v)
      cs := UInt64.ofNat (Bytes.load p.kernel.idt (v * idtGateLen + 2) 2)
      rflags := if options.testBit 8 then p.rflags else p.rflags &&& ~~~interruptFlag }
  else throw (.noGate v)

/-- An interrupt, from the instruction in front of which it comes up to that instruction. -/
def interrupt (v : Nat) : ProcM κ Unit := do
  enter sym v
  let p ← get
  (code p.rip).forM (exec run abi)

end Code

/-! ## Blocks of instructions -/

/-- C code keeps the stack of its caller. -/
def Abi (abi : Stack.Machine Reg → Stack.Machine Reg) : Prop := ∀ s, Stack.Kept s (abi s)

/-- The stubs are where the linker says. -/
structure Linked (sym : Symbols) (code : UInt64 → List Instr) : Prop where
  isr : ∀ i < 256, ¬ (32 ≤ i ∧ i < 37) → code (sym.isr i) = defIsrHandler i
  irq : ∀ i < 5, code (sym.irq i) = defIrqHandler i

variable {run : κ → Nat → Nat → IntrM κ Unit} {abi : Stack.Machine Reg → Stack.Machine Reg} {sym : Symbols}
    {code : UInt64 → List Instr}

theorem forM_append {l l' : List Instr} {p p' : Processor κ} (h : l.forM (exec run abi) p = .ok () p') :
    (l ++ l').forM (exec run abi) p = l'.forM (exec run abi) p' := by
  induction l generalizing p with
  | nil =>
    cases h
    rfl
  | cons i l ih =>
    obtain ⟨_, p₁, hi, hl⟩ := Exec.bind_eq_ok.1 h
    rw [List.cons_append, Exec.forM_cons_ok hi]
    exact ih hl

theorem forM_push (rs : List Reg) (p : Processor κ) :
    (rs.map Instr.push).forM (exec run abi) p = .ok () { p with stack := Stack.saveAll rs p.stack } := by
  induction rs generalizing p with
  | nil => rfl
  | cons r rs ih => exact (Exec.forM_cons_ok (f := exec run abi) rfl _).trans (ih _)

theorem forM_pop (rs : List Reg) (p : Processor κ) :
    (rs.map Instr.pop).forM (exec run abi) p = .ok () { p with stack := Stack.restoreAll rs p.stack } := by
  induction rs generalizing p with
  | nil => rfl
  | cons r rs ih => exact (Exec.forM_cons_ok (f := exec run abi) rfl _).trans (ih _)

/-! ## The frame -/

/-- What the processor saves. -/
def frame (p : Processor κ) : List UInt64 := [p.rip, p.cs, p.rflags, UInt64.ofNat p.stack.top, p.ss]

theorem pushFrame_top (p : Processor κ) (hroom : 56 ≤ p.stack.top) : (pushFrame p).top + 40 = p.stack.top / 16 * 16 := by
  show p.stack.top / 16 * 16 - 8 - 8 - 8 - 8 - 8 + 40 = _
  omega

theorem pushFrame_holds (p : Processor κ) (hroom : 56 ≤ p.stack.top) :
    Stack.Holds (pushFrame p).mem (pushFrame p).top (frame p) := by
  have h0 : Stack.Holds p.stack.mem (p.stack.top / 16 * 16) [] := trivial
  have hlow : 48 ≤ p.stack.top / 16 * 16 := by omega
  refine Stack.holds_push ?_ <| Stack.holds_push ?_ <| Stack.holds_push ?_ <| Stack.holds_push ?_ <| Stack.holds_push ?_ h0
  all_goals
    simp only [Stack.push]
    omega

/-- Above the interrupted top nothing is written. -/
theorem pushFrame_mem (p : Processor κ) (hroom : 56 ≤ p.stack.top) {x : Nat} (hx : p.stack.top ≤ x) :
    (pushFrame p).mem x = p.stack.mem x := by
  have hlow : 48 ≤ p.stack.top / 16 * 16 := by omega
  unfold pushFrame
  rw [Stack.push_other, Stack.push_other, Stack.push_other, Stack.push_other, Stack.push_other]
  all_goals
    simp only [Stack.push]
    omega

theorem frameWord_of_holds {s : Stack.Machine Reg} {l : List UInt64} (h : Stack.Holds s.mem s.top l) (k : Nat) (hk : k < l.length) :
    frameWord s k = l[k] := by
  have hword : ∀ (a : Nat) (l : List UInt64) (k : Nat) (hk : k < l.length), Stack.Holds s.mem a l →
      Bytes.load s.mem (a + 8 * k) 8 = (l[k]).toNat := by
    intro a l
    induction l generalizing a with
    | nil => exact fun k hk => absurd hk (Nat.not_lt_zero k)
    | cons v l ih =>
      intro k hk h
      cases k with
      | zero => exact h.1
      | succ k =>
        have hrest := ih (a + 8) k (Nat.lt_of_succ_lt_succ hk) h.2
        rw [show a + 8 * (k + 1) = a + 8 + 8 * k by omega]
        exact hrest
  unfold frameWord
  rw [hword s.top l k hk h, UInt64.ofNat_toNat]

/-! ## A stub -/

/-- The interrupted state as a stub has it when it calls its handler, on the stack: the registers with the number for `rdi`, and
what the processor saved. -/
def context (v : Nat) (p : Processor κ) : List UInt64 :=
  saved.reverse.map (Function.update p.stack.regs .rdi (UInt64.ofNat v)) ++ frame p

/-- Where a stub leaves the context for its handler. -/
def contextAddr (p : Processor κ) : Nat := p.stack.top / 16 * 16 - 160

/-- The interrupted state again, with the number in `rdi`, and the kernel as the handler left it. Below the top of the stack there
is still the context that the handler got. -/
structure Resumed (v : Nat) (p p' : Processor κ) (k : IntrState κ) : Prop where
  regs : p'.stack.regs = Function.update p.stack.regs .rdi (UInt64.ofNat v)
  top : p'.stack.top = p.stack.top
  mem : ∀ x, p.stack.top ≤ x → p'.stack.mem x = p.stack.mem x
  rip : p'.rip = p.rip
  cs : p'.cs = p.cs
  ss : p'.ss = p.ss
  rflags : p'.rflags = p.rflags
  kernel : p'.kernel = k
  context : Stack.Holds p'.stack.mem (contextAddr p) (context v p)

theorem mem_saved (r : Reg) : r ∈ saved := by
  cases r <;> decide

theorem saved_reverse : saved.reverse = restored := rfl

/-- The stack when the registers are saved, with the number in `rdi` already. -/
def numbered (v : Nat) (p : Processor κ) : Stack.Machine Reg :=
  { pushFrame p with regs := Function.update p.stack.regs .rdi (UInt64.ofNat v) }

variable {v : Nat} {p q : Processor κ}

theorem saveAll_numbered_top (v : Nat) (hroom : 160 ≤ p.stack.top) : (Stack.saveAll saved (numbered v p)).top = contextAddr p := by
  have hframe := pushFrame_top p (by omega)
  have htop : (numbered v p).top = (pushFrame p).top := rfl
  have hlen : 8 * saved.length = 120 := rfl
  rw [Stack.saveAll_top, hlen]
  unfold contextAddr
  omega

theorem numbered_room (v : Nat) (hroom : 160 ≤ p.stack.top) : 8 * saved.length ≤ (numbered v p).top := by
  have hframe := pushFrame_top p (by omega)
  have htop : (numbered v p).top = (pushFrame p).top := rfl
  have hlen : 8 * saved.length = 120 := rfl
  omega

theorem context_holds (v : Nat) (hroom : 160 ≤ p.stack.top) :
    Stack.Holds (Stack.saveAll saved (numbered v p)).mem (contextAddr p) (context v p) := by
  rw [← saveAll_numbered_top v hroom]
  exact Stack.holds_saveAll (numbered_room v hroom) (pushFrame_holds p (by omega))

/-- The stack when the handler is called. -/
def called (v : Nat) (p : Processor κ) : Stack.Machine Reg :=
  { Stack.saveAll saved (numbered v p) with
    regs := Function.update (Stack.saveAll saved (numbered v p)).regs .rsi (UInt64.ofNat (Stack.saveAll saved (numbered v p)).top) }

theorem called_rdi (hv : v < 2 ^ 64) : ((called v p).regs .rdi).toNat = v := by
  have hreg : (called v p).regs .rdi = UInt64.ofNat v := by
    unfold called
    dsimp only
    rw [Function.update_of_ne (show Reg.rdi ≠ .rsi by decide), Stack.saveAll_regs]
    show Function.update p.stack.regs .rdi (UInt64.ofNat v) .rdi = _
    rw [Function.update_self]
  rw [hreg]
  exact UInt64.toNat_ofNat_of_lt' hv

theorem called_rsi (hroom : 160 ≤ p.stack.top) (htop : p.stack.top < 2 ^ 64) : ((called v p).regs .rsi).toNat = contextAddr p := by
  have hreg : (called v p).regs .rsi = UInt64.ofNat (contextAddr p) := by
    unfold called
    dsimp only
    rw [Function.update_self, saveAll_numbered_top v hroom]
  have haddr : contextAddr p < 2 ^ 64 := by
    unfold contextAddr
    omega
  rw [hreg]
  exact UInt64.toNat_ofNat_of_lt' haddr

/-- A stub up to the call. -/
def untilCall (v : Nat) : List Instr := [.cli, .movImm .rdi (UInt64.ofNat v)] ++ (saved.map Instr.push ++ [.movRsp .rsi])

/-- A stub after the call. -/
def sinceCall : List Instr := restored.map Instr.pop ++ [.sti, .iretq]

theorem stub_split (f : CFunction) (v : Nat) :
    [Instr.cli, .movImm .rdi (UInt64.ofNat v)] ++ commonStub f = untilCall v ++ (.call f :: sinceCall) := by
  unfold commonStub untilCall sinceCall
  simp only [List.append_assoc, List.cons_append, List.nil_append]

theorem untilCall_run (v : Nat) (hstack : q.stack = pushFrame p) :
    (untilCall v).forM (exec run abi) q = .ok () { q with stack := called v p, rflags := q.rflags &&& ~~~interruptFlag } := by
  obtain ⟨stack, rip, cs, ss, rflags, kernel⟩ := q
  obtain rfl : stack = pushFrame p := hstack
  unfold untilCall
  have hmov : [Instr.cli, .movImm .rdi (UInt64.ofNat v)].forM (exec run abi) ⟨pushFrame p, rip, cs, ss, rflags, kernel⟩ =
      .ok () ⟨numbered v p, rip, cs, ss, rflags &&& ~~~interruptFlag, kernel⟩ := rfl
  rw [forM_append hmov, forM_append (forM_push saved _)]
  rfl

/-- After a call that kept the stack, the pops find what the pushes left, and `iretq` the frame. -/
theorem sinceCall_run (hroom : 160 ≤ p.stack.top) (htop : p.stack.top < 2 ^ 64)
    (hkept : Stack.Kept (Stack.saveAll saved (numbered v p)) q.stack) :
    ∃ p', sinceCall.forM (exec run abi) q = .ok () p' ∧ Resumed v p p' q.kernel := by
  have hpops := Stack.restoreAll_saveAll (numbered_room v hroom) hkept
  have hregs : (fun r => if r ∈ saved then (numbered v p).regs r else q.stack.regs r) = (numbered v p).regs :=
    funext fun r => if_pos (mem_saved r)
  rw [saved_reverse, hregs] at hpops
  have hmem : ∀ x, (pushFrame p).top ≤ x → q.stack.mem x = (pushFrame p).mem x := by
    intro x hx
    have hle : contextAddr p ≤ x := by
      have hframe := pushFrame_top p (by omega)
      unfold contextAddr
      omega
    have hcall : q.stack.mem x = (Stack.saveAll saved (numbered v p)).mem x :=
      hkept.mem x (by rw [saveAll_numbered_top v hroom]; exact hle)
    exact hcall.trans (Stack.saveAll_other (numbered_room v hroom) hx)
  have hframe : Stack.Holds (Stack.restoreAll restored q.stack).mem (Stack.restoreAll restored q.stack).top (frame p) := by
    rw [hpops]
    exact (pushFrame_holds p (by omega)).congr fun x hx _ => hmem x hx
  have hlen : (frame p).length = 5 := rfl
  have hword := frameWord_of_holds hframe
  have hrun : (restored.map Instr.pop ++ [Instr.sti, Instr.iretq]).forM (exec run abi) q = _ := forM_append (forM_pop restored q)
  refine ⟨_, hrun, ?_⟩
  constructor
  · exact congrArg Stack.Machine.regs hpops
  · show (frameWord _ 3).toNat = _
    rw [hword 3 (by omega)]
    exact UInt64.toNat_ofNat_of_lt' htop
  · intro x hx
    have haligned := pushFrame_top p (by omega)
    exact ((congrArg (fun s => Stack.Machine.mem s x) hpops).trans (hmem x (by omega))).trans (pushFrame_mem p (by omega) hx)
  · exact hword 0 (by omega)
  · exact hword 1 (by omega)
  · exact hword 4 (by omega)
  · exact hword 2 (by omega)
  · rfl
  · have hctx : Stack.Holds q.stack.mem (contextAddr p) (context v p) := by
      refine (context_holds v hroom).congr fun x hx _ => hkept.mem x ?_
      rw [saveAll_numbered_top v hroom]
      exact hx
    show Stack.Holds (Stack.restoreAll restored q.stack).mem _ _
    rw [congrArg Stack.Machine.mem hpops]
    exact hctx

/-- What a stub does behind the frame: its handler gets the number and the address of the context. If the handler returns, then the
interrupted code is resumed, and if it stops, then everything does. -/
theorem stub_run (habi : Abi abi) (f : CFunction) (hv : v < 2 ^ 64) (hroom : 160 ≤ p.stack.top) (htop : p.stack.top < 2 ^ 64)
    (hstack : q.stack = pushFrame p) (hkernel : q.kernel = p.kernel) :
    match callC run f v (contextAddr p) p.kernel with
    | .ok _ k => ∃ p', ([Instr.cli, .movImm .rdi (UInt64.ofNat v)] ++ commonStub f).forM (exec run abi) q =
      .ok () p' ∧ Resumed v p p' k
    | .error e k => ∃ p', ([Instr.cli, .movImm .rdi (UInt64.ofNat v)] ++ commonStub f).forM (exec run abi) q =
      .error (.stopped e) p' ∧ p'.kernel = k := by
  have hargs : callC run f ((called v p).regs .rdi).toNat ((called v p).regs .rsi).toNat q.kernel =
      callC run f v (contextAddr p) p.kernel := by
    rw [called_rdi hv, called_rsi hroom htop, hkernel]
  rw [stub_split, forM_append (untilCall_run v hstack)]
  cases hcall : callC run f v (contextAddr p) p.kernel with
  | ok u k =>
    have hstep : exec run abi (.call f) { q with stack := called v p, rflags := q.rflags &&& ~~~interruptFlag } =
        .ok () { q with stack := abi (called v p), rflags := q.rflags &&& ~~~interruptFlag, kernel := k } := by
      refine Exec.bind_ok (Exec.get_run _) |>.trans ?_
      have hrun : onKernel (callC run f ((called v p).regs .rdi).toNat ((called v p).regs .rsi).toNat)
          { q with stack := called v p, rflags := q.rflags &&& ~~~interruptFlag } =
            .ok () { q with stack := called v p, rflags := q.rflags &&& ~~~interruptFlag, kernel := k } := by
        unfold onKernel
        dsimp only
        rw [hargs, hcall]
      exact Exec.bind_ok hrun
    dsimp only
    rw [Exec.forM_cons_ok hstep]
    exact sinceCall_run hroom htop ⟨(habi (called v p)).top, (habi (called v p)).mem⟩
  | error e k =>
    have hstep : exec run abi (.call f) { q with stack := called v p, rflags := q.rflags &&& ~~~interruptFlag } =
        .error (.stopped e) { q with stack := called v p, rflags := q.rflags &&& ~~~interruptFlag, kernel := k } := by
      refine Exec.bind_ok (Exec.get_run _) |>.trans ?_
      have hrun : onKernel (callC run f ((called v p).regs .rdi).toNat ((called v p).regs .rsi).toNat)
          { q with stack := called v p, rflags := q.rflags &&& ~~~interruptFlag } =
            .error (.stopped e) { q with stack := called v p, rflags := q.rflags &&& ~~~interruptFlag, kernel := k } := by
        unfold onKernel
        dsimp only
        rw [hargs, hcall]
      exact Exec.bind_error hrun
    exact ⟨_, Exec.forM_cons_error hstep _, rfl⟩

/-! ## Every vector -/

/-- What an interrupt does in the kernel: the first five hardware interrupts go to their handlers, whose context is at `a`, and
every other vector goes to the handler of the rest. -/
def dispatch (run : κ → Nat → Nat → IntrM κ Unit) (v a : Nat) : IntrM κ Unit :=
  if 32 ≤ v ∧ v < 37 then intrIrqHandler run v a else intrIsrHandler v

theorem code_stubOf (hlink : Linked sym code) (hv : v < 256) : ∃ f, code (stubOf sym v) =
    [Instr.cli, .movImm .rdi (UInt64.ofNat v)] ++ commonStub f ∧ ∀ a, callC run f v a = dispatch run v a := by
  unfold stubOf dispatch
  by_cases h : 32 ≤ v ∧ v < 37
  · rw [if_pos h]
    refine ⟨.intrIrqHandler, ?_, fun a => by rw [if_pos h]; rfl⟩
    rw [hlink.irq (v - 32) (by omega), defIrqHandler, show 32 + (v - 32) = v by omega]
  · rw [if_neg h]
    exact ⟨.intrIsrHandler, hlink.isr v hv h, fun a => by rw [if_neg h]; rfl⟩

/-- With the table of `intr_init`, the processor finds the stub of every vector, with its frame on the stack. -/
theorem enter_run (hinst : Installed sym p.kernel) (hv : v < 256) :
    ∃ q, enter sym v p = .ok () q ∧ q.stack = pushFrame p ∧ q.kernel = p.kernel ∧ q.rip = stubOf sym v := by
  have hentry := hinst.gates v hv
  have hgate : v * 16 + 15 ≤ p.kernel.idtr.1 ∧ p.kernel.idtr.2 = sym.idt ∧ (gateOptions p.kernel.idt v).testBit 15 := by
    rw [hinst.idtr]
    exact ⟨by dsimp only; omega, rfl, hentry.present⟩
  unfold enter
  rw [Exec.bind_ok (Exec.get_run p), if_pos hgate]
  refine ⟨_, rfl, rfl, rfl, ?_⟩
  dsimp only
  rw [hentry.offset, UInt64.ofNat_toNat]

/-- After `intr_init`, an interrupt by any vector does in the kernel what `dispatch` says. -/
theorem interrupt_run (hlink : Linked sym code) (habi : Abi abi) (hinst : Installed sym p.kernel) (hv : v < 256)
    (hroom : 160 ≤ p.stack.top) (htop : p.stack.top < 2 ^ 64) :
    match dispatch run v (contextAddr p) p.kernel with
    | .ok _ k => ∃ p', interrupt run abi sym code v p = .ok () p' ∧ Resumed v p p' k
    | .error e k => ∃ p', interrupt run abi sym code v p = .error (.stopped e) p' ∧ p'.kernel = k := by
  obtain ⟨q, henter, hstack, hkernel, hrip⟩ := enter_run hinst hv
  obtain ⟨f, hcode, hcall⟩ := @code_stubOf _ run _ _ _ hlink hv
  have hrun := @stub_run _ run _ v _ _ habi f (by omega) hroom htop hstack hkernel
  have hint : interrupt run abi sym code v p = ([Instr.cli, .movImm .rdi (UInt64.ofNat v)] ++ commonStub f).forM
      (exec run abi) q := by
    unfold interrupt
    rw [Exec.bind_ok henter, Exec.bind_ok (Exec.get_run q), hrip, hcode]
  rw [hint, ← hcall]
  exact hrun

/-- After `intr_init`, an interrupt by any vector, whatever it interrupts. A hardware interrupt up to 36 with a handler gets to its
handler, after the end of the interrupt was told, with its number and the address of the interrupted registers and frame; if the
handler returns, the interrupted code goes on with its registers, its flags and its stack as they were, but with the number in
`rdi`. Without a handler the kernel stops with a message that has the number in it. For every other vector nothing is told to the
controllers: the kernel stops with the number in the message below 40, and with the text of a check, which has no number, from 40
on. -/
theorem interrupt_outcome (hlink : Linked sym code) (habi : Abi abi) (hinst : Installed sym p.kernel) (hv : v < 256)
    (hroom : 160 ≤ p.stack.top) (htop : p.stack.top < 2 ^ 64) :
    (32 ≤ v ∧ v < 37 → ∀ hand, p.kernel.handlers v = some hand →
      match run hand v (contextAddr p) (acknowledged v p.kernel) with
      | .ok _ k => ∃ p', interrupt run abi sym code v p = .ok () p' ∧ Resumed v p p' k
      | .error e k => ∃ p', interrupt run abi sym code v p = .error (.stopped e) p' ∧ p'.kernel = k) ∧
    (32 ≤ v ∧ v < 37 → p.kernel.handlers v = none → ∃ p', interrupt run abi sym code v p =
      .error (.stopped (.panic (idText "Unhandled IRQ, id: " v))) p' ∧ p'.kernel = acknowledged v p.kernel) ∧
    (¬ (32 ≤ v ∧ v < 37) → v < 40 → ∃ p', interrupt run abi sym code v p =
      .error (.stopped (.panic (idText "TODO: intr_isr_handler, id = " v))) p' ∧ p'.kernel = p.kernel) ∧
    (40 ≤ v → ∃ p', interrupt run abi sym code v p = .error (.stopped (.assertFail "id < INTR_ID_MAX")) p' ∧
      p'.kernel = p.kernel) := by
  have hrun := @interrupt_run _ run _ _ _ _ _ hlink habi hinst hv hroom htop
  unfold dispatch at hrun
  refine ⟨fun hirq hand hhand => ?_, fun hirq hnone => ?_, fun hisr hlt => ?_, fun hge => ?_⟩
  · rw [if_pos hirq, intrIrqHandler_run, if_pos (show v < intrIdMax by unfold intrIdMax; omega), hhand] at hrun
    exact hrun
  · rw [if_pos hirq, intrIrqHandler_run, if_pos (show v < intrIdMax by unfold intrIdMax; omega), hnone] at hrun
    exact hrun
  · rw [if_neg hisr, intrIsrHandler_run, isrStop, if_pos (show v < intrIdMax from hlt)] at hrun
    exact hrun
  · rw [if_neg (by omega), intrIsrHandler_run, isrStop, if_neg (show ¬ v < intrIdMax from Nat.not_lt.2 hge)] at hrun
    exact hrun

/-- Stubs in a row. -/
def sym₀ : Symbols := ⟨UInt64.ofNat, fun i => UInt64.ofNat (1000 + i), 0x20000⟩

/-- The code at them. -/
def code₀ (a : UInt64) : List Instr := if a.toNat < 1000 then defIsrHandler a.toNat else defIrqHandler (a.toNat - 1000)

theorem linked₀ : Linked sym₀ code₀ := by
  refine ⟨fun i hi _ => ?_, fun i hi => ?_⟩
  · have ha : (sym₀.isr i).toNat = i := UInt64.toNat_ofNat_of_lt' (by show i < 2 ^ 64; omega)
    unfold code₀
    rw [ha, if_pos (by omega)]
  · have ha : (sym₀.irq i).toNat = 1000 + i := UInt64.toNat_ofNat_of_lt' (by show 1000 + i < 2 ^ 64; omega)
    unfold code₀
    rw [ha, if_neg (by omega), Nat.add_sub_cancel_left]

/-- A processor with a kernel. -/
def processor₀ (k : IntrState κ) : Processor κ :=
  { stack := ⟨fun _ => 7, 0x8000, fun _ => 0⟩, rip := 0x100000, cs := 8, ss := 0, rflags := 0x202, kernel := k }

/-- A division by zero, and a vector that nobody knows, right after `intr_init`. -/
theorem interrupt_outcome_first : ∃ p p₁ p₂ : Processor Empty,
    interrupt (fun h _ _ => h.elim) id sym₀ code₀ 0 p = .error (.stopped (.panic (idText "TODO: intr_isr_handler, id = " 0))) p₁ ∧
    interrupt (fun h _ _ => h.elim) id sym₀ code₀ 255 p = .error (.stopped (.assertFail "id < INTR_ID_MAX")) p₂ := by
  obtain ⟨k, -, hinst, -⟩ := @intrInit_run Empty sym₀ ⟨fun _ => 0, (0, 0), fun _ => none, [], fun _ => 0⟩
  have hout := fun v => @interrupt_outcome _ (fun h _ _ => h.elim) id _ _ v (processor₀ k) linked₀
    (fun s => ⟨rfl, fun _ _ => rfl⟩) hinst
  have hroom : 160 ≤ (processor₀ k).stack.top := show 160 ≤ 0x8000 by decide
  have htop : (processor₀ k).stack.top < 2 ^ 64 := show 0x8000 < 2 ^ 64 by decide
  obtain ⟨p₁, h₁, -⟩ := (hout 0 (by decide) hroom htop).2.2.1 (by decide) (by decide)
  obtain ⟨p₂, h₂, -⟩ := (hout 255 (by decide) hroom htop).2.2.2 (by decide)
  exact ⟨_, p₁, p₂, h₁, h₂⟩

/-! ## Runs -/

/-- A vector, and what the processor does before it is interrupted. -/
abbrev Event (κ : Type) := (Processor κ → Processor κ) × Nat

/-- Code that is interrupted does what it wants to the processor, the ports and the screen, but leaves room on the stack and keeps
off the tables of the interrupt module. -/
structure Interruptible (g : Processor κ → Processor κ) : Prop where
  idt : ∀ p, (g p).kernel.idt = p.kernel.idt
  idtr : ∀ p, (g p).kernel.idtr = p.kernel.idtr
  handlers : ∀ p, (g p).kernel.handlers = p.kernel.handlers
  room : ∀ p, 160 ≤ (g p).stack.top
  top : ∀ p, (g p).stack.top < 2 ^ 64

/-- Code that is interrupted again and again. -/
def interruptAll (run : κ → Nat → Nat → IntrM κ Unit) (abi : Stack.Machine Reg → Stack.Machine Reg) (sym : Symbols)
    (code : UInt64 → List Instr) : List (Event κ) → ProcM κ Unit
  | [] => pure ()
  | (g, v) :: l => do
    modify g
    interrupt run abi sym code v
    interruptAll run abi sym code l

/-- Such a run without the stubs: the code does what it does before each interrupt, then the vector is dispatched, and if that
returns, the code is resumed. The first dispatch that does not return ends the run. -/
inductive Interrupted (run : κ → Nat → Nat → IntrM κ Unit) : List (Event κ) → Processor κ → Option Stop → Processor κ → Prop
  | done (p : Processor κ) : Interrupted run [] p none p
  | resumed {g : Processor κ → Processor κ} {v : Nat} {l : List (Event κ)} {p p' q : Processor κ} {k : IntrState κ}
      {e : Option Stop} : dispatch run v (contextAddr (g p)) (g p).kernel = .ok () k → Resumed v (g p) p' k →
      Interrupted run l p' e q → Interrupted run ((g, v) :: l) p e q
  | stopped {g : Processor κ → Processor κ} {v : Nat} {l : List (Event κ)} {p q : Processor κ} {e : Stop} :
      dispatch run v (contextAddr (g p)) (g p).kernel = .error e q.kernel → Interrupted run ((g, v) :: l) p (some e) q

/-- How a run ended: it is through, or the kernel stopped. -/
def ended : Option Stop → Processor κ → EStateM.Result Fault (Processor κ) Unit
  | none, q => .ok () q
  | some e, q => .error (.stopped e) q

/-- The table of the processor is the same. -/
def SameTable (s s' : IntrState κ) : Prop := s'.idt = s.idt ∧ s'.idtr = s.idtr

theorem installed_same {s s' : IntrState κ} (h : Installed sym s) (hsame : SameTable s s') : Installed sym s' :=
  ⟨by rw [hsame.1]; exact h.gates, by rw [hsame.2]; exact h.idtr⟩

theorem dispatch_keeps (hkeep : ∀ h v a, Exec.Keeps SameTable (run h v a)) (v a : Nat) :
    Exec.Keeps SameTable (dispatch run v a) := by
  intro s
  have hack : SameTable s (acknowledged v s) := ⟨rfl, rfl⟩
  unfold dispatch
  split
  · rw [intrIrqHandler_run]
    split
    · cases s.handlers v with
      | none => exact hack
      | some hand =>
        have hrun := hkeep hand v a (acknowledged v s)
        exact ⟨hrun.1.trans hack.1, hrun.2.trans hack.2⟩
    · exact hack
  · rw [intrIsrHandler_run]
    exact ⟨rfl, rfl⟩

/-- Code that is interrupted by any vectors, any number of times, whatever it does in between. -/
theorem interruptAll_interrupted (hlink : Linked sym code) (habi : Abi abi) (hkeep : ∀ h v a, Exec.Keeps SameTable (run h v a))
    {l : List (Event κ)} (hl : ∀ ev ∈ l, Interruptible ev.1 ∧ ev.2 < 256) (hinst : Installed sym p.kernel) :
    ∃ e q, interruptAll run abi sym code l p = ended e q ∧ Interrupted run l p e q := by
  induction l generalizing p with
  | nil => exact ⟨none, p, rfl, .done p⟩
  | cons ev l ih =>
    obtain ⟨g, v⟩ := ev
    obtain ⟨⟨hg, hv⟩, hl⟩ := List.forall_mem_cons.1 hl
    have hinst := installed_same hinst ⟨hg.idt p, hg.idtr p⟩
    have hone := @interrupt_run _ run _ _ _ _ (g p) hlink habi hinst hv (hg.room p) (hg.top p)
    have htable := dispatch_keeps hkeep v (contextAddr (g p)) (g p).kernel
    have hbind : interruptAll run abi sym code ((g, v) :: l) p =
        (interrupt run abi sym code v >>= fun _ => interruptAll run abi sym code l) (g p) := rfl
    rw [hbind]
    cases hd : dispatch run v (contextAddr (g p)) (g p).kernel with
    | error e k =>
      rw [hd] at hone
      obtain ⟨q, hrun, rfl⟩ := hone
      exact ⟨some e, q, Exec.bind_error hrun, .stopped hd⟩
    | ok u k =>
      rw [hd] at hone htable
      obtain ⟨p', hrun, hres⟩ := hone
      obtain ⟨e, q, hrest, hall⟩ := ih hl (p := p') (by rw [hres.kernel]; exact installed_same hinst htable)
      exact ⟨e, q, (Exec.bind_ok hrun).trans hrest, .resumed hd hres hall⟩

end Stub

end Cing
