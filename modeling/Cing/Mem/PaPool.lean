/-
mem_frame.c: the lists of ranges of the bootstrap stage and the pool they are cut from, byte by byte. `pa_list_new_bootstrap` moves
a pointer over the header and the two arrays of a list and compares it with the end of the pool, and the pointer is moved on 64-bit
words: a count of 2^61 moves it by nothing.
-/
import Cing.Lib.Bytes
import Cing.Mem.Model

namespace Cing.Mem

/-- Memory, `_pa_list_bootstrap_next` and `boot_stage`. -/
structure PoolState where
  mem : Bytes.Mem
  next : Nat
  bootStage : Nat

abbrev PoolM := EStateM Stop PoolState

namespace Pool

section Code

-- `_pa_list_bootstrap_pool`
variable (dbg : Bool) (pool : Nat)

/-- Writes a word. -/
def write (a v : Nat) : PoolM Unit := modify fun s => { s with mem := Bytes.store s.mem a 8 v }

/-- Moves `_pa_list_bootstrap_next`, and checks it. -/
def advance (n : Nat) : PoolM Unit := do
  modify fun s => { s with next := u64 (s.next + n) }
  let s ← get
  kernelAssert (s.next ≤ u64 (pool + paListCapBootstrap)) "_pa_list_bootstrap_next <= end"

/-- `pa_list_new_bootstrap`: where the list is. -/
def paListNewBootstrap (nRange : Nat) : PoolM Nat := do
  let s ← get
  kernelAssert (s.bootStage < memBootstrapStageFinish) "boot_stage < MEM_BOOTSTRAP_STAGE_FINISH"
  kernelAssert (s.next < u64 (pool + paListCapBootstrap)) "_pa_list_bootstrap_next < end"
  let res := s.next
  advance pool 24
  write res nRange
  let s ← get
  write (res + 8) s.next
  advance pool (u64 (8 * nRange))
  let s ← get
  write (res + 16) s.next
  advance pool (u64 (8 * nRange))
  return res

/-- The list at an address: the words its header leads to. -/
def paListAt (m : Bytes.Mem) (list : Nat) : PaList where
  n := Bytes.load m list 8
  pa i := Bytes.load m (u64 (Bytes.load m (list + 8) 8 + 8 * i)) 8
  nPg i := Bytes.load m (u64 (Bytes.load m (list + 16) 8 + 8 * i)) 8

/-- `pa_list_set_range`. -/
def paListSetRange (list range pa nPg : Nat) : PoolM Unit := do
  let s ← get
  kernelAssertD dbg (range < Bytes.load s.mem list 8) "range < list->n"
  kernelAssertD dbg (memAlignCheck pa pageSize4K) "mem_align_check(pa, PAGE_SIZE_4K)"
  write (u64 (Bytes.load s.mem (list + 8) 8 + 8 * range)) pa
  let s ← get
  write (u64 (Bytes.load s.mem (list + 16) 8 + 8 * range)) nPg

end Code

/-! ## Where the lists are -/

/-- A list that was handed out, and its count. -/
structure PaSlot where
  addr : Nat
  n : Nat

/-- The bytes of a list: its header and the two arrays its header leads to. -/
def Stores (m : Bytes.Mem) (l : PaSlot) (x : Nat) : Prop :=
  (l.addr ≤ x ∧ x < l.addr + 24) ∨ (Bytes.load m (l.addr + 8) 8 ≤ x ∧ x < Bytes.load m (l.addr + 8) 8 + 8 * l.n) ∨
    (Bytes.load m (l.addr + 16) 8 ≤ x ∧ x < Bytes.load m (l.addr + 16) 8 + 8 * l.n)

/-- All of them are in the pool. -/
def Inside (pool : Nat) (m : Bytes.Mem) (l : PaSlot) : Prop := ∀ x, Stores m l x → pool ≤ x ∧ x < pool + paListCapBootstrap

/-- The pointer behind the first array of a new list does not pass 2^64. -/
def NoCarry (s : PoolState) (n : Nat) : Prop := s.next + 24 + 8 * n < 2 ^ 64

/-- What the calls reach from the start of the pool, with the lists handed out: counts whose first array does not pass 2^64, entries
of lists that are set at an index below the count, and the stages of the boot. -/
inductive Reach (dbg : Bool) (pool : Nat) : PoolState → List PaSlot → Prop
  | start (mem : Bytes.Mem) (bootStage : Nat) : Reach dbg pool ⟨mem, pool, bootStage⟩ []
  | new {s s' : PoolState} {ls : List PaSlot} {n res : Nat} (h : Reach dbg pool s ls) (hn : n < 2 ^ 64) (hcarry : NoCarry s n)
      (hrun : paListNewBootstrap pool n s = .ok res s') : Reach dbg pool s' (⟨res, n⟩ :: ls)
  | set {s s' : PoolState} {ls : List PaSlot} {l : PaSlot} {range pa nPg : Nat} (h : Reach dbg pool s ls) (hl : l ∈ ls)
      (hrange : range < l.n) (hrun : paListSetRange dbg l.addr range pa nPg s = .ok () s') : Reach dbg pool s' ls
  | stage {s : PoolState} {ls : List PaSlot} (h : Reach dbg pool s ls) (bootStage : Nat) :
      Reach dbg pool { s with bootStage := bootStage } ls

/-- A list that is laid out in one piece: the header, the addresses, the page counts. -/
structure Laid (m : Bytes.Mem) (l : PaSlot) : Prop where
  n : Bytes.load m l.addr 8 = l.n
  pa : Bytes.load m (l.addr + 8) 8 = l.addr + 24
  nPg : Bytes.load m (l.addr + 16) 8 = l.addr + 24 + 8 * l.n

/-- Where it ends. -/
def PaSlot.stop (l : PaSlot) : Nat := l.addr + 24 + 16 * l.n

/-- The lists lie one behind the other, the latest first. -/
structure Fine (pool : Nat) (s : PoolState) (ls : List PaSlot) : Prop where
  low : pool ≤ s.next
  high : s.next ≤ pool + paListCapBootstrap
  inside : ∀ l ∈ ls, pool ≤ l.addr ∧ l.stop ≤ s.next
  laid : ∀ l ∈ ls, Laid s.mem l
  apart : ls.Pairwise fun l l' => l'.stop ≤ l.addr

variable {dbg : Bool} {pool n res range pa nPg : Nat} {s s' : PoolState} {ls : List PaSlot} {l l' : PaSlot} {m m' : Bytes.Mem}

theorem Laid.stores_iff (h : Laid m l) (x : Nat) : Stores m l x ↔ l.addr ≤ x ∧ x < l.stop := by
  unfold Stores PaSlot.stop
  rw [h.pa, h.nPg]
  omega

theorem Laid.congr (h : Laid m l) (hm : ∀ x, l.addr ≤ x → x < l.addr + 24 → m' x = m x) : Laid m' l := by
  refine ⟨?_, ?_, ?_⟩
  · rw [Bytes.load_congr fun x h1 h2 => hm x h1 (by omega), h.n]
  · rw [Bytes.load_congr fun x h1 h2 => hm x (by omega) (by omega), h.pa]
  · rw [Bytes.load_congr fun x h1 h2 => hm x (by omega) (by omega), h.nPg]

theorem advance_ok {k : Nat} {u : Unit} (h : advance pool k s = .ok u s') :
    u64 (s.next + k) ≤ u64 (pool + paListCapBootstrap) ∧ s' = { s with next := u64 (s.next + k) } := by
  unfold advance at h
  rw [Exec.bind_ok (Exec.modify_run _ s), Exec.bind_ok (Exec.get_run _)] at h
  exact kernelAssert_ok h

/-- Where the linker puts the pool: below `VA_48_LOW_END`. -/
def Low (pool : Nat) : Prop := pool + paListCapBootstrap ≤ va48LowEnd + 1

instance (pool : Nat) : Decidable (Low pool) := inferInstanceAs (Decidable (_ ≤ _))

theorem Low.lt (h : Low pool) : pool + paListCapBootstrap < 2 ^ 48 := by
  unfold Low va48LowEnd at h
  omega

/-- A call that returns, in the order of its steps. -/
theorem paListNewBootstrap_ok (hpool : Low pool) (hrun : paListNewBootstrap pool n s = .ok res s') :
    res = s.next ∧ s.next + 24 ≤ pool + paListCapBootstrap ∧ u64 (s.next + 24 + u64 (8 * n)) ≤ pool + paListCapBootstrap ∧
      s'.next = u64 (u64 (s.next + 24 + u64 (8 * n)) + u64 (8 * n)) ∧ s'.next ≤ pool + paListCapBootstrap ∧
      s'.mem = Bytes.store (Bytes.store (Bytes.store s.mem s.next 8 n) (s.next + 8) 8 (s.next + 24)) (s.next + 16) 8
        (u64 (s.next + 24 + u64 (8 * n))) := by
  have hend := hpool.lt
  have hu : u64 (pool + paListCapBootstrap) = pool + paListCapBootstrap := u64_of_lt (hend.trans (by norm_num))
  unfold paListNewBootstrap at hrun
  rw [Exec.bind_ok (Exec.get_run s)] at hrun
  obtain ⟨-, hrun⟩ := kernelAssert_bind hrun
  obtain ⟨hlt, hrun⟩ := kernelAssert_bind hrun
  obtain ⟨_, s₁, hadv, hrun⟩ := Exec.bind_eq_ok.1 hrun
  obtain ⟨h1, rfl⟩ := advance_ok hadv
  rw [hu] at hlt h1
  have h24 : u64 (s.next + 24) = s.next + 24 := u64_of_lt (by omega)
  rw [h24] at h1 hrun
  unfold write at hrun
  rw [Exec.bind_ok (Exec.modify_run _ _), Exec.bind_ok (Exec.get_run _), Exec.bind_ok (Exec.modify_run _ _)] at hrun
  obtain ⟨_, s₂, hadv, hrun⟩ := Exec.bind_eq_ok.1 hrun
  obtain ⟨h2, rfl⟩ := advance_ok hadv
  rw [Exec.bind_ok (Exec.get_run _), Exec.bind_ok (Exec.modify_run _ _)] at hrun
  obtain ⟨_, s₃, hadv, hrun⟩ := Exec.bind_eq_ok.1 hrun
  obtain ⟨h3, rfl⟩ := advance_ok hadv
  rw [hu] at h2 h3
  injection hrun with hres hs'
  rw [← hres, ← hs']
  exact ⟨rfl, h1, h2, rfl, h3, rfl⟩

/-- The new list is laid out in one piece as far as its pointers go, and nothing else is written. -/
theorem paListNewBootstrap_laid (hpool : Low pool) (hn : n < 2 ^ 64) (hrun : paListNewBootstrap pool n s = .ok res s') :
    Bytes.load s'.mem res 8 = n ∧ Bytes.load s'.mem (res + 8) 8 = res + 24 ∧
      Bytes.load s'.mem (res + 16) 8 = u64 (res + 24 + u64 (8 * n)) ∧ ∀ x < res, s'.mem x = s.mem x := by
  obtain ⟨rfl, h1, h2, -, -, hmem⟩ := paListNewBootstrap_ok hpool hrun
  have hend := hpool.lt
  rw [hmem]
  refine ⟨?_, ?_, ?_, fun x hx => ?_⟩
  · rw [Bytes.load_store_other (by omega), Bytes.load_store_other (by omega), Bytes.load_store_same, Nat.mod_eq_of_lt (by omega)]
  · rw [Bytes.load_store_other (by omega), Bytes.load_store_same, Nat.mod_eq_of_lt (by omega)]
  · rw [Bytes.load_store_same, Nat.mod_eq_of_lt (by omega)]
  · rw [Bytes.store_outside _ _ _ _ _ (by omega), Bytes.store_outside _ _ _ _ _ (by omega),
      Bytes.store_outside _ _ _ _ _ (by omega)]

/-- Where the pointer does not pass 2^64 the checks compare what they should. -/
theorem paListNewBootstrap_next (hpool : Low pool) (hcarry : NoCarry s n) (hrun : paListNewBootstrap pool n s = .ok res s') :
    u64 (s.next + 24 + u64 (8 * n)) = s.next + 24 + 8 * n ∧ s'.next = s.next + 24 + 16 * n ∧
      s.next + 24 + 16 * n ≤ pool + paListCapBootstrap := by
  obtain ⟨-, -, h2, hnext, h3, -⟩ := paListNewBootstrap_ok hpool hrun
  have hend := hpool.lt
  unfold NoCarry at hcarry
  have h8 : u64 (8 * n) = 8 * n := u64_of_lt (by omega)
  have hsum : u64 (s.next + 24 + 8 * n) = s.next + 24 + 8 * n := u64_of_lt hcarry
  rw [h8, hsum] at h2
  rw [h8, hsum, u64_of_lt (by omega)] at hnext
  exact ⟨by rw [h8, hsum], by omega, by omega⟩

/-- Of two lists one ends before the other. -/
theorem Fine.order (h : Fine pool s ls) (hl : l ∈ ls) (hl' : l' ∈ ls) (hne : l ≠ l') : l.stop ≤ l'.addr ∨ l'.stop ≤ l.addr := by
  obtain ⟨i, hi, rfl⟩ := List.mem_iff_getElem.1 hl
  obtain ⟨j, hj, rfl⟩ := List.mem_iff_getElem.1 hl'
  rcases Nat.lt_trichotomy i j with hij | rfl | hij
  · exact .inr (List.pairwise_iff_getElem.1 h.apart i j hi hj hij)
  · exact absurd rfl hne
  · exact .inl (List.pairwise_iff_getElem.1 h.apart j i hj hi hij)

theorem Fine.new (h : Fine pool s ls) (hpool : Low pool) (hn : n < 2 ^ 64) (hcarry : NoCarry s n)
    (hrun : paListNewBootstrap pool n s = .ok res s') : Fine pool s' (⟨res, n⟩ :: ls) := by
  obtain ⟨hsum, hnext, hfit⟩ := paListNewBootstrap_next hpool hcarry hrun
  obtain ⟨hload, hpa, hnPg, hbelow⟩ := paListNewBootstrap_laid hpool hn hrun
  obtain rfl := (paListNewBootstrap_ok hpool hrun).1
  have hlow := h.low
  refine ⟨by omega, by omega, ?_, ?_, ?_⟩
  · intro l hl
    rcases List.mem_cons.1 hl with rfl | hl
    · exact ⟨hlow, hnext.ge⟩
    · have := h.inside l hl
      omega
  · intro l hl
    rcases List.mem_cons.1 hl with rfl | hl
    · exact ⟨hload, hpa, hnPg.trans hsum⟩
    · have hstop := (h.inside l hl).2
      unfold PaSlot.stop at hstop
      exact (h.laid l hl).congr fun x _ hx => hbelow x (by omega)
  · exact List.pairwise_cons.2 ⟨fun l hl => (h.inside l hl).2, h.apart⟩

/-! ## Setting an entry -/

/-- Where the two words of an entry are. -/
def PaSlot.paWord (l : PaSlot) (i : Nat) : Nat := l.addr + 24 + 8 * i

def PaSlot.nPgWord (l : PaSlot) (i : Nat) : Nat := l.addr + 24 + 8 * l.n + 8 * i

/-- What the list at a slot reports. -/
theorem paListAt_eq (hpool : Low pool) (hl : Laid m l) (hstop : l.stop ≤ pool + paListCapBootstrap) {i : Nat} (hi : i < l.n) :
    (paListAt m l.addr).pa i = Bytes.load m (l.paWord i) 8 ∧ (paListAt m l.addr).nPg i = Bytes.load m (l.nPgWord i) 8 := by
  have hend := hpool.lt
  unfold PaSlot.stop at hstop
  unfold paListAt PaSlot.paWord PaSlot.nPgWord
  dsimp only
  rw [hl.pa, hl.nPg, u64_of_lt (by omega), u64_of_lt (by omega)]
  exact ⟨rfl, rfl⟩

theorem paListSetRange_ok (hpool : Low pool) (hl : Laid s.mem l) (hstop : l.stop ≤ pool + paListCapBootstrap) (hrange : range < l.n)
    (hrun : paListSetRange dbg l.addr range pa nPg s = .ok () s') :
    s' = { s with mem := Bytes.store (Bytes.store s.mem (l.paWord range) 8 pa) (l.nPgWord range) 8 nPg } := by
  have hend := hpool.lt
  unfold PaSlot.stop at hstop
  unfold paListSetRange at hrun
  rw [Exec.bind_ok (Exec.get_run s)] at hrun
  have hrun := kernelAssertD_bind (kernelAssertD_bind hrun)
  unfold write at hrun
  rw [Exec.bind_ok (Exec.modify_run _ _), Exec.bind_ok (Exec.get_run _), hl.pa,
    u64_of_lt (by omega : l.addr + 24 + 8 * range < 2 ^ 64)] at hrun
  dsimp only at hrun
  rw [Bytes.load_store_other (by omega), hl.nPg, u64_of_lt (by omega : l.addr + 24 + 8 * l.n + 8 * range < 2 ^ 64),
    Exec.modify_run] at hrun
  injection hrun with _ hs'
  exact hs'.symm

/-- An entry is written behind the header of its list. -/
theorem Fine.set (h : Fine pool s ls) (hpool : Low pool) (hl : l ∈ ls) (hrange : range < l.n)
    (hrun : paListSetRange dbg l.addr range pa nPg s = .ok () s') : Fine pool s' ls := by
  have hstop := (h.inside l hl).2
  rw [paListSetRange_ok hpool (h.laid l hl) (hstop.trans h.high) hrange hrun]
  refine ⟨h.low, h.high, h.inside, fun l' hl' => ?_, h.apart⟩
  refine (h.laid l' hl').congr fun x hx hx' => ?_
  have hout : x < l.addr + 24 ∨ l.stop ≤ x := by
    rcases eq_or_ne l' l with rfl | hne
    · exact .inl hx'
    · rcases Fine.order h hl' hl hne with ho | ho
      · unfold PaSlot.stop at ho
        omega
      · exact .inr (ho.trans hx)
  unfold PaSlot.stop at hout
  dsimp only
  rw [Bytes.store_outside _ _ _ _ _ (by unfold PaSlot.nPgWord; omega),
    Bytes.store_outside _ _ _ _ _ (by unfold PaSlot.paWord; omega)]

theorem Reach.fine (hpool : Low pool) (h : Reach dbg pool s ls) : Fine pool s ls := by
  induction h with
  | start mem bootStage =>
    exact ⟨le_rfl, Nat.le_add_right _ _, fun l hl => absurd hl List.not_mem_nil, fun l hl => absurd hl List.not_mem_nil, .nil⟩
  | new h hn hcarry hrun ih => exact ih.new hpool hn hcarry hrun
  | set h hl hrange hrun ih => exact ih.set hpool hl hrange hrun
  | stage h bootStage ih => exact ⟨ih.low, ih.high, ih.inside, ih.laid, ih.apart⟩

/-- A call of `pa_list_set_range` changes what is reported for one entry: the entry has the new values, the other entries and the
counts are as before, and so is the number of pages of every other list. -/
structure OnlyEntry (dbg : Bool) (m m' : Bytes.Mem) (ls : List PaSlot) (l : PaSlot) (range pa nPg : Nat) : Prop where
  pa : (paListAt m' l.addr).pa range = pa
  nPg : (paListAt m' l.addr).nPg range = nPg
  n : ∀ l' ∈ ls, (paListAt m' l'.addr).n = (paListAt m l'.addr).n
  rangePa : ∀ l' ∈ ls, ∀ i < l'.n, l' ≠ l ∨ i ≠ range → ∀ t,
    paListRangePa dbg (paListAt m' l'.addr) i t = paListRangePa dbg (paListAt m l'.addr) i t
  rangeNPage : ∀ l' ∈ ls, ∀ i < l'.n, l' ≠ l ∨ i ≠ range → ∀ t,
    paListRangeNPage dbg (paListAt m' l'.addr) i t = paListRangeNPage dbg (paListAt m l'.addr) i t
  nPage : ∀ l' ∈ ls, l' ≠ l → paListNPage (paListAt m' l'.addr) = paListNPage (paListAt m l'.addr)

/-- The reports of an entry are read from its two words. -/
theorem reports_congr {list list' : PaList} {i : Nat} (hn : list'.n = list.n) (hpa : list'.pa i = list.pa i)
    (hnPg : list'.nPg i = list.nPg i) (dbg : Bool) (t : MemState) :
    paListRangePa dbg list' i t = paListRangePa dbg list i t ∧ paListRangeNPage dbg list' i t = paListRangeNPage dbg list i t := by
  unfold paListRangePa paListRangeNPage
  rw [hn, hpa, hnPg]
  exact ⟨rfl, rfl⟩

theorem paListNPage_congr {list list' : PaList} (hn : list'.n = list.n) (hnPg : ∀ i < list.n, list'.nPg i = list.nPg i) :
    paListNPage list' = paListNPage list := by
  have hloop : ∀ k ≤ list.n, paListNPageLoop list' k = paListNPageLoop list k := by
    intro k hk
    induction k with
    | zero => rfl
    | succ k ih => rw [paListNPageLoop, paListNPageLoop, ih (by omega), hnPg k (by omega)]
  unfold paListNPage
  rw [hn, hloop _ le_rfl]

theorem paListSetRange_only (hpool : Low pool) (h : Fine pool s ls) (hl : l ∈ ls) (hrange : range < l.n) (hpa : pa < 2 ^ 64)
    (hnPg : nPg < 2 ^ 64) (hrun : paListSetRange dbg l.addr range pa nPg s = .ok () s') :
    OnlyEntry dbg s.mem s'.mem ls l range pa nPg := by
  have hfine := h.set hpool hl hrange hrun
  have hstop : ∀ l' ∈ ls, l'.stop ≤ pool + paListCapBootstrap := fun l' hl' => (h.inside l' hl').2.trans h.high
  have hs' := paListSetRange_ok hpool (h.laid l hl) (hstop l hl) hrange hrun
  have hmem : s'.mem = Bytes.store (Bytes.store s.mem (l.paWord range) 8 pa) (l.nPgWord range) 8 nPg := by rw [hs']
  have hcount : ∀ l' ∈ ls, (paListAt s'.mem l'.addr).n = l'.n ∧ (paListAt s.mem l'.addr).n = l'.n :=
    fun l' hl' => ⟨(hfine.laid l' hl').n, (h.laid l' hl').n⟩
  -- the words of another entry are not the two that were written
  have hother : ∀ l' ∈ ls, ∀ i < l'.n, l' ≠ l ∨ i ≠ range → (paListAt s'.mem l'.addr).pa i = (paListAt s.mem l'.addr).pa i ∧
      (paListAt s'.mem l'.addr).nPg i = (paListAt s.mem l'.addr).nPg i := by
    intro l' hl' i hi hne
    obtain ⟨hpa', hnPg'⟩ := paListAt_eq hpool (hfine.laid l' hl') (hstop l' hl') hi
    obtain ⟨hpa₀, hnPg₀⟩ := paListAt_eq hpool (h.laid l' hl') (hstop l' hl') hi
    have hapart : l'.stop ≤ l.addr ∨ l.stop ≤ l'.addr ∨ l' = l ∧ i ≠ range := by
      by_cases he : l' = l
      · exact .inr (.inr ⟨he, hne.resolve_left fun hc => hc he⟩)
      · exact (h.order hl' hl he).imp_right .inl
    rw [hpa', hnPg', hpa₀, hnPg₀, hmem]
    unfold PaSlot.stop at hapart
    unfold PaSlot.paWord PaSlot.nPgWord
    rcases hapart with ha | ha | ⟨rfl, ha⟩
    · exact ⟨by rw [Bytes.load_store_other (by omega), Bytes.load_store_other (by omega)],
        by rw [Bytes.load_store_other (by omega), Bytes.load_store_other (by omega)]⟩
    · exact ⟨by rw [Bytes.load_store_other (by omega), Bytes.load_store_other (by omega)],
        by rw [Bytes.load_store_other (by omega), Bytes.load_store_other (by omega)]⟩
    · exact ⟨by rw [Bytes.load_store_other (by omega), Bytes.load_store_other (by omega)],
        by rw [Bytes.load_store_other (by omega), Bytes.load_store_other (by omega)]⟩
  obtain ⟨hpa', hnPg'⟩ := paListAt_eq hpool (hfine.laid l hl) (hstop l hl) hrange
  refine ⟨?_, ?_, fun l' hl' => (hcount l' hl').1.trans (hcount l' hl').2.symm, fun l' hl' i hi hne t => ?_,
    fun l' hl' i hi hne t => ?_, fun l' hl' hne => ?_⟩
  · rw [hpa', hmem, Bytes.load_store_other (by unfold PaSlot.paWord PaSlot.nPgWord; omega), Bytes.load_store_same,
      Nat.mod_eq_of_lt (by omega)]
  · rw [hnPg', hmem, Bytes.load_store_same, Nat.mod_eq_of_lt (by omega)]
  · exact (reports_congr ((hcount l' hl').1.trans (hcount l' hl').2.symm) (hother l' hl' i hi hne).1
      (hother l' hl' i hi hne).2 dbg t).1
  · exact (reports_congr ((hcount l' hl').1.trans (hcount l' hl').2.symm) (hother l' hl' i hi hne).1
      (hother l' hl' i hi hne).2 dbg t).2
  · refine paListNPage_congr ((hcount l' hl').1.trans (hcount l' hl').2.symm) fun i hi => ?_
    rw [(hcount l' hl').2] at hi
    exact (hother l' hl' i hi (.inl hne)).2

/-- A new list is in the pool if and only if the pointer behind its first array did not pass 2^64. -/
theorem paListNewBootstrap_inside_iff (hpool : Low pool) (h : Fine pool s ls) (hn : n < 2 ^ 64)
    (hrun : paListNewBootstrap pool n s = .ok res s') : Inside pool s'.mem ⟨res, n⟩ ↔ NoCarry s n := by
  have hend := hpool.lt
  constructor
  · intro hinside
    obtain ⟨-, hpa, -, -⟩ := paListNewBootstrap_laid hpool hn hrun
    obtain ⟨rfl, hheader, -⟩ := paListNewBootstrap_ok hpool hrun
    unfold NoCarry
    by_contra hc
    have hlast := hinside (s.next + 24 + 8 * n - 1) (.inr (.inl (by rw [hpa]; dsimp only; omega)))
    omega
  · intro hcarry x hx
    have hfine := h.new hpool hn hcarry hrun
    have hin := hfine.inside _ List.mem_cons_self
    have hhigh := hfine.high
    have hx' := ((hfine.laid _ List.mem_cons_self).stores_iff x).1 hx
    omega

/-- Where no pointer passes 2^64, the call of mem_page.c's model that counts the used bytes returns as well. -/
theorem paListNewBootstrap_counts (hpool : Low pool) (hcarry : NoCarry s n)
    (hrun : paListNewBootstrap pool n s = .ok res s') {t : MemState} (hstage : t.bootStage = s.bootStage)
    (hnext : pool + t.paListBootstrapNext = s.next) :
    Mem.paListNewBootstrap n t =
      .ok ⟨n, fun _ => 0, fun _ => 0⟩ { t with paListBootstrapNext := t.paListBootstrapNext + 24 + 8 * n + 8 * n } ∧
      pool + (t.paListBootstrapNext + 24 + 8 * n + 8 * n) = s'.next := by
  obtain ⟨-, hs', hfit⟩ := paListNewBootstrap_next hpool hcarry hrun
  have hbefore : t.bootStage < memBootstrapStageFinish := by
    unfold paListNewBootstrap at hrun
    rw [Exec.bind_ok (Exec.get_run s)] at hrun
    rw [hstage]
    exact (kernelAssert_bind hrun).1
  refine ⟨?_, by omega⟩
  unfold Mem.paListNewBootstrap
  rw [Exec.bind_ok (Exec.get_run t), Exec.bind_ok (kernelAssert_pos hbefore _ _), Exec.bind_ok (kernelAssert_pos (by omega) _ _),
    Exec.bind_ok (Exec.modify_run _ _), Exec.bind_ok (Exec.get_run _), Exec.bind_ok (kernelAssert_pos (by dsimp only; omega) _ _),
    Exec.bind_ok (Exec.modify_run _ _), Exec.bind_ok (Exec.get_run _), Exec.bind_ok (kernelAssert_pos (by dsimp only; omega) _ _),
    Exec.bind_ok (Exec.modify_run _ _), Exec.bind_ok (Exec.get_run _), Exec.bind_ok (kernelAssert_pos (by dsimp only; omega) _ _)]
  rfl

/-- In every run in which no pointer passes 2^64 the lists are inside the pool and apart, and setting an entry changes the reports
of that entry; and a call keeps this if and only if its pointer does not pass 2^64. -/
theorem pool_lists_apart (hpool : Low pool) (hreach : Reach dbg pool s ls) :
    (∀ l ∈ ls, Inside pool s.mem l) ∧ ls.Pairwise (fun l l' => ∀ x, ¬ (Stores s.mem l x ∧ Stores s.mem l' x)) ∧
      (∀ l ∈ ls, ∀ range < l.n, ∀ pa < 2 ^ 64, ∀ nPg < 2 ^ 64, ∀ s', paListSetRange dbg l.addr range pa nPg s = .ok () s' →
        OnlyEntry dbg s.mem s'.mem ls l range pa nPg) ∧
      ∀ n < 2 ^ 64, ∀ res s', paListNewBootstrap pool n s = .ok res s' → (Inside pool s'.mem ⟨res, n⟩ ↔ NoCarry s n) := by
  have h := hreach.fine hpool
  refine ⟨fun l hl x hx => ?_, ?_, fun l hl range hrange pa hpa nPg hnPg s' hrun =>
    paListSetRange_only hpool h hl hrange hpa hnPg hrun, fun n hn res s' hrun => paListNewBootstrap_inside_iff hpool h hn hrun⟩
  · have hin := h.inside l hl
    have hhigh := h.high
    have hx' := ((h.laid l hl).stores_iff x).1 hx
    omega
  · refine h.apart.imp_of_mem fun {l l'} hl hl' hle x hx => ?_
    have hx1 := ((h.laid l hl).stores_iff x).1 hx.1
    have hx2 := ((h.laid l' hl').stores_iff x).1 hx.2
    omega

/-- A pool at 1M. -/
def poolState₀ : PoolState := ⟨fun _ => 0, 0x100000, memBootstrapStage0⟩

/-- Two lists, and an entry of the first one is set: the lists stay apart, and only that entry is reported differently. -/
theorem pool_lists_apart_two : ∃ s₁ s₂ s₃, paListNewBootstrap 0x100000 2 poolState₀ = .ok 0x100000 s₁ ∧
    paListNewBootstrap 0x100000 1 s₁ = .ok 0x100038 s₂ ∧ paListSetRange true 0x100000 1 0x200000 3 s₂ = .ok () s₃ ∧
    (∀ x, ¬ (Stores s₃.mem ⟨0x100038, 1⟩ x ∧ Stores s₃.mem ⟨0x100000, 2⟩ x)) ∧
    OnlyEntry true s₂.mem s₃.mem [⟨0x100038, 1⟩, ⟨0x100000, 2⟩] ⟨0x100000, 2⟩ 1 0x200000 3 := by
  have hlow : Low 0x100000 := by decide
  have hok : Exec.isOk ((paListNewBootstrap 0x100000 2 >>= fun _ => paListNewBootstrap 0x100000 1 >>= fun _ =>
      paListSetRange true 0x100000 1 0x200000 3) poolState₀) = true := by decide +kernel
  obtain ⟨_, s₃, hall⟩ := Exec.exists_of_isOk hok
  obtain ⟨res₁, s₁, hrun₁, hrest⟩ := Exec.bind_eq_ok.1 hall
  obtain ⟨res₂, s₂, hrun₂, hset⟩ := Exec.bind_eq_ok.1 hrest
  have hres₁ : res₁ = 0x100000 := (paListNewBootstrap_ok hlow hrun₁).1
  have hcarry₁ : NoCarry poolState₀ 2 := by
    unfold NoCarry
    decide
  have hnext : s₁.next = 0x100038 := (paListNewBootstrap_next hlow hcarry₁ hrun₁).2.1
  have hres₂ : res₂ = 0x100038 := (paListNewBootstrap_ok hlow hrun₂).1.trans hnext
  have hcarry₂ : NoCarry s₁ 1 := by
    unfold NoCarry
    omega
  subst hres₁ hres₂
  have hreach : Reach true 0x100000 s₂ [⟨0x100038, 1⟩, ⟨0x100000, 2⟩] :=
    .new (.new (.start _ _) (by norm_num) hcarry₁ hrun₁) (by norm_num) hcarry₂ hrun₂
  have hfirst : (⟨0x100000, 2⟩ : PaSlot) ∈ ([⟨0x100038, 1⟩, ⟨0x100000, 2⟩] : List PaSlot) := .tail _ (.head _)
  have hrange : 1 < (⟨0x100000, 2⟩ : PaSlot).n := by decide
  refine ⟨s₁, s₂, s₃, hrun₁, hrun₂, hset, ?_,
    (pool_lists_apart hlow hreach).2.2.1 _ hfirst 1 hrange 0x200000 (by norm_num) 3 (by norm_num) s₃ hset⟩
  have hapart := (pool_lists_apart hlow (.set hreach hfirst hrange hset)).2.1
  exact (List.pairwise_cons.1 hapart).1 _ (.head _)

/-- A list of 2^61 ranges takes 24 bytes, and the next list begins where its arrays do. -/
theorem pool_list_aliases : ∃ s' s'', paListNewBootstrap 0x100000 (2 ^ 61) poolState₀ = .ok 0x100000 s' ∧
    paListNewBootstrap 0x100000 1 s' = .ok 0x100018 s'' ∧ ¬ Inside 0x100000 s''.mem ⟨0x100000, 2 ^ 61⟩ ∧
    Stores s''.mem ⟨0x100000, 2 ^ 61⟩ 0x100018 ∧ Stores s''.mem ⟨0x100018, 1⟩ 0x100018 := by
  have hlow : Low 0x100000 := by decide
  have hok : Exec.isOk ((paListNewBootstrap 0x100000 (2 ^ 61) >>= fun _ => paListNewBootstrap 0x100000 1) poolState₀) = true := by
    decide +kernel
  obtain ⟨res', s'', hboth⟩ := Exec.exists_of_isOk hok
  obtain ⟨res, s', hrun, hrun'⟩ := Exec.bind_eq_ok.1 hboth
  obtain ⟨hres, -, -, hnext, -, -⟩ := paListNewBootstrap_ok hlow hrun
  have hnext' : s'.next = 0x100018 := hnext.trans (by decide +kernel)
  have hres' := (paListNewBootstrap_ok hlow hrun').1
  rw [hnext'] at hres'
  rw [hres'] at hrun'
  obtain ⟨-, hpa, -, -⟩ := paListNewBootstrap_laid hlow (by norm_num) hrun
  have hkeep := (paListNewBootstrap_laid hlow (by norm_num) hrun').2.2.2
  rw [hres] at hrun hpa
  -- the second list leaves the header of the first
  have hpa' : Bytes.load s''.mem (0x100000 + 8) 8 = 0x100018 :=
    (Bytes.load_congr fun x _ hx => hkeep x (by omega)).trans hpa
  have hstores : ∀ x, 0x100018 ≤ x → x < 0x100018 + 8 * 2 ^ 61 → Stores s''.mem ⟨0x100000, 2 ^ 61⟩ x :=
    fun x h1 h2 => .inr (.inl ⟨by rw [hpa']; exact h1, by rw [hpa']; exact h2⟩)
  refine ⟨s', s'', hrun, hrun', fun hinside => ?_, hstores _ (by norm_num) (by norm_num), .inl ⟨by norm_num, by norm_num⟩⟩
  have hout := hinside 0x200000 (hstores _ (by norm_num) (by norm_num))
  unfold paListCapBootstrap at hout
  omega

end Pool

end Cing.Mem
