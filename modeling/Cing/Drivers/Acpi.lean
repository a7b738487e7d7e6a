/-
drivers_acpi.c: the tables that the root table of the firmware leads to. `_init_rsdt` and `_init_xsdt` take the number of pointers
behind the header from the length in the header, on words that wrap: a length below that of a header makes the number huge. A table
whose signature is MCFG goes to the PCIe driver with its length less 44, on 32-bit words.
-/
import Cing.Drivers.Pcie
import Cing.Kernel.BootInfo

namespace Cing

/-- The state of the PCIe driver, how far behind the start of the root table pointers were read, and the calls of `d_pcie_bootstrap`
(where the table is, how long). -/
structure AcpiState where
  pcie : PcieState
  reads : List Nat
  calls : List (Nat × Nat)

abbrev AcpiM := EStateM Stop AcpiState

namespace Acpi

open Boot (u32Sub)

/-! ## The code -/

/-- `sizeof(sdt_header_t)`, also `sizeof(xsdt_t)`. -/
def sdtHeaderSize : Nat := 36

section Code

-- `log i h` is what becomes of the line about the table at `h`, whose text may be too long for its buffer
variable (mem : Bytes.Mem) (log : Nat → Nat → Option Stop)

/-- The length of a table, from its header. -/
def sdtLen (h : Nat) : Nat := Bytes.load mem (u64 (h + 4)) 4

/-- `mm_compare` of the signature of a table and MCFG. -/
def isMcfg (h : Nat) : Bool := Bytes.load mem h 4 = 0x4746434d

/-- The pointer at an index of the root table at `sdt`. -/
def sdtEntry (width sdt i : Nat) : Nat := Bytes.load mem (u64 (sdt + (sdtHeaderSize + width * i))) width

/-- The bytes behind an address. -/
def bytesAt (a : Nat) : Bytes.Mem := fun x => mem (u64 (a + x))

/-- `log_line_format` of a table. -/
def logTable (i h : Nat) : AcpiM Unit :=
  match log i h with
  | none => return ()
  | some e => throw e

/-- Hands a table to `d_pcie_bootstrap`. -/
def callPcie (mcfg len : Nat) : AcpiM Unit := do
  modify fun s => { s with calls := (mcfg, len) :: s.calls }
  Exec.zoom AcpiState.pcie (fun p s => { s with pcie := p }) (Pcie.dPcieBootstrap mem (bytesAt mem mcfg) len)

/-- The body of the loops of `_init_rsdt` and `_init_xsdt`: a pointer of `width` bytes is read, and followed. -/
def scanRound (width sdt i : Nat) : AcpiM Unit := do
  modify fun s => { s with reads := (sdtHeaderSize + width * i) :: s.reads }
  logTable log i (sdtEntry mem width sdt i)
  if isMcfg mem (sdtEntry mem width sdt i) then
    callPcie mem (u64 (sdtEntry mem width sdt i + 44)) (u32Sub (sdtLen mem (sdtEntry mem width sdt i)) 44)
  else return ()

/-- The first `n` rounds of the loops. -/
def scanLoop (width sdt : Nat) : Nat → AcpiM Unit
  | 0 => return ()
  | n + 1 => do
    scanLoop width sdt n
    scanRound mem log width sdt n

/-- `_init_rsdt`. -/
def initRsdt (rsdt : Nat) : AcpiM Unit := scanLoop mem log 4 rsdt (u64Sub (sdtLen mem rsdt) sdtHeaderSize / 4)

/-- `_init_xsdt`. -/
def initXsdt (xsdt : Nat) : AcpiM Unit := do
  let entryCnt := u64Sub (sdtLen mem xsdt) sdtHeaderSize
  kernelAssert (entryCnt % 8 = 0) "(entry_cnt % 8) == 0"
  scanLoop mem log 8 xsdt (entryCnt / 8)

end Code

/-! ## Staying inside the table -/

section Spec

variable (mem : Bytes.Mem) (log : Nat → Nat → Option Stop) (width sdt : Nat)

/-- The whole entries behind the header. -/
def entryCnt : Nat := (sdtLen mem sdt - sdtHeaderSize) / width

/-- The call that a table with the signature MCFG asks for. -/
def mcfgCall (h : Nat) : Nat × Nat := (u64 (h + 44), sdtLen mem h - 44)

/-- Why the kernel halts at an entry, if it does: at its line in the log, or in the PCIe driver, which is to get the MCFG table. -/
def entryStops (i : Nat) : Option Stop :=
  (log i (sdtEntry mem width sdt i)).or
    (if isMcfg mem (sdtEntry mem width sdt i) then
      Pcie.pcieStops mem (bytesAt mem (mcfgCall mem (sdtEntry mem width sdt i)).1) (mcfgCall mem (sdtEntry mem width sdt i)).2
    else none)

/-- The kernel halts at no entry before the `k`th. -/
def Reaches (k : Nat) : Prop := ∀ i < k, entryStops mem log width sdt i = none

instance (k : Nat) : Decidable (Reaches mem log width sdt k) := inferInstanceAs (Decidable (∀ i < k, _ = none))

/-- The whole entries there are to visit: all of them, or those up to the one at which the kernel halts. -/
def visited : List Nat := (List.range (entryCnt mem width sdt)).filter fun i => decide (Reaches mem log width sdt i)

/-- The entries whose table is to be handed over: it has the signature MCFG, and its line was logged. -/
def handed : List Nat := (visited mem log width sdt).filter fun i =>
  (log i (sdtEntry mem width sdt i)).isNone && isMcfg mem (sdtEntry mem width sdt i)

/-- A scan of the root table at `sdt` reads pointers inside the table, none of them twice: every whole entry, unless the kernel
halts at one before it. It hands over the tables with the signature MCFG and no others, each with its length less 44, which does not
wrap. -/
structure ScanFine (r : EStateM.Result Stop AcpiState Unit) : Prop where
  inside : ∀ off ∈ (Exec.final r).reads, sdtHeaderSize ≤ off ∧ off + width ≤ sdtLen mem sdt
  once : (Exec.final r).reads.Nodup
  visits : (Exec.final r).reads.reverse = (visited mem log width sdt).map fun i => sdtHeaderSize + width * i
  calls : (Exec.final r).calls.reverse = (handed mem log width sdt).map fun i => mcfgCall mem (sdtEntry mem width sdt i)
  long : ∀ i ∈ handed mem log width sdt, 44 ≤ sdtLen mem (sdtEntry mem width sdt i)

/-- No table that is to be handed over is shorter than 44 bytes. -/
def NoShort : Prop := ∀ k < entryCnt mem width sdt, Reaches mem log width sdt k → log k (sdtEntry mem width sdt k) = none →
  isMcfg mem (sdtEntry mem width sdt k) = true → 44 ≤ sdtLen mem (sdtEntry mem width sdt k)

end Spec

/-! ## The rounds -/

section Scan

variable (mem : Bytes.Mem) (log : Nat → Nat → Option Stop) (width sdt : Nat)

/-- The call the code makes for a table. -/
def pcieCall (h : Nat) : Nat × Nat := (u64 (h + 44), u32Sub (sdtLen mem h) 44)

/-- Why a round stops, if it does. -/
def roundStops (i : Nat) : Option Stop :=
  (log i (sdtEntry mem width sdt i)).or
    (if isMcfg mem (sdtEntry mem width sdt i) then
      Pcie.pcieStops mem (bytesAt mem (pcieCall mem (sdtEntry mem width sdt i)).1) (pcieCall mem (sdtEntry mem width sdt i)).2
    else none)

/-- The calls of a round. -/
def roundCalls (i : Nat) : List (Nat × Nat) :=
  if log i (sdtEntry mem width sdt i) = none ∧ isMcfg mem (sdtEntry mem width sdt i) = true then
    [pcieCall mem (sdtEntry mem width sdt i)]
  else []

theorem scanRound_run (i : Nat) (s : AcpiState) : Exec.stops (scanRound mem log width sdt i s) = roundStops mem log width sdt i ∧
    (Exec.final (scanRound mem log width sdt i s)).reads = (sdtHeaderSize + width * i) :: s.reads ∧
    (Exec.final (scanRound mem log width sdt i s)).calls = roundCalls mem log width sdt i ++ s.calls := by
  unfold scanRound roundStops roundCalls logTable
  rw [Exec.bind_ok (Exec.modify_run _ s)]
  cases hlog : log i (sdtEntry mem width sdt i) with
  | some e =>
    have hno : ¬ (some e = none ∧ isMcfg mem (sdtEntry mem width sdt i) = true) := fun hc => Option.some_ne_none e hc.1
    rw [if_neg hno]
    exact ⟨rfl, rfl, rfl⟩
  | none =>
    rw [Exec.bind_ok (Exec.pure_run _ _), Option.none_or]
    by_cases hm : isMcfg mem (sdtEntry mem width sdt i) = true
    · rw [if_pos hm, if_pos hm, if_pos ⟨rfl, hm⟩]
      unfold callPcie
      rw [Exec.bind_ok (Exec.modify_run _ _), Exec.stops_zoom, Exec.final_zoom, Pcie.dPcieBootstrap_stops]
      exact ⟨rfl, rfl, rfl⟩
    · have hno : ¬ ((none : Option Stop) = none ∧ isMcfg mem (sdtEntry mem width sdt i) = true) := fun hc => hm hc.2
      rw [if_neg hm, if_neg hm, if_neg hno]
      exact ⟨rfl, rfl, rfl⟩

/-- The rounds before index `n` do not stop. -/
def Goes (n : Nat) : Prop := ∀ i < n, roundStops mem log width sdt i = none

/-- The offsets and the calls of the first `n` rounds. -/
def roundOffs (n : Nat) : List Nat := (List.range n).map fun i => sdtHeaderSize + width * i

def roundsCalls (n : Nat) : List (Nat × Nat) := (List.range n).flatMap (roundCalls mem log width sdt)

variable {mem log width sdt} {n k : Nat} {s : AcpiState}

/-- Nothing was read or called yet. -/
def Fresh (s : AcpiState) : Prop := s.reads = [] ∧ s.calls = []

theorem roundCalls_reverse (i : Nat) : (roundCalls mem log width sdt i).reverse = roundCalls mem log width sdt i := by
  unfold roundCalls
  split <;> rfl

/-- One round more, behind rounds that did not stop. -/
theorem scanLoop_step (hok : Exec.stops (scanLoop mem log width sdt n s) = none)
    (hreads : (Exec.final (scanLoop mem log width sdt n s)).reads.reverse = roundOffs width n)
    (hcalls : (Exec.final (scanLoop mem log width sdt n s)).calls.reverse = roundsCalls mem log width sdt n) :
    Exec.stops (scanLoop mem log width sdt (n + 1) s) = roundStops mem log width sdt n ∧
      (Exec.final (scanLoop mem log width sdt (n + 1) s)).reads.reverse = roundOffs width (n + 1) ∧
      (Exec.final (scanLoop mem log width sdt (n + 1) s)).calls.reverse = roundsCalls mem log width sdt (n + 1) := by
  obtain ⟨hstop', hreads', hcalls'⟩ := scanRound_run mem log width sdt n (Exec.final (scanLoop mem log width sdt n s))
  rw [scanLoop, Exec.bind_ok (Exec.ok_of_stops hok), hreads', hcalls', List.reverse_cons, hreads, List.reverse_append, hcalls,
    roundCalls_reverse]
  refine ⟨hstop', ?_, ?_⟩
  · unfold roundOffs
    rw [List.range_succ, List.map_append]
    rfl
  · unfold roundsCalls
    rw [List.range_succ, List.flatMap_append, List.flatMap_singleton]

/-- A scan makes its rounds up to the first that stops. -/
theorem scanLoop_rounds (mem : Bytes.Mem) (log : Nat → Nat → Option Stop) (width sdt : Nat) (hs : Fresh s) (n : Nat) :
    ∃ m ≤ n, (∀ k < n, Goes mem log width sdt k → k < m) ∧
    (∀ i < m, Goes mem log width sdt i) ∧ (Exec.final (scanLoop mem log width sdt n s)).reads.reverse = roundOffs width m ∧
    (Exec.final (scanLoop mem log width sdt n s)).calls.reverse = roundsCalls mem log width sdt m ∧
    (Exec.stops (scanLoop mem log width sdt n s) = none → m = n) ∧
    (Goes mem log width sdt n ↔ Exec.stops (scanLoop mem log width sdt n s) = none) := by
  induction n with
  | zero =>
    refine ⟨0, le_rfl, fun k hk => absurd hk (Nat.not_lt_zero k), fun i hi => absurd hi (Nat.not_lt_zero i), ?_, ?_, fun _ => rfl,
      ⟨fun _ => rfl, fun _ i hi => absurd hi (Nat.not_lt_zero i)⟩⟩
    · show s.reads.reverse = []
      rw [hs.1, List.reverse_nil]
    · show s.calls.reverse = []
      rw [hs.2, List.reverse_nil]
  | succ n ih =>
    obtain ⟨m, hle, hmore, hrounds, hreads, hcalls, hend, hiff⟩ := ih
    cases hok : Exec.stops (scanLoop mem log width sdt n s) with
    | none =>
      obtain rfl := hend hok
      have hgoes := hiff.2 hok
      obtain ⟨hstop, hreads', hcalls'⟩ := scanLoop_step hok hreads hcalls
      refine ⟨m + 1, le_rfl, fun k hk _ => hk, fun i hi j hj => hgoes j (by omega), hreads', hcalls', fun _ => rfl, ?_⟩
      rw [hstop]
      constructor
      · exact fun h => h m (Nat.lt_succ_self m)
      · intro h i hi
        rcases Nat.lt_succ_iff_lt_or_eq.1 hi with hi | rfl
        · exact hgoes i hi
        · exact h
    | some e =>
      have hnot : ¬ Goes mem log width sdt n := fun h => by
        rw [hiff.1 h] at hok
        cases hok
      obtain ⟨he, hfinal⟩ := Exec.bind_stops (f := fun _ => scanRound mem log width sdt n) hok
      rw [scanLoop, hfinal, he]
      refine ⟨m, hle.trans (Nat.le_succ n), fun k hk hgoes => ?_, hrounds, hreads, hcalls, nofun, fun h => ?_, nofun⟩
      · rcases Nat.lt_succ_iff_lt_or_eq.1 hk with hk | rfl
        · exact hmore k hk hgoes
        · exact absurd hgoes hnot
      · exact absurd (fun i hi => h i (hi.trans (Nat.lt_succ_self n))) hnot

theorem sdtLen_lt (mem : Bytes.Mem) (h : Nat) : sdtLen mem h < 2 ^ 32 := Bytes.load_lt mem _ 4

theorem pcieCall_eq {h : Nat} (hlen : 44 ≤ sdtLen mem h) : pcieCall mem h = mcfgCall mem h := by
  have hlt := sdtLen_lt mem h
  have hsub : u32Sub (sdtLen mem h) 44 = sdtLen mem h - 44 := by
    unfold u32Sub
    omega
  unfold pcieCall mcfgCall
  rw [hsub]

theorem roundsCalls_eq : roundsCalls mem log width sdt n = ((List.range n).filter fun i =>
    (log i (sdtEntry mem width sdt i)).isNone && isMcfg mem (sdtEntry mem width sdt i)).map fun i =>
      pcieCall mem (sdtEntry mem width sdt i) := by
  unfold roundsCalls
  induction n with
  | zero => rfl
  | succ n ih =>
    rw [List.range_succ, List.flatMap_append, List.flatMap_singleton, ih, List.filter_append, List.map_append]
    congr 1
    unfold roundCalls
    by_cases hc : log n (sdtEntry mem width sdt n) = none ∧ isMcfg mem (sdtEntry mem width sdt n) = true
    · rw [if_pos hc]
      simp [hc]
    · have hdrop : ((log n (sdtEntry mem width sdt n)).isNone && isMcfg mem (sdtEntry mem width sdt n)) = false :=
        Bool.eq_false_iff.2 fun h => hc ((Bool.and_eq_true_iff.1 h).imp_left Option.isNone_iff_eq_none.1)
      rw [if_neg hc]
      simp [hdrop]

/-- The entries inside a table are read at different places. -/
theorem roundOffs_spec {L : Nat} (hw : 0 < width) (hL : sdtHeaderSize ≤ L) (hn : n ≤ (L - sdtHeaderSize) / width) :
    (∀ off ∈ roundOffs width n, sdtHeaderSize ≤ off ∧ off + width ≤ L) ∧ (roundOffs width n).Nodup := by
  unfold roundOffs
  constructor
  · intro off hoff
    obtain ⟨i, hi, rfl⟩ := List.mem_map.1 hoff
    have hi := List.mem_range.1 hi
    have hmul : width * (i + 1) ≤ L - sdtHeaderSize :=
      (Nat.mul_le_mul_left width (hi.trans_le hn)).trans (Nat.mul_div_le _ _)
    rw [Nat.mul_add, Nat.mul_one] at hmul
    omega
  · refine List.Nodup.map (fun i j hij => ?_) List.nodup_range
    exact Nat.eq_of_mul_eq_mul_left hw (Nat.add_left_cancel hij)

/-! ## What there is to visit -/

theorem mem_visited {i : Nat} : i ∈ visited mem log width sdt ↔ i < entryCnt mem width sdt ∧ Reaches mem log width sdt i := by
  unfold visited
  rw [List.mem_filter, List.mem_range, decide_eq_true_iff]

theorem mem_handed {i : Nat} : i ∈ handed mem log width sdt ↔ (i < entryCnt mem width sdt ∧ Reaches mem log width sdt i) ∧
    log i (sdtEntry mem width sdt i) = none ∧ isMcfg mem (sdtEntry mem width sdt i) = true := by
  unfold handed
  rw [List.mem_filter, mem_visited, Bool.and_eq_true, Option.isNone_iff_eq_none]

theorem noShort_iff : NoShort mem log width sdt ↔ ∀ i ∈ handed mem log width sdt, 44 ≤ sdtLen mem (sdtEntry mem width sdt i) := by
  constructor
  · intro h i hi
    obtain ⟨⟨hlt, hreach⟩, hlog, hm⟩ := mem_handed.1 hi
    exact h i hlt hreach hlog hm
  · exact fun h i hlt hreach hlog hm => h i (mem_handed.2 ⟨⟨hlt, hreach⟩, hlog, hm⟩)

/-- Before the first short table the code halts where it should. -/
theorem goes_iff (h : NoShort mem log width sdt) (hk : k ≤ entryCnt mem width sdt) :
    Goes mem log width sdt k ↔ Reaches mem log width sdt k := by
  induction k with
  | zero => exact ⟨fun _ i hi => absurd hi (Nat.not_lt_zero i), fun _ i hi => absurd hi (Nat.not_lt_zero i)⟩
  | succ k ih =>
    have ih := ih (Nat.le_of_succ_le hk)
    have hround : Reaches mem log width sdt k → roundStops mem log width sdt k = entryStops mem log width sdt k := by
      intro hreach
      unfold roundStops entryStops
      cases hlog : log k (sdtEntry mem width sdt k) with
      | some e => rw [Option.some_or, Option.some_or]
      | none =>
        by_cases hm : isMcfg mem (sdtEntry mem width sdt k) = true
        · rw [if_pos hm, if_pos hm, pcieCall_eq (h k hk hreach hlog hm)]
        · rw [if_neg hm, if_neg hm]
    constructor
    · intro hgoes i hi
      have hreach := ih.1 fun j hj => hgoes j (hj.trans (Nat.lt_succ_self k))
      rcases Nat.lt_succ_iff_lt_or_eq.1 hi with hi | rfl
      · exact hreach i hi
      · rw [← hround hreach]
        exact hgoes i (Nat.lt_succ_self i)
    · intro hreach i hi
      have hbefore : Reaches mem log width sdt k := fun j hj => hreach j (hj.trans (Nat.lt_succ_self k))
      rcases Nat.lt_succ_iff_lt_or_eq.1 hi with hi | rfl
      · exact ih.2 hbefore i hi
      · rw [hround hbefore]
        exact hreach i (Nat.lt_succ_self i)

/-- Entries are visited from the first on. -/
theorem visited_eq {m : Nat} (hle : m ≤ entryCnt mem width sdt)
    (h : ∀ i < entryCnt mem width sdt, Reaches mem log width sdt i ↔ i < m) :
    visited mem log width sdt = List.range m := by
  obtain ⟨k, hk⟩ := Nat.exists_eq_add_of_le hle
  have hfirst : ∀ i ∈ List.range m, decide (Reaches mem log width sdt i) = true := fun i hi =>
    decide_eq_true ((h i ((List.mem_range.1 hi).trans_le hle)).2 (List.mem_range.1 hi))
  have hrest : ∀ i ∈ (List.range k).map (m + ·), ¬ decide (Reaches mem log width sdt i) = true := by
    intro i hi hreach
    obtain ⟨j, hj, rfl⟩ := List.mem_map.1 hi
    have hlt := List.mem_range.1 hj
    exact absurd ((h (m + j) (by omega)).1 (of_decide_eq_true hreach)) (by omega)
  unfold visited
  rw [hk, List.range_add, List.filter_append, List.filter_eq_self.2 hfirst, List.filter_eq_nil_iff.2 hrest, List.append_nil]

/-- A scan of the whole entries is fine if and only if no short table is to be handed over. -/
theorem scanFine_iff (hs : Fresh s) (hw : 0 < width) (hL : sdtHeaderSize ≤ sdtLen mem sdt) :
    ScanFine mem log width sdt (scanLoop mem log width sdt (entryCnt mem width sdt) s) ↔ NoShort mem log width sdt := by
  obtain ⟨m, hle, hmore, hrounds, hreads, hcalls, -⟩ := scanLoop_rounds mem log width sdt hs (entryCnt mem width sdt)
  constructor
  · intro hfine
    exact noShort_iff.2 hfine.long
  · intro hshort
    have hvisited : visited mem log width sdt = List.range m := visited_eq hle fun i hi =>
      ⟨fun h => hmore i hi ((goes_iff hshort hi.le).2 h), fun h => (goes_iff hshort hi.le).1 (hrounds i h)⟩
    obtain ⟨hinside, hnodup⟩ := roundOffs_spec hw hL hle
    have hlong := noShort_iff.1 hshort
    refine ⟨fun off hoff => hinside off ?_, ?_, ?_, ?_, hlong⟩
    · rw [← hreads, List.mem_reverse]
      exact hoff
    · rw [← List.nodup_reverse, hreads]
      exact hnodup
    · rw [hreads, hvisited]
      rfl
    · have hhanded : (List.range m).filter
        (fun i => (log i (sdtEntry mem width sdt i)).isNone && isMcfg mem (sdtEntry mem width sdt i)) =
          handed mem log width sdt := by
        unfold handed
        rw [hvisited]
      rw [hcalls, roundsCalls_eq, hhanded]
      exact List.map_congr_left fun i hi => pcieCall_eq (hlong i hi)

/-- A scan of a table without room for an entry is not fine. -/
theorem not_scanFine (hs : Fresh s) (hL : sdtLen mem sdt < sdtHeaderSize) (hn : 0 < n) :
    ¬ ScanFine mem log width sdt (scanLoop mem log width sdt n s) := by
  obtain ⟨m, hle, hmore, hrounds, hreads, hcalls, hend, hiff⟩ := scanLoop_rounds mem log width sdt hs n
  intro hfine
  have hm := hmore 0 hn fun i hi => absurd hi (Nat.not_lt_zero i)
  have hfirst : sdtHeaderSize + width * 0 ∈ (Exec.final (scanLoop mem log width sdt n s)).reads := by
    rw [← List.mem_reverse, hreads]
    exact List.mem_map.2 ⟨0, List.mem_range.2 hm, rfl⟩
  have hin := hfine.inside _ hfirst
  omega

/-- A scan that stopped before its first round is fine if and only if there is no whole entry. -/
theorem scanFine_stopped (hs : Fresh s) (e : Stop) : ScanFine mem log width sdt (.error e s) ↔ entryCnt mem width sdt = 0 := by
  constructor
  · intro hfine
    by_contra hpos
    have hfirst : 0 ∈ visited mem log width sdt :=
      mem_visited.2 ⟨Nat.pos_of_ne_zero hpos, fun i hi => absurd hi (Nat.not_lt_zero i)⟩
    have hvisits := hfine.visits
    rw [Exec.final_error, hs.1, List.reverse_nil] at hvisits
    rw [List.map_eq_nil_iff.1 hvisits.symm] at hfirst
    exact absurd hfirst List.not_mem_nil
  · intro hzero
    have hvisited : visited mem log width sdt = [] := by
      unfold visited
      rw [hzero]
      rfl
    have hhanded : handed mem log width sdt = [] := by
      unfold handed
      rw [hvisited]
      rfl
    refine ⟨fun off hoff => ?_, ?_, ?_, ?_, ?_⟩
    · rw [Exec.final_error, hs.1] at hoff
      exact absurd hoff List.not_mem_nil
    · rw [Exec.final_error, hs.1]
      exact List.nodup_nil
    · rw [Exec.final_error, hs.1, hvisited]
      rfl
    · rw [Exec.final_error, hs.2, hhanded]
      rfl
    · rw [hhanded]
      exact fun i hi => absurd hi List.not_mem_nil

/-- `_init_rsdt` stays inside the table and visits what is there if and only if the table is as long as a header and no short MCFG
table is to be handed over; `_init_xsdt` does so if and only if this holds and the length is a header and whole entries, or if it is
not and there is no whole entry. -/
theorem acpi_scan_fine_iff (mem : Bytes.Mem) (log : Nat → Nat → Option Stop) (sdt : Nat) (hs : Fresh s) :
    (ScanFine mem log 4 sdt (initRsdt mem log sdt s) ↔ sdtHeaderSize ≤ sdtLen mem sdt ∧ NoShort mem log 4 sdt) ∧
    (ScanFine mem log 8 sdt (initXsdt mem log sdt s) ↔
      sdtLen mem sdt % 8 = 4 ∧ sdtHeaderSize ≤ sdtLen mem sdt ∧ NoShort mem log 8 sdt ∨
        sdtLen mem sdt % 8 ≠ 4 ∧ sdtLen mem sdt < sdtHeaderSize + 8) := by
  have hlt := sdtLen_lt mem sdt
  have hsize : sdtHeaderSize = 36 := rfl
  have hlong : sdtHeaderSize ≤ sdtLen mem sdt → u64Sub (sdtLen mem sdt) sdtHeaderSize = sdtLen mem sdt - sdtHeaderSize := fun hL =>
    u64Sub_of_le hL (by omega)
  have hshort : sdtLen mem sdt < sdtHeaderSize →
      u64Sub (sdtLen mem sdt) sdtHeaderSize = 2 ^ 64 - (sdtHeaderSize - sdtLen mem sdt) := by
    intro hL
    unfold u64Sub
    omega
  constructor
  · unfold initRsdt
    by_cases hL : sdtHeaderSize ≤ sdtLen mem sdt
    · rw [hlong hL]
      exact (scanFine_iff hs (by norm_num) hL).trans ⟨fun h => ⟨hL, h⟩, And.right⟩
    · refine ⟨fun hfine => absurd hfine (not_scanFine hs (by omega) ?_), fun h => absurd h.1 hL⟩
      rw [hshort (by omega)]
      omega
  · unfold initXsdt
    by_cases hmod : u64Sub (sdtLen mem sdt) sdtHeaderSize % 8 = 0
    · rw [Exec.bind_ok (kernelAssert_pos hmod _ s)]
      by_cases hL : sdtHeaderSize ≤ sdtLen mem sdt
      · rw [hlong hL] at hmod ⊢
        refine (scanFine_iff hs (by norm_num) hL).trans ⟨fun h => .inl ⟨by omega, hL, h⟩, fun h => ?_⟩
        rcases h with ⟨-, -, h⟩ | ⟨hne, -⟩
        · exact h
        · exact absurd (by omega) hne
      · rw [hshort (by omega)] at hmod ⊢
        refine ⟨fun hfine => absurd hfine (not_scanFine hs (by omega) (by omega)), fun h => ?_⟩
        rcases h with ⟨-, h, -⟩ | ⟨hne, -⟩
        · exact absurd h hL
        · exact absurd (by omega) hne
    · rw [Exec.bind_error (kernelAssert_neg hmod _ s), scanFine_stopped hs]
      have hne : sdtLen mem sdt % 8 ≠ 4 := by
        intro hfour
        unfold u64Sub at hmod
        omega
      unfold entryCnt
      refine ⟨fun h => .inr ⟨hne, by omega⟩, fun h => ?_⟩
      rcases h with ⟨h, -⟩ | ⟨-, h⟩
      · exact absurd h hne
      · omega

end Scan

/-- A root table of 44 bytes at 4K that leads to an MCFG table of 60 bytes at 8K, with one group of no buses. -/
def acpiMem₀ : Bytes.Mem := fun x =>
  if x = 0x1004 then 44 else if x = 0x1025 then 0x20 else if x = 0x2000 then 0x4d else if x = 0x2001 then 0x43
  else if x = 0x2002 then 0x46 else if x = 0x2003 then 0x47 else if x = 0x2004 then 60 else 0

def acpiState₀ : AcpiState := ⟨Pcie.pcieState₀, [], []⟩

theorem acpi_scan_fine_iff_mcfg :
    (∃ c ∈ (Exec.final (initXsdt acpiMem₀ (fun _ _ => none) 0x1000 acpiState₀)).calls, c = (0x202c, 16)) ∧
    ScanFine acpiMem₀ (fun _ _ => none) 4 0x1000 (initRsdt acpiMem₀ (fun _ _ => none) 0x1000 acpiState₀) ∧
    ScanFine acpiMem₀ (fun _ _ => none) 8 0x1000 (initXsdt acpiMem₀ (fun _ _ => none) 0x1000 acpiState₀) := by
  have hlen : sdtLen acpiMem₀ 0x1000 = 44 := by decide +kernel
  have h0 : 44 ≤ sdtLen acpiMem₀ 0x2000 := by decide +kernel
  have h1 : isMcfg acpiMem₀ 0 = false := by decide +kernel
  obtain ⟨hrsdt, hxsdt⟩ := acpi_scan_fine_iff acpiMem₀ (fun _ _ => none) 0x1000 (s := acpiState₀) ⟨rfl, rfl⟩
  unfold NoShort entryCnt at hrsdt hxsdt
  rw [hlen] at hrsdt hxsdt
  refine ⟨⟨_, ?_, rfl⟩, hrsdt.2 ⟨by decide, fun k hk _ _ hm => ?_⟩, hxsdt.2 (.inl ⟨by decide, by decide, fun k hk _ _ _ => ?_⟩)⟩
  · decide +kernel
  · have hk : k < 2 := hk
    interval_cases k
    · rwa [show sdtEntry acpiMem₀ 4 0x1000 0 = 0x2000 by decide +kernel]
    · rw [show sdtEntry acpiMem₀ 4 0x1000 1 = 0 by decide +kernel, h1] at hm
      cases hm
  · obtain rfl : k = 0 := Nat.lt_one_iff.1 hk
    rwa [show sdtEntry acpiMem₀ 8 0x1000 0 = 0x2000 by decide +kernel]

/-- A length of 0 makes `_init_rsdt` read pointers behind the table. -/
theorem acpi_scan_of_zeros :
    ¬ ScanFine (fun _ => 0) (fun _ _ => none) 4 0x1000 (initRsdt (fun _ => 0) (fun _ _ => none) 0x1000 acpiState₀) := by
  have hlen : sdtLen (fun _ => 0) 0x1000 = 0 := by decide +kernel
  unfold initRsdt
  rw [hlen]
  exact not_scanFine ⟨rfl, rfl⟩ (by rw [hlen]; decide) (by decide +kernel)

end Acpi

end Cing
