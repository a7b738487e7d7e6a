/-
mem_frame.c: the sections `_bootstrap_mmap_info` keeps. They are the entries of type 1 in the order of the memory map. Each has
to start above the end of the one before it, but that end is a 64-bit sum: a section that reaches the end of the address space
has an end of 0, and the next one may start anywhere.
-/
import Cing.Mem.Frame

namespace Cing.Mem

/-- The entries of type 1 among the first `n` of a memory map. -/
def available (mmap : Bytes.Mem) (n : Nat) : List MemSection :=
  ((List.range n).filter fun en => mmapType mmap en = 1).map (mmapSection mmap)

/-- `_sections[0 .. _sec_cnt)`. -/
def sectionList (s : FrameState) : List MemSection := (List.range s.secCnt).map s.sections

/-- The sections are those of the memory map, page-aligned, in order and apart from each other, and the size of physical memory is
the sum of their lengths. -/
structure Ordered (l : List MemSection) (s : FrameState) : Prop where
  cap : s.secCnt ≤ sectionCap
  list : sectionList s = l
  aligned : ∀ sec ∈ sectionList s, sec.base % pageSize4K = 0
  apart : (sectionList s).Pairwise fun sec sec' => sec.base < sec'.base ∧ sec.base + sec.len ≤ sec'.base
  size : s.pmemSize = ((sectionList s).map MemSection.len).sum

/-! ## The loop -/

/-- What the loop checks. -/
structure Listed (l : List MemSection) (s : FrameState) : Prop where
  cap : s.secCnt ≤ sectionCap
  list : sectionList s = l
  aligned : ∀ sec ∈ l, sec.base % pageSize4K = 0
  ends : l.IsChain fun sec sec' => u64 (sec.base + sec.len) < sec'.base
  size : s.pmemSize = u64 (l.map MemSection.len).sum

variable {mmap : Bytes.Mem} {n size : Nat} {l : List MemSection} {s s' : FrameState}

theorem available_succ (mmap : Bytes.Mem) (n : Nat) :
    available mmap (n + 1) = available mmap n ++ if mmapType mmap n = 1 then [mmapSection mmap n] else [] := by
  unfold available
  rw [List.range_succ, List.filter_append, List.map_append]
  congr 1
  by_cases h : mmapType mmap n = 1
  · rw [if_pos h, List.filter_cons_of_pos (by simpa using h)]
    rfl
  · rw [if_neg h, List.filter_cons_of_neg (by simpa using h)]
    rfl

/-- A section behind the others. -/
theorem sectionList_update (s : FrameState) (sec : MemSection) (k : Nat) :
    sectionList { s with sections := Function.update s.sections s.secCnt sec, secCnt := s.secCnt + 1, pmemSize := k } =
      sectionList s ++ [sec] := by
  have hsame : (List.range s.secCnt).map (Function.update s.sections s.secCnt sec) = (List.range s.secCnt).map s.sections := by
    refine List.map_congr_left fun i hi => Function.update_of_ne ?_ _ _
    rw [List.mem_range] at hi
    omega
  unfold sectionList
  dsimp only
  rw [List.range_succ, List.map_append, hsame, List.map_singleton, Function.update_self]

theorem getLast?_sectionList (h : 0 < s.secCnt) : (sectionList s).getLast? = some (s.sections (s.secCnt - 1)) := by
  unfold sectionList
  obtain ⟨k, hk⟩ := Nat.exists_eq_add_one_of_ne_zero (Nat.pos_iff_ne_zero.1 h)
  rw [hk, List.range_succ, List.map_append, List.map_singleton, List.getLast?_concat, Nat.add_sub_cancel]

/-- One entry of the memory map. -/
theorem mmapRound_listed (h : Listed l s) (hrun : mmapRound mmap n s = .ok () s') :
    Listed (l ++ if mmapType mmap n = 1 then [mmapSection mmap n] else []) s' := by
  unfold mmapRound at hrun
  by_cases hty : mmapType mmap n = 1
  · rw [if_neg (not_not_intro hty), Exec.bind_ok (Exec.get_run s)] at hrun
    obtain ⟨hcap, hrun⟩ := kernelAssert_bind hrun
    rw [Exec.bind_ok (Exec.set_run s _)] at hrun
    obtain ⟨hal, hrun⟩ := kernelAssert_bind hrun
    obtain ⟨_, t, hlast, hrun⟩ := Exec.bind_eq_ok.1 hrun
    obtain ⟨hend, ht⟩ : (0 < s.secCnt →
      u64 ((s.sections (s.secCnt - 1)).base + (s.sections (s.secCnt - 1)).len) < (mmapSection mmap n).base) ∧
        t = { s with sections := Function.update s.sections s.secCnt (mmapSection mmap n) } := by
      split at hlast
      next hpos =>
        obtain ⟨hlt, ht⟩ := kernelAssert_ok hlast
        exact ⟨fun _ => hlt, ht⟩
      next hpos =>
        cases hlast
        exact ⟨fun hpos' => absurd hpos' hpos, rfl⟩
    rw [ht] at hrun
    cases hrun
    rw [if_pos hty]
    refine ⟨hcap, ?_, ?_, ?_, ?_⟩
    · rw [← h.list]
      exact sectionList_update s (mmapSection mmap n) _
    · intro sec hsec
      rcases List.mem_append.1 hsec with hsec | hsec
      · exact h.aligned sec hsec
      · rw [List.mem_singleton.1 hsec]
        exact of_decide_eq_true hal
    · refine List.isChain_append.2 ⟨h.ends, List.isChain_singleton _, fun x hx y hy => ?_⟩
      obtain rfl : mmapSection mmap n = y := Option.some.inj hy
      rw [← h.list] at hx
      by_cases hpos : 0 < s.secCnt
      · rw [getLast?_sectionList hpos] at hx
        obtain rfl := Option.some.inj hx
        exact hend hpos
      · have hnil : sectionList s = [] := by
          unfold sectionList
          rw [Nat.eq_zero_of_not_pos hpos]
          rfl
        rw [hnil] at hx
        cases hx
    · have hsize := h.size
      rw [List.map_append, List.sum_append, List.map_singleton, List.sum_singleton]
      change u64 (s.pmemSize + (mmapSection mmap n).len) = _
      unfold u64 at hsize ⊢
      omega
  · rw [if_pos hty] at hrun
    cases hrun
    rw [if_neg hty, List.append_nil]
    exact h

theorem mmapLoop_listed (hs : Listed [] s) : ∀ {n : Nat} {s' : FrameState}, mmapLoop mmap n s = .ok () s' →
    Listed (available mmap n) s' := by
  intro n
  induction n with
  | zero =>
    intro s' hrun
    cases hrun
    exact hs
  | succ n ih =>
    intro s' hrun
    obtain ⟨_, t, hloop, hround⟩ := Exec.bind_eq_ok.1 hrun
    rw [available_succ]
    exact mmapRound_listed (ih hloop) hround

/-- Below 8 the subtraction wraps, and what it leaves is no multiple of 24. -/
theorem le_of_size_mod (h : u64Sub size 8 % 24 = 0) : 8 ≤ size := by
  by_contra hlt
  have hwrap : u64Sub size 8 = size + (2 ^ 64 - 8) := by
    unfold u64Sub
    omega
  rw [hwrap] at h
  omega

/-- `_bootstrap_mmap_info` goes over all entries behind the two words of the header. -/
theorem bootstrapMmapInfo_listed (hsize : size < 2 ^ 64) (hrun : bootstrapMmapInfo mmap size s = .ok () s') :
    Listed (available mmap ((size - 8) / 24)) s' := by
  unfold bootstrapMmapInfo at hrun
  rw [Exec.bind_ok (Exec.get_run s)] at hrun
  obtain ⟨-, hrun⟩ := kernelAssert_bind hrun
  obtain ⟨-, hrun⟩ := kernelAssert_bind hrun
  obtain ⟨h24, hrun⟩ := kernelAssert_bind hrun
  obtain ⟨hmod, hrun⟩ := kernelAssert_bind hrun
  rw [Exec.bind_ok (Exec.modify_run _ s), h24] at hrun
  rw [h24] at hmod
  rw [u64Sub_of_le (le_of_size_mod hmod) hsize] at hrun
  have hnil : Listed [] { s with secCnt := 0, pmemSize := 0 } :=
    ⟨Nat.zero_le _, rfl, fun sec hsec => absurd hsec List.not_mem_nil, List.isChain_nil, (u64_of_lt (by norm_num)).symm⟩
  exact mmapLoop_listed hnil hrun

/-! ## When the sections are in order -/

/-- Where every section but the last ends below 2^64, each lies above all before it. -/
theorem pairwise_of_ends : ∀ {l : List MemSection}, (∀ sec ∈ l.dropLast, sec.base + sec.len < 2 ^ 64) →
    l.IsChain (fun sec sec' => u64 (sec.base + sec.len) < sec'.base) →
      l.Pairwise fun sec sec' => sec.base + sec.len < sec'.base := by
  intro l
  induction l with
  | nil => exact fun _ _ => .nil
  | cons sec l ih =>
    intro hends hchain
    cases l with
    | nil => exact List.pairwise_singleton _ _
    | cons sec' l =>
      obtain ⟨hlt, hchain⟩ := List.isChain_cons_cons.1 hchain
      rw [List.dropLast_cons_cons] at hends
      obtain ⟨hend, hends⟩ := List.forall_mem_cons.1 hends
      rw [u64_of_lt hend] at hlt
      have hrest := ih hends hchain
      refine List.pairwise_cons.2 ⟨fun x hx => ?_, hrest⟩
      rcases List.mem_cons.1 hx with rfl | hx
      · exact hlt
      · have hnext := (List.pairwise_cons.1 hrest).1 x hx
        omega

/-- In a list in order only the last section can reach 2^64. -/
theorem dropLast_of_pairwise : ∀ {l : List MemSection}, (∀ sec ∈ l, sec.base < 2 ^ 64) →
    (l.Pairwise fun sec sec' => sec.base < sec'.base ∧ sec.base + sec.len ≤ sec'.base) →
      ∀ sec ∈ l.dropLast, sec.base + sec.len < 2 ^ 64 := by
  intro l
  induction l with
  | nil => exact fun _ _ sec hsec => absurd hsec List.not_mem_nil
  | cons sec l ih =>
    intro hbase hpw
    cases l with
    | nil => exact fun x hx => absurd hx List.not_mem_nil
    | cons sec' l =>
      obtain ⟨-, hbase⟩ := List.forall_mem_cons.1 hbase
      obtain ⟨hfirst, hpw⟩ := List.pairwise_cons.1 hpw
      rw [List.dropLast_cons_cons]
      refine List.forall_mem_cons.2 ⟨?_, ih hbase hpw⟩
      exact lt_of_le_of_lt (hfirst sec' List.mem_cons_self).2 (hbase sec' List.mem_cons_self)

theorem available_base_lt (mmap : Bytes.Mem) (n : Nat) : ∀ sec ∈ available mmap n, sec.base < 2 ^ 64 := by
  intro sec hsec
  obtain ⟨en, -, rfl⟩ := List.mem_map.1 hsec
  exact Bytes.load_lt mmap (8 + 24 * en) 8

/-- When `_bootstrap_mmap_info` returns, the sections are in order and their lengths add up if and only if each of them but the last
ends below 2^64 and so does the sum of the lengths. -/
theorem sections_ordered_iff (hsize : size < 2 ^ 64) (hrun : bootstrapMmapInfo mmap size s = .ok () s') :
    Ordered (available mmap ((size - 8) / 24)) s' ↔
      (∀ sec ∈ (available mmap ((size - 8) / 24)).dropLast, sec.base + sec.len < 2 ^ 64) ∧
        ((available mmap ((size - 8) / 24)).map MemSection.len).sum < 2 ^ 64 := by
  have h := bootstrapMmapInfo_listed hsize hrun
  have hbase := available_base_lt mmap ((size - 8) / 24)
  generalize available mmap ((size - 8) / 24) = l at h hbase ⊢
  constructor
  · intro hord
    constructor
    · exact dropLast_of_pairwise hbase (h.list ▸ hord.apart)
    · have hsum := hord.size
      rw [h.list] at hsum
      rw [← hsum, h.size]
      exact Nat.mod_lt _ (by norm_num)
  · rintro ⟨hends, hsum⟩
    refine ⟨h.cap, h.list, h.list ▸ h.aligned, ?_, ?_⟩
    · rw [h.list]
      exact (pairwise_of_ends hends h.ends).imp fun hlt => by omega
    · rw [h.list, h.size, u64_of_lt hsum]

/-- A memory map of two available entries. -/
def mmapOf (sec sec' : MemSection) : Bytes.Mem :=
  let m := Bytes.store (fun _ => 0) 0 4 24
  let m := Bytes.store (Bytes.store (Bytes.store m 8 8 sec.base) 16 8 sec.len) 24 4 1
  Bytes.store (Bytes.store (Bytes.store m 32 8 sec'.base) 40 8 sec'.len) 48 4 1

theorem sections_ordered_iff_two : ∃ s', bootstrapMmapInfo (mmapOf ⟨0, 0x9f000⟩ ⟨0x100000, 0x7f00000⟩) 56 frameState₀ = .ok () s' ∧
    (Ordered (available (mmapOf ⟨0, 0x9f000⟩ ⟨0x100000, 0x7f00000⟩) 2) s' ↔
      (∀ sec ∈ (available (mmapOf ⟨0, 0x9f000⟩ ⟨0x100000, 0x7f00000⟩) 2).dropLast, sec.base + sec.len < 2 ^ 64) ∧
        ((available (mmapOf ⟨0, 0x9f000⟩ ⟨0x100000, 0x7f00000⟩) 2).map MemSection.len).sum < 2 ^ 64) := by
  have hrun : bootstrapMmapInfo (mmapOf ⟨0, 0x9f000⟩ ⟨0x100000, 0x7f00000⟩) 56 frameState₀ = .ok () _ :=
    Exec.ok_of_isOk (by decide +kernel)
  exact ⟨_, hrun, sections_ordered_iff (show 56 < 2 ^ 64 by decide) hrun⟩

/-- The first of two sections reaches the end of the address space. -/
def mmapTop : Bytes.Mem := mmapOf ⟨0x100000, 2 ^ 64 - 0x100000⟩ ⟨0x200000, 0x1000⟩

/-- The second one lies in it. -/
theorem sections_overlap : ∃ s', bootstrapMmapInfo mmapTop 56 frameState₀ = .ok () s' ∧ ¬ Ordered (available mmapTop 2) s' := by
  refine ⟨_, Exec.ok_of_isOk (by decide +kernel), fun h => ?_⟩
  have hlist : (sectionList (Exec.final (bootstrapMmapInfo mmapTop 56 frameState₀))).map (fun sec => (sec.base, sec.len)) =
      [(0x100000, 2 ^ 64 - 0x100000), (0x200000, 0x1000)] := by decide +kernel
  have hmap : ((sectionList (Exec.final (bootstrapMmapInfo mmapTop 56 frameState₀))).map fun sec => (sec.base, sec.len)).Pairwise
      fun x y => x.1 + x.2 ≤ y.1 := List.pairwise_map.2 (h.apart.imp fun h => h.2)
  rw [hlist] at hmap
  have hle := (List.pairwise_cons.1 hmap).1 _ List.mem_cons_self
  exact absurd hle (by decide)

end Cing.Mem
