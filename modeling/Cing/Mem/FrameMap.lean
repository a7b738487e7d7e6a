/-
mem_frame.c: where `mem_frame_bootstrap_2` puts the frame map. Every section of more than 8M has to be apart from the frame buffer
and the config spaces, and the map is put behind the first page of the first such section. Ranges that only touch are taken for
overlapping, a range that ends at 2^64 is taken to end at 0, and nothing keeps the map off the kernel image.
-/
import Cing.Mem.Frame

namespace Cing.Mem

/-! ## Overlaps -/

/-- Two ranges share an address. -/
def Share (a1 len1 a2 len2 : Nat) : Prop := ∃ x, a1 ≤ x ∧ x < a1 + len1 ∧ a2 ≤ x ∧ x < a2 + len2

theorem share_iff {a1 len1 a2 len2 : Nat} (h1 : 0 < len1) (h2 : 0 < len2) : Share a1 len1 a2 len2 ↔ a1 < a2 + len2 ∧
    a2 < a1 + len1 := by
  constructor
  · rintro ⟨x, hx⟩
    omega
  · intro h
    exact ⟨max a1 a2, by omega, by omega, by omega, by omega⟩

theorem paRangeOverlaps_eq_false {a1 len1 a2 len2 : Nat} :
    paRangeOverlaps a1 len1 a2 len2 = false ↔ u64 (a1 + len1) < a2 ∨ u64 (a2 + len2) < a1 := by
  unfold paRangeOverlaps
  rw [Bool.not_eq_false', Bool.or_eq_true, decide_eq_true_iff, decide_eq_true_iff]

/-- Ranges below 2^64 that do not touch; or one ends at 2^64, and the other lies below it and does not start at 0, or starts at 0
and does not touch it. -/
def Plain (a1 len1 a2 len2 : Nat) : Prop :=
  (a1 + len1 < 2 ^ 64 ∧ a2 + len2 < 2 ^ 64 ∧ a1 + len1 ≠ a2 ∧ a2 + len2 ≠ a1) ∨
    (a1 + len1 = 2 ^ 64 ∧ a2 + len2 < 2 ^ 64 ∧ (0 < a2 ∧ a2 + len2 ≤ a1 ∨ a2 = 0 ∧ len2 ≠ a1)) ∨
    (a2 + len2 = 2 ^ 64 ∧ a1 + len1 < 2 ^ 64 ∧ (0 < a1 ∧ a1 + len1 ≤ a2 ∨ a1 = 0 ∧ len1 ≠ a2))

/-- The end of a range as the code computes it. -/
theorem u64_end {a len : Nat} (h : a + len ≤ 2 ^ 64) : a + len < 2 ^ 64 ∧ u64 (a + len) = a + len ∨ a + len = 2 ^ 64 ∧
    u64 (a + len) = 0 := by
  rcases Nat.lt_or_eq_of_le h with hlt | he
  · exact .inl ⟨hlt, u64_of_lt hlt⟩
  · refine .inr ⟨he, ?_⟩
    rw [he]
    exact Nat.mod_self _

theorem paRangeOverlaps_exact_iff {a1 len1 a2 len2 : Nat} (h1 : 0 < len1) (h2 : 0 < len2) (hl1 : len1 < 2 ^ 64)
    (hl2 : len2 < 2 ^ 64) (he1 : a1 + len1 ≤ 2 ^ 64) (he2 : a2 + len2 ≤ 2 ^ 64) :
    (paRangeOverlaps a1 len1 a2 len2 = true ↔ Share a1 len1 a2 len2) ↔ Plain a1 len1 a2 len2 := by
  have hover : paRangeOverlaps a1 len1 a2 len2 = true ↔ ¬ (u64 (a1 + len1) < a2 ∨ u64 (a2 + len2) < a1) := by
    rw [← paRangeOverlaps_eq_false, Bool.not_eq_false]
  rw [hover, share_iff h1 h2]
  unfold Plain
  rcases u64_end he1 with ⟨hlt1, hu1⟩ | ⟨htop1, hu1⟩ <;> rcases u64_end he2 with ⟨hlt2, hu2⟩ | ⟨htop2, hu2⟩ <;>
    rw [hu1, hu2] <;> omega

/-! ## The checks of a section -/

/-- The texts of the two assertions. -/
def overlapTexts : List String :=
  ["!_pa_overlaps_pcie_cfg_space(_sections[i].base, _sections[i].len)",
    "!_pa_overlaps_vesa_frame_buffer(_sections[i].base, _sections[i].len)"]

/-- A section passes both of them. -/
def Clear (dev : MemDevices) (sec : MemSection) : Prop :=
  paOverlapsPcieCfgSpace dev sec.base sec.len = false ∧ paOverlapsVesaFrameBuffer dev sec.base sec.len = false

variable {dev : MemDevices} {sec : MemSection} {n pages : Nat} {s s' : FrameState}

theorem sectionCheck_run (h : Clear dev sec) (s : FrameState) : sectionCheck dev sec s = .ok () s := by
  unfold sectionCheck
  rw [Exec.bind_ok (kernelAssert_pos h.1 _ s), kernelAssert_pos h.2]

theorem sectionCheck_stop (h : ¬ Clear dev sec) (s : FrameState) :
    ∃ expr ∈ overlapTexts, sectionCheck dev sec s = .error (.assertFail expr) s := by
  unfold sectionCheck
  by_cases h1 : paOverlapsPcieCfgSpace dev sec.base sec.len = false
  · have h2 : ¬ paOverlapsVesaFrameBuffer dev sec.base sec.len = false := fun h2 => h ⟨h1, h2⟩
    refine ⟨_, List.mem_cons_of_mem _ List.mem_cons_self, ?_⟩
    rw [Exec.bind_ok (kernelAssert_pos h1 _ s), kernelAssert_neg h2]
  · refine ⟨_, List.mem_cons_self, ?_⟩
    rw [Exec.bind_error (kernelAssert_neg h1 _ s)]

theorem clear_iff : Clear dev sec ↔ (∀ g ∈ dev.groups, u64 (sec.base + sec.len) < g ∨ u64 (g + dPcieGroupGetCfgLen) < sec.base) ∧
    (u64 (sec.base + sec.len) < dev.fb ∨ u64 (dev.fb + dev.fbLen) < sec.base) := by
  unfold Clear paOverlapsPcieCfgSpace paOverlapsVesaFrameBuffer
  rw [List.any_eq_false, paRangeOverlaps_eq_false]
  refine and_congr_left fun _ => forall₂_congr fun g _ => ?_
  rw [Bool.not_eq_true, paRangeOverlaps_eq_false]

/-- The lengths of the sections of more than 8M, and how many pages they have. -/
def bigLen (sections : Nat → MemSection) : Nat → Nat
  | 0 => 0
  | n + 1 => bigLen sections n + if big (sections n) then (sections n).len else 0

def bigFrames (sections : Nat → MemSection) : Nat → Nat
  | 0 => 0
  | n + 1 => bigFrames sections n + if big (sections n) then (sections n).len / pageSize4K else 0

theorem paLenLoop_run (h : ∀ i < n, big (s.sections i) = true → Clear dev (s.sections i)) :
    paLenLoop dev n s = .ok (u64 (bigLen s.sections n)) s := by
  induction n with
  | zero => exact congrArg (fun x => EStateM.Result.ok x s) (u64_of_lt (by norm_num)).symm
  | succ n ih =>
    have hloop := ih fun i hi => h i (hi.trans (Nat.lt_succ_self n))
    rw [paLenLoop, Exec.bind_ok hloop, Exec.bind_ok (Exec.get_run s), bigLen]
    by_cases hb : big (s.sections n) = true
    · rw [if_pos hb, if_pos hb, Exec.bind_ok (sectionCheck_run (h n (Nat.lt_succ_self n) hb) s), Exec.pure_run]
      congr 1
      unfold u64
      omega
    · rw [if_neg hb, if_neg hb, Nat.add_zero, Exec.pure_run]

/-- The first loop stops at a section that does not pass. -/
theorem paLenLoop_stop (h : ∃ i < n, big (s.sections i) = true ∧ ¬ Clear dev (s.sections i)) :
    ∃ expr ∈ overlapTexts, paLenLoop dev n s = .error (.assertFail expr) s := by
  induction n with
  | zero =>
    obtain ⟨i, hi, -⟩ := h
    exact absurd hi (Nat.not_lt_zero i)
  | succ n ih =>
    rw [paLenLoop]
    by_cases hbefore : ∃ i < n, big (s.sections i) = true ∧ ¬ Clear dev (s.sections i)
    · obtain ⟨expr, hexpr, hloop⟩ := ih hbefore
      exact ⟨expr, hexpr, Exec.bind_error hloop⟩
    · have hloop : paLenLoop dev n s = .ok _ s := paLenLoop_run fun i hi hb => by
        by_contra hc
        exact hbefore ⟨i, hi, hb, hc⟩
      obtain ⟨i, hi, hb, hc⟩ := h
      obtain rfl : i = n := by
        by_contra hne
        exact hbefore ⟨i, by omega, hb, hc⟩
      obtain ⟨expr, hexpr, hcheck⟩ := sectionCheck_stop hc s
      refine ⟨expr, hexpr, ?_⟩
      rw [Exec.bind_ok hloop, Exec.bind_ok (Exec.get_run s), if_pos hb, Exec.bind_error hcheck]

/-! ## Where the map is put -/

/-- The page behind the first page of a section, on 64-bit words. -/
def mapStart (base : Nat) : Nat := u64 (u64 (base + pageSize4K) + (pageSize4K - 1)) / pageSize4K * pageSize4K

theorem memAlignUp_run (p : Nat) (s : FrameState) :
    memAlignUp p pageSize4K s = .ok (u64 (p + (pageSize4K - 1)) / pageSize4K * pageSize4K) s := by
  have hlt : u64 (p + u64Sub pageSize4K 1) < 2 ^ 64 := Nat.mod_lt _ (by norm_num)
  have hsub : u64Sub pageSize4K 1 = pageSize4K - 1 := u64Sub_of_le (by decide) (by decide)
  have hlow := and_not_low hlt (show 12 < 64 by norm_num)
  rw [show 2 ^ 12 = pageSize4K from rfl, hsub] at hlow
  unfold memAlignUp
  rw [Exec.bind_ok (kernelAssert_pos (by decide) _ s), Exec.bind_ok (kernelAssert_pos (by decide +kernel) _ s), hsub,
    hlow, Exec.pure_run]

/-- The map after `n` rounds: the first place that is not 0. -/
def mapPlace (sections : Nat → MemSection) : Nat → Nat
  | 0 => 0
  | n + 1 => if big (sections n) = true ∧ mapPlace sections n = 0 then mapStart (sections n).base else mapPlace sections n

/-- A place for `pages` pages at the start of a section passes the check behind it. -/
def PlaceFits (pages : Nat) (sec : MemSection) : Prop :=
  u64 (mapStart sec.base + u64 (pages * pageSize4K)) < u64 (sec.base + sec.len)

instance (pages : Nat) (sec : MemSection) : Decidable (PlaceFits pages sec) := inferInstanceAs (Decidable (_ < _))

/-- One round of the second loop, at a section that passes its checks. -/
theorem placeRound_cases (h : big (s.sections n) = true → Clear dev (s.sections n)) :
    (placeRound dev pages n s =
        .ok () { s with frameMap := if big (s.sections n) = true ∧ s.frameMap = 0 then mapStart (s.sections n).base
          else s.frameMap } ∧
      (big (s.sections n) = true → s.frameMap = 0 → PlaceFits pages (s.sections n))) ∨
    ∃ s', placeRound dev pages n s = .error (.assertFail "map_end < sec_end") s' := by
  unfold placeRound
  rw [Exec.bind_ok (Exec.get_run s)]
  by_cases hb : big (s.sections n) = true
  · rw [if_pos hb, Exec.bind_ok (sectionCheck_run (h hb) s)]
    by_cases hz : s.frameMap = 0
    · rw [if_pos hz, Exec.bind_ok (memAlignUp_run _ s), Exec.bind_ok (Exec.set_run s _), if_pos ⟨hb, hz⟩]
      by_cases hfit : PlaceFits pages (s.sections n)
      · exact .inl ⟨kernelAssert_pos hfit _ _, fun _ _ => hfit⟩
      · exact .inr ⟨_, kernelAssert_neg hfit _ _⟩
    · rw [if_neg hz, if_neg fun hc => hz hc.2]
      exact .inl ⟨rfl, fun _ hz' => absurd hz' hz⟩
  · rw [if_neg hb, if_neg fun hc => hb hc.1]
    exact .inl ⟨rfl, fun hb' => absurd hb' hb⟩

/-- The second loop over sections that pass their checks: it puts the map into the first place, or stops where that has no room. -/
theorem placeLoop_cases (h : ∀ i < n, big (s.sections i) = true → Clear dev (s.sections i)) (hzero : s.frameMap = 0) :
    (placeLoop dev pages n s = .ok () { s with frameMap := mapPlace s.sections n } ∧
      ∀ i < n, big (s.sections i) = true → mapPlace s.sections i = 0 → PlaceFits pages (s.sections i)) ∨
    ∃ s', placeLoop dev pages n s = .error (.assertFail "map_end < sec_end") s' := by
  induction n with
  | zero =>
    refine .inl ⟨?_, fun i hi => absurd hi (Nat.not_lt_zero i)⟩
    have hs : { s with frameMap := 0 } = s := by rw [← hzero]
    rw [mapPlace, hs]
    rfl
  | succ n ih =>
    rcases ih fun i hi => h i (hi.trans (Nat.lt_succ_self n)) with ⟨hloop, hfits⟩ | ⟨s', hloop⟩
    · rw [placeLoop, Exec.bind_ok hloop]
      rcases placeRound_cases (s := { s with frameMap := mapPlace s.sections n }) (h n (Nat.lt_succ_self n)) with
        ⟨hround, hfit⟩ | ⟨s', hround⟩
      · refine .inl ⟨hround, fun i hi hb hz => ?_⟩
        rcases Nat.lt_succ_iff_lt_or_eq.1 hi with hi | rfl
        · exact hfits i hi hb hz
        · exact hfit hb hz
      · exact .inr ⟨s', hround⟩
    · exact .inr ⟨s', Exec.bind_error hloop⟩

/-- How many pages the map has for a number of bytes. -/
def mapPageCnt (paLen : Nat) : Nat := u64 (u64 (u64 (paLen / pageSize4K * 2) * 8) / pageSize4K + 2)

/-- The state before the second loop. -/
def mapState (s : FrameState) : FrameState :=
  { s with frameMapCap := u64 (mapPageCnt (u64 (bigLen s.sections s.secCnt)) * pageSize4K) / 8, frameMap := 0 }

theorem memFrameBootstrap2_run (h : ∀ i < s.secCnt, big (s.sections i) = true → Clear dev (s.sections i)) :
    memFrameBootstrap2 dev s = placeLoop dev (mapPageCnt (u64 (bigLen s.sections s.secCnt))) s.secCnt (mapState s) := by
  unfold memFrameBootstrap2
  rw [Exec.bind_ok (Exec.get_run s), Exec.bind_ok (paLenLoop_run h)]
  rfl

/-- An assertion about overlaps fails if and only if a section of more than 8M does not pass. -/
theorem overlap_assertion_iff : (∀ expr ∈ overlapTexts, ∀ s', memFrameBootstrap2 dev s ≠ .error (.assertFail expr) s') ↔
    ∀ i < s.secCnt, big (s.sections i) = true → Clear dev (s.sections i) := by
  constructor
  · intro hno i hi hb
    by_contra hc
    obtain ⟨expr, hexpr, hloop⟩ := paLenLoop_stop ⟨i, hi, hb, hc⟩
    refine hno expr hexpr s ?_
    unfold memFrameBootstrap2
    rw [Exec.bind_ok (Exec.get_run s), Exec.bind_error hloop]
  · intro hclear expr hexpr s' hrun
    rw [memFrameBootstrap2_run hclear] at hrun
    rcases placeLoop_cases (s := mapState s) hclear rfl with ⟨hloop, -⟩ | ⟨s₁, hloop⟩
    · rw [hloop] at hrun
      cases hrun
    · rw [hloop] at hrun
      injection hrun with herr
      injection herr with htext
      rw [← htext] at hexpr
      exact absurd hexpr (by decide)

/-! ## When machines boot -/

/-- There is a byte between two ranges; or one of them ends at 2^64 and the other does not start at 0. -/
def Gap (a1 len1 a2 len2 : Nat) : Prop :=
  a1 + len1 < a2 ∨ a2 + len2 < a1 ∨ a1 + len1 = 2 ^ 64 ∧ 0 < a2 ∨ a2 + len2 = 2 ^ 64 ∧ 0 < a1

theorem gap_iff {a1 len1 a2 len2 : Nat} (h1 : a1 + len1 ≤ 2 ^ 64) (h2 : a2 + len2 ≤ 2 ^ 64) (ha1 : a1 < 2 ^ 64)
    (ha2 : a2 < 2 ^ 64) : Gap a1 len1 a2 len2 ↔ u64 (a1 + len1) < a2 ∨ u64 (a2 + len2) < a1 := by
  unfold Gap
  rcases u64_end h1 with ⟨hlt1, hu1⟩ | ⟨htop1, hu1⟩ <;> rcases u64_end h2 with ⟨hlt2, hu2⟩ | ⟨htop2, hu2⟩ <;>
      rw [hu1, hu2] <;> omega

/-- The ranges of a machine do not pass 2^64. -/
structure NoWrap (dev : MemDevices) (s : FrameState) : Prop where
  sections : ∀ i < s.secCnt, big (s.sections i) = true → (s.sections i).base < 2 ^ 64 ∧
    (s.sections i).base + (s.sections i).len ≤ 2 ^ 64
  fb : dev.fb < 2 ^ 64 ∧ dev.fb + dev.fbLen ≤ 2 ^ 64
  groups : ∀ g ∈ dev.groups, g < 2 ^ 64 ∧ g + dPcieGroupGetCfgLen ≤ 2 ^ 64

/-- `pa_range_overlaps` is exact if and only if the ranges do not touch (with the two cases at 2^64), and no assertion about
overlaps fails if and only if there is a gap between every section of more than 8M and every device. -/
theorem overlap_tests_exact_iff (hw : NoWrap dev s) :
    (∀ a1 len1 a2 len2 : Nat, 0 < len1 → 0 < len2 → len1 < 2 ^ 64 → len2 < 2 ^ 64 → a1 + len1 ≤ 2 ^ 64 → a2 + len2 ≤ 2 ^ 64 →
      ((paRangeOverlaps a1 len1 a2 len2 = true ↔ Share a1 len1 a2 len2) ↔ Plain a1 len1 a2 len2)) ∧
    ((∀ expr ∈ overlapTexts, ∀ s', memFrameBootstrap2 dev s ≠ .error (.assertFail expr) s') ↔
      ∀ i < s.secCnt, big (s.sections i) = true →
        (∀ g ∈ dev.groups, Gap (s.sections i).base (s.sections i).len g dPcieGroupGetCfgLen) ∧
          Gap (s.sections i).base (s.sections i).len dev.fb dev.fbLen) := by
  refine ⟨fun a1 len1 a2 len2 h1 h2 hl1 hl2 he1 he2 => paRangeOverlaps_exact_iff h1 h2 hl1 hl2 he1 he2, ?_⟩
  rw [overlap_assertion_iff]
  refine forall₂_congr fun i hi => forall_congr' fun hb => ?_
  obtain ⟨hbase, hend⟩ := hw.sections i hi hb
  rw [clear_iff, gap_iff hend hw.fb.2 hbase hw.fb.1]
  refine and_congr_left fun _ => forall₂_congr fun g hg => ?_
  rw [gap_iff hend (hw.groups g hg).2 hbase (hw.groups g hg).1]

/-- Memory from 1M to 128M, and a kernel at its start. -/
def mapState₀ : FrameState :=
  { frameState₀ with sections := fun _ => ⟨0x100000, 0x7f00000⟩, secCnt := 1, kernStartPa := 0x100000, kernEndPa := 0x5100000 }

/-- A frame buffer at 4048M and a config space at 2816M. -/
def memDevices₀ : MemDevices := ⟨0xfd000000, 0x300000, [0xb0000000]⟩

theorem memDevices₀_noWrap : NoWrap memDevices₀ mapState₀ := by
  refine ⟨fun i _ _ => ⟨(by decide : 0x100000 < 2 ^ 64), (by decide : 0x100000 + 0x7f00000 ≤ 2 ^ 64)⟩, by decide, fun g hg => ?_⟩
  rw [List.mem_singleton.1 hg]
  decide

theorem overlap_tests_exact_iff_machine₀ :
    ((paRangeOverlaps 0 0x1000 0x2000 0x1000 = true ↔ Share 0 0x1000 0x2000 0x1000) ↔ Plain 0 0x1000 0x2000 0x1000) ∧
    ((∀ expr ∈ overlapTexts, ∀ s', memFrameBootstrap2 memDevices₀ mapState₀ ≠ .error (.assertFail expr) s') ↔
      ∀ i < mapState₀.secCnt, big (mapState₀.sections i) = true →
        (∀ g ∈ memDevices₀.groups, Gap (mapState₀.sections i).base (mapState₀.sections i).len g dPcieGroupGetCfgLen) ∧
          Gap (mapState₀.sections i).base (mapState₀.sections i).len memDevices₀.fb memDevices₀.fbLen) :=
  ⟨(overlap_tests_exact_iff memDevices₀_noWrap).1 0 0x1000 0x2000 0x1000 (by decide) (by decide) (by decide) (by decide) (by decide)
    (by decide), (overlap_tests_exact_iff memDevices₀_noWrap).2⟩

/-- Two neighbouring pages count as overlapping. -/
theorem overlap_of_neighbours : ¬ (paRangeOverlaps 0 0x1000 0x1000 0x1000 = true ↔ Share 0 0x1000 0x1000 0x1000) := by
  rw [share_iff (by decide) (by decide)]
  decide +kernel

/-! ## When the map is in free memory -/

/-- The map is page-aligned, in a section, large enough for two words for each page of the sections of more than 8M, and apart from
the kernel and the devices. -/
structure MapFree (dev : MemDevices) (s : FrameState) : Prop where
  aligned : s.frameMap % pageSize4K = 0
  inside : ∃ i < s.secCnt, (s.sections i).base ≤ s.frameMap ∧
    s.frameMap + s.frameMapCap * 8 ≤ (s.sections i).base + (s.sections i).len
  room : 2 * bigFrames s.sections s.secCnt ≤ s.frameMapCap
  kernel : ∀ x, s.frameMap ≤ x → x < s.frameMap + s.frameMapCap * 8 → ¬ (s.kernStartPa ≤ x ∧ x < s.kernEndPa)
  fb : ¬ Share s.frameMap (s.frameMapCap * 8) dev.fb dev.fbLen
  groups : ∀ g ∈ dev.groups, ¬ Share s.frameMap (s.frameMapCap * 8) g dPcieGroupGetCfgLen

/-- Where the map starts. -/
def mapFirst (s : FrameState) : Nat := mapPlace s.sections s.secCnt

/-- How many bytes it has. -/
def mapBytes (s : FrameState) : Nat := mapPageCnt (u64 (bigLen s.sections s.secCnt)) * pageSize4K

/-- The inputs are 64-bit words. -/
structure WordSized (dev : MemDevices) (s : FrameState) : Prop where
  sections : ∀ i < s.secCnt, (s.sections i).base < 2 ^ 64 ∧ (s.sections i).len < 2 ^ 64
  fb : dev.fb < 2 ^ 64 ∧ dev.fbLen < 2 ^ 64
  groups : ∀ g ∈ dev.groups, g < 2 ^ 64

/-- The frame buffer and the config spaces, each with its length. -/
def devRanges (dev : MemDevices) : List (Nat × Nat) := (dev.fb, dev.fbLen) :: dev.groups.map fun g => (g, dPcieGroupGetCfgLen)

/-- A section whose start, moved up two pages, wraps to 0. -/
def Lost (base : Nat) : Prop := 2 ^ 64 < base + 8192 ∧ base ≤ 2 ^ 64 - 4096

/-- The first section of more than 8M, less those that are lost. -/
structure FirstBig (s : FrameState) (j : Nat) : Prop where
  lt : j < s.secCnt
  big : 8 * 1024 * 1024 < (s.sections j).len
  here : ¬ Lost (s.sections j).base
  before : ∀ i < j, 8 * 1024 * 1024 < (s.sections i).len → Lost (s.sections i).base

/-- The bytes of two words for each page of `len` bytes, in whole pages, and two pages more. -/
def mapLen (len : Nat) : Nat := (len / 4096 * 16 / 4096 + 2) * 4096

/-- The kernel image has nothing between `first` and `last`. -/
def KernelOff (s : FrameState) (first last : Nat) : Prop := s.kernEndPa ≤ s.kernStartPa ∨ s.kernEndPa ≤ first ∨ last ≤ s.kernStartPa

/-- A section goes from `first` at the latest to `last` at the earliest. -/
def Spanned (s : FrameState) (first last : Nat) : Prop :=
  ∃ i < s.secCnt, (s.sections i).base ≤ first ∧ last ≤ (s.sections i).base + (s.sections i).len

/-- When there is room for a map of `len` bytes. -/
inductive MapRoom (dev : MemDevices) (s : FrameState) (len : Nat) : Prop
  /-- The map ends below 2^64: devices that reach 2^64 have to begin behind it, the checks keep off the others. -/
  | behind {j first : Nat} : FirstBig s j → (s.sections j).base + 8191 < 2 ^ 64 →
      first = ((s.sections j).base + 8191) / 4096 * 4096 →
    first + len < 2 ^ 64 → KernelOff s first (first + len) →
    (∀ r ∈ devRanges dev, r.1 + r.2 < 2 ^ 64 ∨ first + len ≤ r.1) → MapRoom dev s len
  /-- The map reaches 2^64: its section ends before that, so another has to go as far, and the devices have to end before the
  map. -/
  | top {j first : Nat} : FirstBig s j → (s.sections j).base + 8191 < 2 ^ 64 → first = ((s.sections j).base + 8191) / 4096 * 4096 →
    2 ^ 64 ≤ first + len → KernelOff s first (first + len) → Spanned s first (first + len) →
    (∀ r ∈ devRanges dev, r.2 = 0 ∨ r.1 + r.2 ≤ first) → MapRoom dev s len
  /-- The section begins in the last page of the address space, so the map begins in the second. -/
  | second {j : Nat} : FirstBig s j → 2 ^ 64 - 4096 < (s.sections j).base → KernelOff s 4096 (4096 + len) →
      Spanned s 4096 (4096 + len) →
    (∀ r ∈ devRanges dev, r.2 = 0 ∨ r.1 + r.2 ≤ 4096 ∨ 4096 + len ≤ r.1) → MapRoom dev s len
  /-- All are lost, and the map begins at 0. -/
  | zero : (∀ i < s.secCnt, 8 * 1024 * 1024 < (s.sections i).len → Lost (s.sections i).base) → KernelOff s 0 len → Spanned s 0 len →
    (∀ r ∈ devRanges dev, r.2 = 0 ∨ len ≤ r.1) → MapRoom dev s len

theorem mapPageCnt_eq {x : Nat} (h : x < 2 ^ 64) : mapPageCnt x = x / 4096 * 16 / 4096 + 2 := by
  unfold mapPageCnt pageSize4K
  rw [u64_of_lt (by omega : x / 4096 * 2 < 2 ^ 64), u64_of_lt (by omega : x / 4096 * 2 * 8 < 2 ^ 64), u64_of_lt (by omega)]
  omega

theorem mapState_cap (s : FrameState) : (mapState s).frameMapCap * 8 = mapBytes s := by
  have hlt : u64 (bigLen s.sections s.secCnt) < 2 ^ 64 := Nat.mod_lt _ (by norm_num)
  unfold mapState mapBytes
  dsimp only
  rw [mapPageCnt_eq hlt]
  generalize u64 (bigLen s.sections s.secCnt) = x at hlt
  unfold pageSize4K
  rw [u64_of_lt (by omega)]
  omega

theorem mapPlace_aligned (sections : Nat → MemSection) (n : Nat) : mapPlace sections n % pageSize4K = 0 := by
  induction n with
  | zero => rfl
  | succ n ih =>
    rw [mapPlace]
    split
    · exact Nat.mul_mod_left _ _
    · exact ih

/-- The map is in the first section for which its place is not 0. -/
theorem mapPlace_spec (sections : Nat → MemSection) (h : mapPlace sections n ≠ 0) :
    ∃ j < n, big (sections j) = true ∧ mapPlace sections j = 0 ∧ mapPlace sections n = mapStart (sections j).base := by
  induction n with
  | zero => exact absurd rfl h
  | succ n ih =>
    rw [mapPlace] at h ⊢
    split at h
    next hn =>
      rw [if_pos hn]
      exact ⟨n, Nat.lt_succ_self n, hn.1, hn.2, rfl⟩
    next hn =>
      rw [if_neg hn]
      obtain ⟨j, hj, hrest⟩ := ih h
      exact ⟨j, hj.trans (Nat.lt_succ_self n), hrest⟩

/-- Where a section puts the map: behind its first page, or at one of the first two pages if that wraps. -/
theorem mapStart_eq {base : Nat} (h : base < 2 ^ 64) : mapStart base =
    if base + 8191 < 2 ^ 64 then (base + 8191) / 4096 * 4096 else if base ≤ 2 ^ 64 - 4096 then 0 else 4096 := by
  unfold mapStart u64 pageSize4K
  split
  · omega
  · split <;> omega

theorem mapStart_eq_zero {base : Nat} (h : base < 2 ^ 64) : mapStart base = 0 ↔ Lost base := by
  rw [mapStart_eq h]
  unfold Lost
  split
  · omega
  · split <;> omega

theorem big_iff (sec : MemSection) : big sec = true ↔ 8 * 1024 * 1024 < sec.len := decide_eq_true_iff

theorem mapPlace_eq_zero {sections : Nat → MemSection} (hw : ∀ i < n, (sections i).base < 2 ^ 64) :
    mapPlace sections n = 0 ↔ ∀ i < n, 8 * 1024 * 1024 < (sections i).len → Lost (sections i).base := by
  induction n with
  | zero => exact ⟨fun _ i hi => absurd hi (Nat.not_lt_zero i), fun _ => rfl⟩
  | succ n ih =>
    have ih := ih fun i hi => hw i (hi.trans (Nat.lt_succ_self n))
    rw [mapPlace]
    constructor
    · intro h i hi hb
      split at h
      next hn =>
        rcases Nat.lt_succ_iff_lt_or_eq.1 hi with hi | rfl
        · exact ih.1 hn.2 i hi hb
        · exact (mapStart_eq_zero (hw i (Nat.lt_succ_self i))).1 h
      next hn =>
        rcases Nat.lt_succ_iff_lt_or_eq.1 hi with hi | rfl
        · exact ih.1 h i hi hb
        · exact absurd ⟨(big_iff _).2 hb, h⟩ hn
    · intro h
      have hz := ih.2 fun i hi => h i (hi.trans (Nat.lt_succ_self n))
      split
      next hn => exact (mapStart_eq_zero (hw n (Nat.lt_succ_self n))).2 (h n (Nat.lt_succ_self n) ((big_iff _).1 hn.1))
      next => exact hz

theorem FirstBig.unique {j j' : Nat} (h : FirstBig s j) (h' : FirstBig s j') : j = j' := by
  rcases Nat.lt_trichotomy j j' with hlt | rfl | hlt
  · exact absurd (h'.before j hlt h.big) h.here
  · rfl
  · exact absurd (h.before j' hlt h'.big) h'.here

/-- The map is put where the first large section has it, or at 0. -/
theorem mapFirst_cases (hw : WordSized dev s) :
    (∃ j, FirstBig s j ∧ mapFirst s = mapStart (s.sections j).base ∧ mapPlace s.sections j = 0) ∨
    (∀ i < s.secCnt, 8 * 1024 * 1024 < (s.sections i).len → Lost (s.sections i).base) ∧ mapFirst s = 0 := by
  have hbase : ∀ i < s.secCnt, (s.sections i).base < 2 ^ 64 := fun i hi => (hw.sections i hi).1
  by_cases hz : mapFirst s = 0
  · exact .inr ⟨(mapPlace_eq_zero hbase).1 hz, hz⟩
  · obtain ⟨j, hj, hb, hzero, hplace⟩ := mapPlace_spec s.sections hz
    refine .inl ⟨j, ⟨hj, (big_iff _).1 hb, fun hlost => hz ?_, ?_⟩, hplace, hzero⟩
    · exact hplace.trans ((mapStart_eq_zero (hbase j hj)).2 hlost)
    · exact (mapPlace_eq_zero fun i hi => hbase i (hi.trans hj)).1 hzero

/-- Each section loses less than a page. -/
theorem bigLen_bounds (sections : Nat → MemSection) (n : Nat) :
    4096 * bigFrames sections n ≤ bigLen sections n ∧ bigLen sections n ≤ 4096 * bigFrames sections n + 4095 * n := by
  induction n with
  | zero => exact ⟨Nat.zero_le _, Nat.zero_le _⟩
  | succ n ih =>
    rw [bigLen, bigFrames]
    unfold pageSize4K
    split <;> omega

/-- There is room for two words for each page if and only if the sum of the lengths did not carry. -/
theorem map_room_iff (hcnt : s.secCnt ≤ sectionCap) :
    2 * bigFrames s.sections s.secCnt ≤ (mapState s).frameMapCap ↔ bigLen s.sections s.secCnt < 2 ^ 64 := by
  have hlt : u64 (bigLen s.sections s.secCnt) < 2 ^ 64 := Nat.mod_lt _ (by norm_num)
  have hcap := mapState_cap s
  obtain ⟨hge, hle⟩ := bigLen_bounds s.sections s.secCnt
  have hdef : u64 (bigLen s.sections s.secCnt) = bigLen s.sections s.secCnt % 2 ^ 64 := rfl
  unfold sectionCap at hcnt
  unfold mapBytes at hcap
  rw [mapPageCnt_eq hlt] at hcap
  rw [hdef] at hcap hlt
  unfold pageSize4K at hcap
  generalize bigLen s.sections s.secCnt = total at hcap hlt hle hge ⊢
  generalize bigFrames s.sections s.secCnt = frames at hle hge ⊢
  generalize (mapState s).frameMapCap = cap at hcap ⊢
  constructor
  · intro hroom
    omega
  · intro hsmall
    rw [Nat.mod_eq_of_lt hsmall] at hcap
    omega

/-- What a run that returns leaves. -/
theorem memFrameBootstrap2_ok (hrun : memFrameBootstrap2 dev s = .ok () s') :
    s' = { mapState s with frameMap := mapFirst s } ∧ (∀ i < s.secCnt, big (s.sections i) = true → Clear dev (s.sections i)) ∧
      ∀ i < s.secCnt, big (s.sections i) = true → mapPlace s.sections i = 0 →
        PlaceFits (mapPageCnt (u64 (bigLen s.sections s.secCnt))) (s.sections i) := by
  have hclear : ∀ i < s.secCnt, big (s.sections i) = true → Clear dev (s.sections i) := by
    refine overlap_assertion_iff.1 fun expr _ s₁ herr => ?_
    rw [hrun] at herr
    cases herr
  rw [memFrameBootstrap2_run hclear] at hrun
  rcases placeLoop_cases (s := mapState s) hclear rfl with ⟨hloop, hfits⟩ | ⟨s₁, hloop⟩
  · rw [hloop] at hrun
    injection hrun with _ hs'
    exact ⟨hs'.symm, hclear, hfits⟩
  · rw [hloop] at hrun
    cases hrun

theorem clear_iff_ranges : Clear dev sec ↔ ∀ r ∈ devRanges dev, u64 (sec.base + sec.len) < r.1 ∨ u64 (r.1 + r.2) < sec.base := by
  rw [clear_iff, devRanges, List.forall_mem_cons, List.forall_mem_map, and_comm]

theorem WordSized.ranges (h : WordSized dev s) : ∀ r ∈ devRanges dev, r.1 < 2 ^ 64 ∧ r.2 < 2 ^ 64 := by
  rw [devRanges, List.forall_mem_cons, List.forall_mem_map]
  exact ⟨h.fb, fun g hg => ⟨h.groups g hg, (by decide : dPcieGroupGetCfgLen < 2 ^ 64)⟩⟩

theorem mapBytes_eq (h : bigLen s.sections s.secCnt < 2 ^ 64) : mapBytes s = mapLen (bigLen s.sections s.secCnt) := by
  unfold mapBytes mapLen
  rw [u64_of_lt h, mapPageCnt_eq h]
  rfl

/-- What is left of the claims about the map once its place and its length are known. -/
structure PlaceFree (dev : MemDevices) (s : FrameState) (first last : Nat) : Prop where
  kernel : KernelOff s first last
  inside : Spanned s first last
  devices : ∀ r ∈ devRanges dev, r.2 = 0 ∨ r.1 + r.2 ≤ first ∨ last ≤ r.1

theorem not_share_iff {a1 len1 a2 len2 : Nat} (h1 : 0 < len1) : ¬ Share a1 len1 a2 len2 ↔ len2 = 0 ∨ a2 + len2 ≤ a1 ∨
    a1 + len1 ≤ a2 := by
  rcases Nat.eq_zero_or_pos len2 with rfl | h2
  · exact ⟨fun _ => .inl rfl, fun _ ⟨x, hx⟩ => by omega⟩
  · rw [share_iff h1 h2]
    omega

theorem mapFree_iff (hcnt : s.secCnt ≤ sectionCap) : MapFree dev { mapState s with frameMap := mapFirst s } ↔
    bigLen s.sections s.secCnt < 2 ^ 64 ∧ PlaceFree dev s (mapFirst s) (mapFirst s + mapBytes s) := by
  have hcap := mapState_cap s
  have hpos : 0 < mapBytes s := by
    have hlt : u64 (bigLen s.sections s.secCnt) < 2 ^ 64 := Nat.mod_lt _ (by norm_num)
    unfold mapBytes
    rw [mapPageCnt_eq hlt]
    unfold pageSize4K
    omega
  have hkernel : (∀ x, mapFirst s ≤ x → x < mapFirst s + mapBytes s → ¬ (s.kernStartPa ≤ x ∧ x < s.kernEndPa)) ↔
      KernelOff s (mapFirst s) (mapFirst s + mapBytes s) := by
    unfold KernelOff
    constructor
    · intro h
      by_contra hno
      exact h (max (mapFirst s) s.kernStartPa) (by omega) (by omega) ⟨by omega, by omega⟩
    · intro h x hx hx'
      omega
  have hdevices : (∀ r ∈ devRanges dev, r.2 = 0 ∨ r.1 + r.2 ≤ mapFirst s ∨ mapFirst s + mapBytes s ≤ r.1) ↔
      ¬ Share (mapFirst s) (mapBytes s) dev.fb dev.fbLen ∧
        ∀ g ∈ dev.groups, ¬ Share (mapFirst s) (mapBytes s) g dPcieGroupGetCfgLen := by
    rw [devRanges, List.forall_mem_cons, List.forall_mem_map, not_share_iff hpos]
    exact and_congr_right fun _ => forall₂_congr fun g _ => (not_share_iff hpos).symm
  constructor
  · rintro ⟨-, hinside, hroom, hkern, hfb, hgroups⟩
    dsimp only at hinside hroom hkern hfb hgroups
    rw [hcap] at hkern hfb
    simp only [hcap] at hinside hgroups
    exact ⟨(map_room_iff hcnt).1 hroom, hkernel.1 hkern, hinside, hdevices.2 ⟨hfb, hgroups⟩⟩
  · rintro ⟨hsum, hkern, hinside, hdev⟩
    obtain ⟨hfb, hgroups⟩ := hdevices.1 hdev
    have hmod := hkernel.2 hkern
    refine ⟨mapPlace_aligned _ _, ?_, (map_room_iff hcnt).2 hsum, ?_, ?_, ?_⟩
    · dsimp only
      rw [hcap]
      exact hinside
    · dsimp only
      rw [hcap]
      exact hmod
    · dsimp only
      rw [hcap]
      exact hfb
    · dsimp only
      rw [hcap]
      exact hgroups

/-- Below 2^64 the check at the end of the map keeps it inside its section, and the checks of the section keep it off the devices
whose ends do not wrap. -/
theorem placeFree_behind {first len : Nat} (hw : WordSized dev s) (hj : n < s.secCnt) (hfirst : (s.sections n).base < first)
    (hend : first + len < 2 ^ 64) (hfit : first + len < u64 ((s.sections n).base + (s.sections n).len))
    (hclear : Clear dev (s.sections n)) :
    PlaceFree dev s first (first + len) ↔
      KernelOff s first (first + len) ∧ ∀ r ∈ devRanges dev, r.1 + r.2 < 2 ^ 64 ∨ first + len ≤ r.1 := by
  obtain ⟨hbase, hlen⟩ := hw.sections n hj
  -- an end that wrapped would be below the start
  have hsec : (s.sections n).base + (s.sections n).len < 2 ^ 64 := by
    unfold u64 at hfit
    omega
  rw [u64_of_lt hsec] at hfit
  have hranges := clear_iff_ranges.1 hclear
  rw [u64_of_lt hsec] at hranges
  constructor
  · rintro ⟨hkernel, -, hdevices⟩
    refine ⟨hkernel, fun r hr => ?_⟩
    have h1 := hdevices r hr
    have h2 := hw.ranges r hr
    omega
  · rintro ⟨hkernel, hdevices⟩
    refine ⟨hkernel, ⟨n, hj, hfirst.le, hfit.le⟩, fun r hr => ?_⟩
    have h1 := hranges r hr
    rcases hdevices r hr with hlow | habove
    · rw [u64_of_lt hlow] at h1
      omega
    · exact .inr (.inr habove)

/-! ## The ways the additions come out -/

section Room

variable {j first len : Nat}

theorem mapRoom_behind_iff (hj : FirstBig s j) (hlow : (s.sections j).base + 8191 < 2 ^ 64)
    (hfirst : first = ((s.sections j).base + 8191) / 4096 * 4096) (hend : first + len < 2 ^ 64) :
    MapRoom dev s len ↔ KernelOff s first (first + len) ∧ ∀ r ∈ devRanges dev, r.1 + r.2 < 2 ^ 64 ∨ first + len ≤ r.1 := by
  constructor
  · intro hroom
    cases hroom with
    | behind hj' _ hfirst' _ hkernel hdevices =>
      obtain rfl := hj.unique hj'
      rw [hfirst, ← hfirst']
      exact ⟨hkernel, hdevices⟩
    | top hj' _ hfirst' htop =>
      obtain rfl := hj.unique hj'
      omega
    | second hj' hlast =>
      obtain rfl := hj.unique hj'
      omega
    | zero hlost => exact absurd (hlost j hj.lt hj.big) hj.here
  · exact fun ⟨hkernel, hdevices⟩ => .behind hj hlow hfirst hend hkernel hdevices

theorem mapRoom_top_iff (hj : FirstBig s j) (hlow : (s.sections j).base + 8191 < 2 ^ 64)
    (hfirst : first = ((s.sections j).base + 8191) / 4096 * 4096) (hend : 2 ^ 64 ≤ first + len) :
    MapRoom dev s len ↔ KernelOff s first (first + len) ∧ Spanned s first (first + len) ∧
      ∀ r ∈ devRanges dev, r.2 = 0 ∨ r.1 + r.2 ≤ first := by
  constructor
  · intro hroom
    cases hroom with
    | behind hj' _ hfirst' hbelow =>
      obtain rfl := hj.unique hj'
      omega
    | top hj' _ hfirst' _ hkernel hinside hdevices =>
      obtain rfl := hj.unique hj'
      rw [hfirst, ← hfirst']
      exact ⟨hkernel, hinside, hdevices⟩
    | second hj' hlast =>
      obtain rfl := hj.unique hj'
      omega
    | zero hlost => exact absurd (hlost j hj.lt hj.big) hj.here
  · exact fun ⟨hkernel, hinside, hdevices⟩ => .top hj hlow hfirst hend hkernel hinside hdevices

theorem mapRoom_second_iff (hj : FirstBig s j) (hlast : 2 ^ 64 - 4096 < (s.sections j).base) :
    MapRoom dev s len ↔ PlaceFree dev s 4096 (4096 + len) := by
  constructor
  · intro hroom
    cases hroom with
    | behind hj' hlow =>
      obtain rfl := hj.unique hj'
      omega
    | top hj' hlow =>
      obtain rfl := hj.unique hj'
      omega
    | second _ _ hkernel hinside hdevices => exact ⟨hkernel, hinside, hdevices⟩
    | zero hlost => exact absurd (hlost j hj.lt hj.big) hj.here
  · exact fun ⟨hkernel, hinside, hdevices⟩ => .second hj hlast hkernel hinside hdevices

theorem mapRoom_zero_iff (hlost : ∀ i < s.secCnt, 8 * 1024 * 1024 < (s.sections i).len → Lost (s.sections i).base) :
    MapRoom dev s len ↔ PlaceFree dev s 0 len := by
  have hnone : ∀ j, ¬ FirstBig s j := fun j hj => hj.here (hlost j hj.lt hj.big)
  constructor
  · intro hroom
    cases hroom with
    | behind hj => exact absurd hj (hnone _)
    | top hj => exact absurd hj (hnone _)
    | second hj => exact absurd hj (hnone _)
    | zero _ hkernel hinside hdevices => exact ⟨hkernel, hinside, fun r hr => (hdevices r hr).imp_right .inr⟩
  · rintro ⟨hkernel, hinside, hdevices⟩
    refine .zero hlost hkernel hinside fun r hr => ?_
    have := hdevices r hr
    omega

/-- No device begins behind a map that reaches 2^64. -/
theorem placeFree_top (hw : WordSized dev s) (hend : 2 ^ 64 ≤ first + len) : PlaceFree dev s first (first + len) ↔
    KernelOff s first (first + len) ∧ Spanned s first (first + len) ∧ ∀ r ∈ devRanges dev, r.2 = 0 ∨ r.1 + r.2 ≤ first := by
  constructor
  · rintro ⟨hkernel, hinside, hdevices⟩
    refine ⟨hkernel, hinside, fun r hr => ?_⟩
    have h1 := hdevices r hr
    have h2 := hw.ranges r hr
    omega
  · rintro ⟨hkernel, hinside, hdevices⟩
    exact ⟨hkernel, hinside, fun r hr => (hdevices r hr).imp_right .inl⟩

end Room

/-- A run that returns left the map in free memory if and only if the lengths of the large sections did not carry and there was
room. -/
theorem frame_map_free_iff (hcnt : s.secCnt ≤ sectionCap) (hw : WordSized dev s) (hrun : memFrameBootstrap2 dev s = .ok () s') :
    MapFree dev s' ↔ bigLen s.sections s.secCnt < 2 ^ 64 ∧ MapRoom dev s (mapLen (bigLen s.sections s.secCnt)) := by
  obtain ⟨rfl, hclear, hfits⟩ := memFrameBootstrap2_ok hrun
  rw [mapFree_iff hcnt]
  refine and_congr_right fun hsum => ?_
  have hbytes := mapBytes_eq hsum
  rw [hbytes]
  generalize hlen : mapLen (bigLen s.sections s.secCnt) = len at hbytes
  have hlt : len < 2 ^ 63 := by
    rw [← hlen]
    unfold mapLen
    omega
  rcases mapFirst_cases hw with ⟨j, hj, hplace, hzero⟩ | ⟨hlost, hplace⟩
  · obtain ⟨hbase, -⟩ := hw.sections j hj.lt
    have hstart := mapStart_eq hbase
    rw [hplace]
    by_cases hlow : (s.sections j).base + 8191 < 2 ^ 64
    · rw [if_pos hlow] at hstart
      by_cases hend : mapStart (s.sections j).base + len < 2 ^ 64
      · have hfit := hfits j hj.lt ((big_iff _).2 hj.big) hzero
        unfold PlaceFits at hfit
        rw [show mapPageCnt (u64 (bigLen s.sections s.secCnt)) * pageSize4K = mapBytes s from rfl, hbytes,
          u64_of_lt (by omega : len < 2 ^ 64), u64_of_lt hend] at hfit
        rw [placeFree_behind hw hj.lt (by omega) hend hfit (hclear j hj.lt ((big_iff _).2 hj.big)),
          mapRoom_behind_iff hj hlow hstart hend]
      · rw [placeFree_top hw (Nat.not_lt.1 hend), mapRoom_top_iff hj hlow hstart (Nat.not_lt.1 hend)]
    · have hlast : 2 ^ 64 - 4096 < (s.sections j).base := by
        by_contra hno
        exact hj.here ⟨by omega, by omega⟩
      rw [if_neg hlow, if_neg (by omega)] at hstart
      rw [hstart, mapRoom_second_iff hj hlast]
  · rw [hplace, Nat.zero_add, mapRoom_zero_iff hlost]

/-- The map is put over the second page of the kernel, which is at the start of the memory. -/
theorem map_over_kernel_ok : Exec.isOk (memFrameBootstrap2 memDevices₀ mapState₀) = true := by decide +kernel

/-- The same memory with the kernel above 4M. -/
def mapState₁ : FrameState := { mapState₀ with kernStartPa := 0x400000, kernEndPa := 0x5400000 }

theorem map_below_kernel_ok : Exec.isOk (memFrameBootstrap2 memDevices₀ mapState₁) = true := by decide +kernel

theorem frame_map_free_iff_below_kernel : ∃ s', memFrameBootstrap2 memDevices₀ mapState₁ = .ok () s' ∧ MapFree memDevices₀ s' := by
  have hrun := Exec.ok_of_isOk map_below_kernel_ok
  have hwords : WordSized memDevices₀ mapState₁ :=
    ⟨fun i _ => ⟨(by decide : 0x100000 < 2 ^ 64), (by decide : 0x7f00000 < 2 ^ 64)⟩, ⟨by decide, by decide⟩, fun g hg => by
      rw [List.mem_singleton.1 hg]
      decide⟩
  have hfirst : FirstBig mapState₁ 0 :=
    ⟨by decide, by decide, fun h => absurd h.1 (by decide), fun i hi => absurd hi (Nat.not_lt_zero i)⟩
  have hlen : mapLen (bigLen mapState₁.sections mapState₁.secCnt) = 0x81000 := by decide +kernel
  have hroom : MapRoom memDevices₀ mapState₁ 0x81000 := by
    have hplace : 0x101000 = ((mapState₁.sections 0).base + 8191) / 4096 * 4096 := by decide
    refine .behind hfirst (by decide) hplace (by decide) (.inr (.inr (by decide))) fun r hr => ?_
    rcases List.mem_cons.1 hr with rfl | hr
    · exact .inl (by decide)
    · obtain ⟨g, hg, rfl⟩ := List.mem_map.1 hr
      rw [List.mem_singleton.1 hg]
      exact .inl (by decide)
  refine ⟨_, hrun, (frame_map_free_iff (by decide) hwords hrun).2 ⟨by decide +kernel, ?_⟩⟩
  rw [hlen]
  exact hroom

/-- The map overwrites the kernel. -/
theorem frame_map_over_kernel : ∃ s', memFrameBootstrap2 memDevices₀ mapState₀ = .ok () s' ∧ ¬ MapFree memDevices₀ s' := by
  have hrun := Exec.ok_of_isOk map_over_kernel_ok
  have hend := (memFrameBootstrap2_ok hrun).1
  refine ⟨_, hrun, fun hfree => ?_⟩
  rw [hend] at hfree
  exact hfree.kernel 0x101000 (by decide +kernel) (by decide +kernel) (by decide +kernel)

end Cing.Mem
