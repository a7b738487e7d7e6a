/-
kernel_main.c: which boot information `_multi_boot_info_save` accepts, and that what a boot loader laid out as tags is found again
under their types, each payload byte for byte.
-/
import Cing.Kernel.BootInfo

namespace Cing.Boot

open Bytes (Row leBytes)

/-! ## Accepted blobs -/

section Accepted

variable {m : Bytes.Mem} {info boot b total off e n : Nat} {l : List Tag} {s s' : BootState} {g : Tag}

/-- A tag the kernel knows, of a type it has not seen. -/
theorem multiBootInfoSaveTag_run {ptr type size : Nat} (hin : type ∈ multiBootTagTypes) (hptr : s.ptrs type = 0)
    (hlen : s.lens type = 0) : multiBootInfoSaveTag ptr type size s = .ok (u64Sub (u64 (ptr + size)) 8)
      { s with lens := Function.update s.lens type (u32Sub size 8), ptrs := Function.update s.ptrs type ptr } := by
  have hslots : ∀ t ∈ multiBootTagTypes, t < multiBootInfoSlotCount := by decide
  unfold multiBootInfoSaveTag
  rw [if_pos hin, Exec.bind_ok (Exec.pure_run _ s), Exec.bind_ok (Exec.get_run s),
    Exec.bind_ok (kernelAssert_pos (hslots type hin) _ s),
    Exec.bind_ok (kernelAssert_pos hptr _ s), Exec.bind_ok (kernelAssert_pos hlen _ s)]
  rfl

theorem multiBootInfoProcessTagHeader_run {ptr : Nat} (hal : ptr % 8 = 0) (s : BootState) :
    multiBootInfoProcessTagHeader ptr s = .ok (u64 (ptr + 8), Bytes.load s.mem ptr 4, Bytes.load s.mem (ptr + 4) 4) s := by
  unfold multiBootInfoProcessTagHeader
  rw [Exec.bind_ok (kernelAssert_pos hal _ s), Exec.bind_ok (Exec.get_run s)]
  rfl

/-- Tags of known types, no two alike, are all kept. -/
theorem saveLoop_run (hlow : info ≤ va48LowEnd) (hal : info % 8 = 0) : ∀ {n off : Nat} {l : List Tag} {s : BootState},
    Tags s.mem info s.totalSize off l e → e < multiBootInfoCap + 16 → off % 8 = 0 → (∀ g ∈ l, g.type ∈ multiBootTagTypes) →
    (l.map Tag.type).Nodup → (∀ g ∈ l, s.ptrs g.type = 0 ∧ s.lens g.type = 0) → l.length < n →
    ∃ s', saveLoop info n (info + off) s = .ok (info + e) s'
  | 0, _, _, _, _, _, _, _, _, _, hn => absurd hn (Nat.not_lt_zero _)
  | n + 1, off, l, s, ht, he, h8, hin, hnd, hnull, hn => by
    have hle := ht.le
    have hcap : multiBootInfoCap = 1048576 := rfl
    unfold va48LowEnd at hlow
    have hsub : u64Sub (info + off) info = off := by rw [u64Sub_of_le (by omega) (by omega)]; omega
    rw [saveLoop, Exec.bind_ok (Exec.get_run s), hsub]
    cases ht with
    | done hout =>
      rw [if_neg (by omega)]
      exact ⟨s, rfl⟩
    | last hlt hty =>
      have hptr : u64 (info + off + 8) = info + (off + 8) := by rw [u64_of_lt (by omega), Nat.add_assoc]
      rw [if_pos hlt, Exec.bind_ok (multiBootInfoProcessTagHeader_run (by omega) s)]
      have hzero : Bytes.load s.mem (info + off) 4 = 0 := hty
      simp only [hzero, if_true, hptr]
      exact ⟨s, rfl⟩
    | @tag _ _ l hlt hty ht =>
      obtain ⟨hnew, hnd⟩ := List.nodup_cons.1 hnd
      obtain ⟨hptr, hlen⟩ := hnull _ List.mem_cons_self
      have hne : ¬ Bytes.load s.mem (info + off) 4 = 0 := hty
      have hsize : Bytes.load s.mem (info + off + 4) 4 < 2 ^ 32 := Bytes.load_lt s.mem (info + off + 4) 4
      have hhead : u64 (info + off + 8) = info + off + 8 := u64_of_lt (by omega)
      have hsave : multiBootInfoSaveTag (info + off + 8) (Bytes.load s.mem (info + off) 4) (Bytes.load s.mem (info + off + 4) 4) s =
          .ok (u64Sub (u64 (info + off + 8 + Bytes.load s.mem (info + off + 4) 4)) 8) (withTag info s (tagAt s.mem info off)) :=
        multiBootInfoSaveTag_run (hin _ List.mem_cons_self) hptr hlen
      rw [if_pos hlt, Exec.bind_ok (multiBootInfoProcessTagHeader_run (by omega) s)]
      simp only [if_neg hne, hhead]
      rw [Exec.bind_ok hsave, Exec.bind_ok (mmAlignUp_next (by omega) (by omega) (by omega) hsize _)]
      refine saveLoop_run hlow hal ht he (Nat.mul_mod_left _ 8)
        (fun g hg => hin g (List.mem_cons_of_mem _ hg)) hnd (fun g hg => ?_) (Nat.lt_of_succ_lt_succ hn)
      have hother : g.type ≠ (tagAt s.mem info off).type := fun heq => hnew (heq ▸ List.mem_map_of_mem hg)
      have hnull := hnull g (List.mem_cons_of_mem _ hg)
      exact ⟨(Function.update_of_ne hother _ _).trans hnull.1, (Function.update_of_ne hother _ _).trans hnull.2⟩

/-- The loop keeps tags of known types only. -/
theorem saveLoop_known (hlow : info ≤ va48LowEnd) : ∀ {n off p : Nat} {l : List Tag} {s s' : BootState},
    Tags s.mem info s.totalSize off l e → s.totalSize < multiBootInfoCap → off < 2 ^ 33 → off % 8 = 0 →
    saveLoop info n (info + off) s = .ok p s' → ∀ g ∈ l, g.type ∈ multiBootTagTypes
  | 0, _, _, _, _, _, _, _, _, _, h => by cases h
  | n + 1, off, p, l, s, s', ht, hcap, hlt, h8, h => by
    unfold va48LowEnd at hlow
    have hsub : u64Sub (info + off) info = off := by rw [u64Sub_of_le (by omega) (by omega)]; omega
    rw [saveLoop, Exec.bind_ok (Exec.get_run s), hsub] at h
    cases ht with
    | done => exact fun g hg => absurd hg List.not_mem_nil
    | last => exact fun g hg => absurd hg List.not_mem_nil
    | @tag _ _ l hin hty ht =>
      have hne : ¬ Bytes.load s.mem (info + off) 4 = 0 := hty
      rw [if_pos hin] at h
      obtain ⟨r, s₁, hhead, h⟩ := Exec.bind_eq_ok.1 h
      obtain ⟨hmod, rfl, rfl⟩ := multiBootInfoProcessTagHeader_ok hhead
      simp only [if_neg hne, u64_of_lt (by omega : info + off + 8 < 2 ^ 64)] at h
      obtain ⟨p₁, s₂, hsave, h⟩ := Exec.bind_eq_ok.1 h
      obtain ⟨p₂, s₃, halign, h⟩ := Exec.bind_eq_ok.1 h
      obtain ⟨-, hp₁, hs₂⟩ := multiBootInfoSaveTag_ok hsave
      have hsize : Bytes.load s₁.mem (info + off + 4) 4 < 2 ^ 32 := Bytes.load_lt s₁.mem (info + off + 4) 4
      rw [hp₁, mmAlignUp_next (by omega) (by omega) hlt hsize] at halign
      cases halign
      have hs₂ : s₂ = withTag info s₁ (tagAt s₁.mem info off) := hs₂
      rw [hs₂] at h
      have hnext : (tagAt s₁.mem info off).next < 2 ^ 33 := by
        show (off + Bytes.load s₁.mem (info + off + 4) 4 + 7) / 8 * 8 < 2 ^ 33
        unfold multiBootInfoCap at hcap
        omega
      have hrest := saveLoop_known (s := withTag info s₁ (tagAt s₁.mem info off)) hlow ht hcap hnext (Nat.mul_mod_left _ 8) h
      intro g hg
      rcases List.mem_cons.1 hg with rfl | hg
      · exact multiBootInfoSaveTag_known hsave
      · exact hrest g hg

/-- A blob of tags of known types, no two alike, that end where the blob does. -/
structure WellFormed (m : Bytes.Mem) (b : Nat) : Prop where
  cap : Bytes.load m b 4 < multiBootInfoCap
  reserved : Bytes.load m (b + 4) 4 = 0
  tags : ∃ l, Tags m b (Bytes.load m b 4) 8 l (Bytes.load m b 4) ∧ (∀ g ∈ l, g.type ∈ multiBootTagTypes) ∧ (l.map Tag.type).Nodup

/-- A blob has one walk. -/
theorem Tags.unique {l' : List Tag} {e' : Nat} (h : Tags m b total off l e) (h' : Tags m b total off l' e') : l' = l := by
  induction h generalizing l' e' with
  | done hle =>
    cases h' with
    | done => rfl
    | last hlt => omega
    | tag hlt => omega
  | last hlt hty =>
    cases h' with
    | done hle => omega
    | last => rfl
    | tag _ hne => exact absurd hty hne
  | tag hlt hne _ ih =>
    cases h' with
    | done hle => omega
    | last _ hty => exact absurd hty hne
    | tag _ _ ht => rw [ih ht]

/-- The tags of the copy are those of the blob. -/
theorem copied_tags (hapart : boot + Bytes.load s.mem boot 4 ≤ info ∨ info + Bytes.load s.mem boot 4 ≤ boot)
    (ht : Tags s.mem boot (Bytes.load s.mem boot 4) 8 l (Bytes.load s.mem boot 4)) :
    Tags (copied info boot s).mem info (copied info boot s).totalSize 8 l (Bytes.load s.mem boot 4) := by
  refine ht.congr (ht.mod rfl) rfl fun x hx => ?_
  show _ = mmCopy info boot (Bytes.load s.mem boot 4) s.mem (info + x)
  rw [mmCopy_apply info boot hapart, if_pos (by omega), Nat.add_sub_cancel_left]

/-- What an accepted blob is, and what was kept of it. -/
theorem multiBootInfoSave_ok (hlow : info ≤ va48LowEnd)
    (hapart : boot + Bytes.load s.mem boot 4 ≤ info ∨ info + Bytes.load s.mem boot 4 ≤ boot)
    (hrun : multiBootInfoSave info boot n s = .ok () s') :
    Bytes.load s.mem boot 4 < multiBootInfoCap ∧ Bytes.load s.mem (boot + 4) 4 = 0 ∧ ∃ l,
      Tags s.mem boot (Bytes.load s.mem boot 4) 8 l (Bytes.load s.mem boot 4) ∧ (∀ g ∈ l, g.type ∈ multiBootTagTypes) ∧
      Saved info l (copied info boot s) s' := by
  by_cases h : Bytes.load s.mem boot 4 < multiBootInfoCap ∧ Bytes.load s.mem (boot + 4) 4 = 0
  · obtain ⟨hcap, hres⟩ := h
    rw [multiBootInfoSave_run hcap hres] at hrun
    obtain ⟨p, s₁, hloop, hassert⟩ := Exec.bind_eq_ok.1 hrun
    obtain ⟨l, e, ht, hp, he, hsaved⟩ := saveLoop_ok (s := copied info boot s) hlow hcap (by norm_num) rfl hloop
    obtain ⟨hend, rfl⟩ := kernelAssert_ok hassert
    have hin := saveLoop_known (s := copied info boot s) hlow ht hcap (by norm_num) rfl hloop
    have he : e = Bytes.load s.mem boot 4 := by
      unfold va48LowEnd at hlow
      rw [hp, u64Sub_of_le (by omega) (by omega)] at hend
      omega
    refine ⟨hcap, hres, l, ?_, hin, hsaved⟩
    have hmod : Bytes.load s.mem boot 4 % 8 = 0 := by
      rw [← he]
      exact ht.mod rfl
    rw [he] at ht
    refine Tags.congr ht hmod rfl fun x hx => ?_
    have hx : x < Bytes.load s.mem boot 4 := hx
    show mmCopy info boot (Bytes.load s.mem boot 4) s.mem (info + x) = _
    rw [mmCopy_apply info boot hapart, if_pos (by omega), Nat.add_sub_cancel_left]
  · obtain ⟨err, -, herr⟩ := multiBootInfoSave_stop h info
    rw [herr n] at hrun
    cases hrun

theorem multiBootInfoSave_returns (hlow : info ≤ va48LowEnd) (hal : info % 8 = 0)
    (hapart : boot + Bytes.load s.mem boot 4 ≤ info ∨ info + Bytes.load s.mem boot 4 ≤ boot) (hn : multiBootTagTypes.length < n)
    (h : WellFormed s.mem boot) : ∃ s', multiBootInfoSave info boot n s = .ok () s' := by
  obtain ⟨hcap, hres, l, ht, hin, hnd⟩ := h
  have hlen : l.length ≤ multiBootTagTypes.length := by
    rw [← List.length_map (f := Tag.type)]
    refine (List.Nodup.subperm hnd fun t ht => ?_).length_le
    obtain ⟨g, hg, rfl⟩ := List.mem_map.1 ht
    exact hin g hg
  obtain ⟨s', hloop⟩ := saveLoop_run hlow hal (copied_tags hapart ht) (by omega) rfl hin hnd (fun _ _ => ⟨rfl, rfl⟩)
    (hlen.trans_lt hn)
  have hend : u64Sub (info + Bytes.load s.mem boot 4) info = Bytes.load s.mem boot 4 := by
    unfold va48LowEnd at hlow
    unfold multiBootInfoCap at hcap
    rw [u64Sub_of_le (by omega) (by omega)]
    omega
  rw [multiBootInfoSave_run hcap hres, Exec.bind_ok hloop]
  exact ⟨s', kernelAssert_pos hend _ s'⟩

/-- `_multi_boot_info_save` accepts a blob if and only if its tags, one behind the other up to the end tag or the end of the blob,
fill it exactly, are of types the kernel knows and no type is there twice; every other blob stops it, and not by a loop without
end. -/
theorem boot_info_accepted_iff (hlow : info ≤ va48LowEnd) (hal : info % 8 = 0)
    (hapart : boot + Bytes.load s.mem boot 4 ≤ info ∨ info + Bytes.load s.mem boot 4 ≤ boot) (hn : multiBootTagTypes.length < n) :
    ((∃ s', multiBootInfoSave info boot n s = .ok () s') ↔ WellFormed s.mem boot) ∧
      (¬ WellFormed s.mem boot → ∃ err s', err ≠ .hang ∧ multiBootInfoSave info boot n s = .error err s') := by
  have hwell : ∀ s', multiBootInfoSave info boot n s = .ok () s' → WellFormed s.mem boot := by
    intro s' hrun
    obtain ⟨hcap, hres, l, ht, hin, hsaved⟩ := multiBootInfoSave_ok hlow hapart hrun
    exact ⟨hcap, hres, l, ht, hin, hsaved.nodup⟩
  refine ⟨⟨fun ⟨s', hrun⟩ => hwell s' hrun, multiBootInfoSave_returns hlow hal hapart hn⟩, fun hnot => ?_⟩
  obtain ⟨k, rfl⟩ := Nat.exists_eq_add_of_le hn
  obtain ⟨hsame, hended⟩ := multiBootInfoSave_ends hlow boot k s
  cases hrun : multiBootInfoSave info boot (multiBootTagTypes.length.succ + k) s with
  | ok _ s' => exact absurd (hwell s' hrun) hnot
  | error err s' =>
    rw [← hsame] at hended
    exact ⟨err, s', fun he => hended s' (he ▸ hrun), rfl⟩

theorem boot_info_accepted_iff_commandLine : (∃ s', multiBootInfoSave 0x200000 0x10000 12 (blobState commandLine) = .ok () s') ↔
    WellFormed (blobState commandLine).mem 0x10000 :=
  (boot_info_accepted_iff (by decide) (by decide) (by decide +kernel) (by decide)).1

end Accepted

/-! ## Round trip -/

/-- Boot information of one type. -/
structure BootTag where
  type : Nat
  payload : List UInt8

/-- A tag as a boot loader lays it out: the type, the size with the header, the payload, and zeros up to the next multiple of 8. -/
def BootTag.bytes (g : BootTag) : List UInt8 :=
  leBytes 4 g.type ++ (leBytes 4 (g.payload.length + 8) ++
    (g.payload ++ List.replicate ((g.payload.length + 7) / 8 * 8 - g.payload.length) 0))

/-- Tags one behind the other, and the end tag. -/
def tagBytes : List BootTag → List UInt8
  | [] => leBytes 4 0 ++ leBytes 4 8
  | g :: l => g.bytes ++ tagBytes l

/-- The boot information. -/
def blobBytes (l : List BootTag) : List UInt8 := leBytes 4 ((tagBytes l).length + 8) ++ (leBytes 4 0 ++ tagBytes l)

/-- The headers of tags that are laid out from an offset on. -/
def layout : Nat → List BootTag → List Tag
  | _, [] => []
  | off, g :: l => ⟨off, g.type, g.payload.length + 8⟩ :: layout (off + g.bytes.length) l

section RoundTrip

variable {m : Bytes.Mem} {info boot b off n : Nat} {s : BootState} {g : BootTag}

theorem BootTag.bytes_length (g : BootTag) : g.bytes.length = 8 + (g.payload.length + 7) / 8 * 8 := by
  unfold BootTag.bytes
  rw [List.length_append, List.length_append, List.length_append, Bytes.leBytes_length, Bytes.leBytes_length, List.length_replicate]
  omega

theorem blobBytes_length (l : List BootTag) : (blobBytes l).length = (tagBytes l).length + 8 := by
  unfold blobBytes
  rw [List.length_append, List.length_append, Bytes.leBytes_length, Bytes.leBytes_length]
  omega

/-- The parts of a tag in memory. -/
theorem BootTag.row (h : Row m b g.bytes) (hty : g.type < 2 ^ 32) (hlen : g.payload.length + 8 < 2 ^ 32) :
    Bytes.load m b 4 = g.type ∧ Bytes.load m (b + 4) 4 = g.payload.length + 8 ∧ Row m (b + 8) g.payload := by
  obtain ⟨h1, hrest⟩ := Bytes.row_append.1 h
  obtain ⟨h2, hrest⟩ := Bytes.row_append.1 hrest
  obtain ⟨h3, -⟩ := Bytes.row_append.1 hrest
  rw [Bytes.leBytes_length] at h2 h3
  rw [Bytes.leBytes_length] at h3
  refine ⟨?_, ?_, h3⟩
  · rw [h1.load, Nat.mod_eq_of_lt (by norm_num; exact hty)]
  · rw [h2.load, Nat.mod_eq_of_lt (by norm_num; exact hlen)]

/-- The walk over what was laid out finds the headers. -/
theorem tags_of_row : ∀ {l : List BootTag} {off : Nat}, Row m (b + off) (tagBytes l) →
    (∀ g ∈ l, g.type ≠ 0 ∧ g.type < 2 ^ 32) → off % 8 = 0 →
    off + (tagBytes l).length < 2 ^ 32 → Tags m b (off + (tagBytes l).length) off (layout off l) (off + (tagBytes l).length)
  | [], off, h, _, _, hlen => by
    have hsize : (tagBytes []).length = 8 := rfl
    have hzero : Bytes.load m (b + off) 4 = 0 := (Bytes.row_append.1 h).1.load
    rw [hsize]
    exact .last (by omega) hzero
  | g :: l, off, h, hty, h8, hlen => by
    obtain ⟨hne, hlt⟩ := hty g List.mem_cons_self
    obtain ⟨hg, hrest⟩ := Bytes.row_append.1 h
    have hbytes := g.bytes_length
    have hsplit : (tagBytes (g :: l)).length = g.bytes.length + (tagBytes l).length := List.length_append
    rw [hsplit] at hlen ⊢
    obtain ⟨htype, hsize, -⟩ := BootTag.row hg hlt (by omega)
    have hat : tagAt m b off = ⟨off, g.type, g.payload.length + 8⟩ := by
      unfold tagAt
      rw [htype, hsize]
    have hnext : (tagAt m b off).next = off + g.bytes.length := by
      rw [hat]
      unfold Tag.next
      dsimp only
      omega
    rw [Nat.add_assoc b off] at hrest
    have hrec := tags_of_row hrest (fun g' hg' => hty g' (List.mem_cons_of_mem _ hg')) (by omega) (by omega)
    show Tags m b _ off (⟨off, g.type, g.payload.length + 8⟩ :: layout (off + g.bytes.length) l) _
    rw [← hat, ← Nat.add_assoc]
    refine .tag (by omega) (by rw [hat]; exact hne) ?_
    rw [hnext]
    exact hrec

/-- The header of each tag that was laid out, with its payload behind it. -/
theorem layout_mem : ∀ {l : List BootTag} {off : Nat}, Row m (b + off) (tagBytes l) → g ∈ l →
    ∃ o, ⟨o, g.type, g.payload.length + 8⟩ ∈ layout off l ∧ Row m (b + o + 8) g.payload ∧
      o + 8 + g.payload.length ≤ off + (tagBytes l).length
  | g' :: l, off, h, hg => by
    have hsplit : (tagBytes (g' :: l)).length = g'.bytes.length + (tagBytes l).length := List.length_append
    obtain ⟨hhead, hrest⟩ := Bytes.row_append.1 h
    rw [hsplit]
    rcases List.mem_cons.1 hg with rfl | hg
    · obtain ⟨-, hrest⟩ := Bytes.row_append.1 hhead
      obtain ⟨-, hrest⟩ := Bytes.row_append.1 hrest
      obtain ⟨hpay, -⟩ := Bytes.row_append.1 hrest
      rw [Bytes.leBytes_length, Bytes.leBytes_length] at hpay
      have hlen := g.bytes_length
      exact ⟨off, List.mem_cons_self, hpay, by omega⟩
    · rw [Nat.add_assoc b off] at hrest
      obtain ⟨o, ho, hpay, hle⟩ := layout_mem hrest hg
      exact ⟨o, List.mem_cons_of_mem _ ho, hpay, by omega⟩

theorem layout_types : ∀ {l : List BootTag} {off : Nat}, (layout off l).map Tag.type = l.map BootTag.type
  | [], _ => rfl
  | g :: l, off => by
    rw [layout, List.map_cons, List.map_cons, layout_types]

/-- Whatever boot information of known types, one of each, a boot loader lays out in less than 1M, `_multi_boot_info_save` accepts
it, and finds under each type the payload that was laid out for it, and nothing under any other type. -/
theorem boot_info_round_trip (l : List BootTag) (hin : ∀ g ∈ l, g.type ∈ multiBootTagTypes) (hnd : (l.map BootTag.type).Nodup)
    (hcap : (blobBytes l).length < multiBootInfoCap) (hrow : Row s.mem boot (blobBytes l)) (hlow : info ≤ va48LowEnd)
    (hal : info % 8 = 0)
    (hapart : boot + (blobBytes l).length ≤ info ∨ info + (blobBytes l).length ≤ boot) (hn : multiBootTagTypes.length < n) :
    ∃ s', multiBootInfoSave info boot n s = .ok () s' ∧
      (∀ g ∈ l, s'.ptrs g.type ≠ 0 ∧ s'.lens g.type = g.payload.length ∧ Row s'.mem (s'.ptrs g.type) g.payload) ∧
      ∀ t, t ∉ l.map BootTag.type → s'.ptrs t = 0 ∧ s'.lens t = 0 := by
  have hlength := blobBytes_length l
  have hcap' : multiBootInfoCap = 1048576 := rfl
  obtain ⟨h1, hrest⟩ := Bytes.row_append.1 hrow
  obtain ⟨h2, h3⟩ := Bytes.row_append.1 hrest
  rw [Bytes.leBytes_length] at h2 h3
  rw [Bytes.leBytes_length, Nat.add_assoc] at h3
  have htotal : Bytes.load s.mem boot 4 = (blobBytes l).length := by
    rw [h1.load, Nat.mod_eq_of_lt (by norm_num; omega), hlength]
  have hknown : ∀ t ∈ multiBootTagTypes, t ≠ 0 ∧ t < 2 ^ 32 := by decide
  have ht := tags_of_row h3 (fun g hg => hknown _ (hin g hg)) rfl (by omega)
  have hsum : 4 + 4 + (tagBytes l).length = (blobBytes l).length := by omega
  rw [hsum, ← htotal] at ht
  rw [← htotal] at hapart hcap
  have hlay : ∀ g ∈ layout 8 l, g.type ∈ multiBootTagTypes := by
    intro g hg
    have hg := List.mem_map_of_mem (f := Tag.type) hg
    rw [layout_types] at hg
    obtain ⟨g', hg', he⟩ := List.mem_map.1 hg
    rw [← he]
    exact hin g' hg'
  have haccept : WellFormed s.mem boot := ⟨hcap, h2.load, layout 8 l, ht, hlay, layout_types.symm ▸ hnd⟩
  obtain ⟨s', hrun⟩ := multiBootInfoSave_returns hlow hal hapart hn haccept
  obtain ⟨-, -, l', ht', -, hsaved⟩ := multiBootInfoSave_ok hlow hapart hrun
  obtain rfl := ht.unique ht'
  refine ⟨s', hrun, fun g hg => ?_, fun t hout => hsaved.others t (layout_types.symm ▸ hout)⟩
  obtain ⟨o, ho, hpay, hle⟩ := layout_mem h3 hg
  obtain ⟨hptr, hlen⟩ := hsaved.saved _ ho
  refine ⟨?_, ?_, ?_⟩
  · rw [hptr]
    exact Nat.succ_ne_zero _
  · rw [hlen]
    show u32Sub (g.payload.length + 8) 8 = g.payload.length
    unfold u32Sub
    omega
  · rw [hptr, hsaved.mem]
    refine hpay.congr fun i hi => ?_
    show mmCopy info boot (Bytes.load s.mem boot 4) s.mem (info + o + 8 + i) = _
    rw [mmCopy_apply info boot hapart, if_pos (by omega)]
    exact congrArg s.mem (by omega)

/-- A command line and the old memory information, laid out at 64K. -/
def bootTags₀ : List BootTag := [⟨1, [97, 98, 99, 0]⟩, ⟨4, [0, 2, 0, 0, 0, 252, 1, 0]⟩]

theorem boot_info_round_trip_two :
    ∃ s', multiBootInfoSave 0x200000 0x10000 12 ⟨Bytes.splice (fun _ => 0) 0x10000 (blobBytes bootTags₀), 0,
      fun _ => 0, fun _ => 0⟩ = .ok () s' ∧
    (∀ g ∈ bootTags₀, s'.ptrs g.type ≠ 0 ∧ s'.lens g.type = g.payload.length ∧ Row s'.mem (s'.ptrs g.type) g.payload) ∧
    ∀ t, t ∉ bootTags₀.map BootTag.type → s'.ptrs t = 0 ∧ s'.lens t = 0 :=
  boot_info_round_trip bootTags₀ (by decide) (by decide) (by decide) (Bytes.row_splice _ _ _) (by decide) (by decide)
    (by decide) (by decide)

end RoundTrip

end Cing.Boot
