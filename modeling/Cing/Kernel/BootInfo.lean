/-
kernel_main.c: saving the boot information. The blob of the boot loader is copied into the kernel, then
its tags are walked and a pointer and a length kept for each type. A tag says how long it is with its
header of 8 bytes, and the next one starts at the next multiple of 8. Sizes are not checked: a size
between 1 and 7 leads on like a size of 8, but the length kept for it wraps below zero. Apart from that
the pointers and lengths are those of the payloads.
-/
import Cing.Lib.Bytes
import Cing.Mm.Base

namespace Cing

/-- The boot information of the kernel, with the memory it is in. -/
structure BootState where
  mem : Bytes.Mem
  totalSize : Nat
  ptrs : Nat → Nat
  lens : Nat → Nat

abbrev BootM := EStateM Stop BootState

namespace Boot

/-! ## The code -/

/-- `MULTI_BOOT_INFO_CAP`. -/
def multiBootInfoCap : Nat := 1024 * 1024

/-- `MULTI_BOOT_INFO_SLOT_COUNT`. -/
def multiBootInfoSlotCount : Nat := 128

/-- The tag types `_multi_boot_info_save_tag` knows. -/
def multiBootTagTypes : List Nat := [1, 2, 4, 5, 6, 7, 8, 9, 10, 14, 15]

/-- Subtraction on `u32_t`. -/
def u32Sub (a b : Nat) : Nat := (a + 2 ^ 32 - b) % 2 ^ 32

/-- `mm_copy`. -/
def mmCopy (dest src : Nat) : Nat → Bytes.Mem → Bytes.Mem
  | 0, m => m
  | n + 1, m => Bytes.put (mmCopy dest src n m) (dest + n) (mmCopy dest src n m (src + n))

/-- `_multi_boot_info_save_tag`: the pointer behind the tag. -/
def multiBootInfoSaveTag (ptr type size : Nat) : BootM Nat := do
  (if type ∈ multiBootTagTypes then pure () else throw (.panic ("Invalid multiboot info tag type: " ++ toString type)))
  let s ← get
  kernelAssert (type < multiBootInfoSlotCount) "type < MULTI_BOOT_INFO_SLOT_COUNT"
  kernelAssert (s.ptrs type = 0) "info->ptrs[type] == NULL"
  kernelAssert (s.lens type = 0) "info->lens[type] == 0"
  set { s with lens := Function.update s.lens type (u32Sub size 8), ptrs := Function.update s.ptrs type ptr }
  return u64Sub (u64 (ptr + size)) 8

/-- `_multi_boot_info_process_tag_header`: the pointer behind the header, the type and the size. -/
def multiBootInfoProcessTagHeader (ptr : Nat) : BootM (Nat × Nat × Nat) := do
  kernelAssert (ptr % 8 = 0) "(((uptr_t)ptr) % 8) == 0"
  let s ← get
  return (u64 (ptr + 8), Bytes.load s.mem ptr 4, Bytes.load s.mem (ptr + 4) 4)

/-- The loop of `_multi_boot_info_save`, at most `n` rounds: `ptr` at its end. The array `info` is at `info`. -/
def saveLoop (info : Nat) : Nat → Nat → BootM Nat
  | 0, _ => throw .hang
  | n + 1, ptr => do
    let s ← get
    if u64Sub ptr info < s.totalSize then do
      let r ← multiBootInfoProcessTagHeader ptr
      if r.2.1 = 0 then
        return r.1
      else do
        let ptr ← multiBootInfoSaveTag r.1 r.2.1 r.2.2
        let ptr ← mmAlignUp ptr 8
        saveLoop info n ptr
    else
      return ptr

/-- `_multi_boot_info_save` of the blob at `boot`. -/
def multiBootInfoSave (info boot n : Nat) : BootM Unit := do
  let s ← get
  let totalSize := Bytes.load s.mem boot 4
  kernelAssert (totalSize < multiBootInfoCap) "(info->total_size) < MULTI_BOOT_INFO_CAP"
  kernelAssert (Bytes.load s.mem (boot + 4) 4 = 0) "reserved == 0"
  set { s with mem := mmCopy info boot totalSize s.mem, totalSize := totalSize, ptrs := fun _ => 0, lens := fun _ => 0 }
  let ptr ← saveLoop info n (info + 8)
  kernelAssert (u64Sub ptr info = totalSize) "((uptr_t)ptr - ((uptr_t)info->info)) == (info->total_size)"

/-! ## Tags -/

/-- A tag of a blob: where its header starts, its type and its size with the header. -/
structure Tag where
  off : Nat
  type : Nat
  size : Nat

/-- The tag at an offset of the blob at `b`. -/
def tagAt (m : Bytes.Mem) (b off : Nat) : Tag := ⟨off, Bytes.load m (b + off) 4, Bytes.load m (b + off + 4) 4⟩

/-- Where the tag behind it starts. -/
def Tag.next (g : Tag) : Nat := (g.off + g.size + 7) / 8 * 8

/-- The tags of a blob from an offset on, up to the end tag or the end of the blob, and the offset behind them. -/
inductive Tags (m : Bytes.Mem) (b total : Nat) : Nat → List Tag → Nat → Prop
  | done {off : Nat} : total ≤ off → Tags m b total off [] off
  | last {off : Nat} : off < total → (tagAt m b off).type = 0 → Tags m b total off [] (off + 8)
  | tag {off e : Nat} {l : List Tag} : off < total → (tagAt m b off).type ≠ 0 →
      Tags m b total (tagAt m b off).next l e → Tags m b total off (tagAt m b off :: l) e

variable {m m' : Bytes.Mem} {b b' total off e info boot n p : Nat} {l : List Tag} {s s' : BootState} {g : Tag}

/-- Tags read from one blob are those of a copy of it. -/
theorem Tags.congr (h : Tags m b total off l e) (h8 : total % 8 = 0) (hoff : off % 8 = 0)
    (hm : ∀ x < total, m (b + x) = m' (b' + x)) : Tags m' b' total off l e := by
  have hload : ∀ x, x + 4 ≤ total → Bytes.load m (b + x) 4 = Bytes.load m' (b' + x) 4 := by
    intro x hx
    have h0 := hm x (by omega)
    have h1 := hm (x + 1) (by omega)
    have h2 := hm (x + 2) (by omega)
    have h3 := hm (x + 3) (by omega)
    simp only [Bytes.load, Nat.add_assoc] at h0 h1 h2 h3 ⊢
    rw [h0, h1, h2, h3]
  have htag : ∀ o, o % 8 = 0 → o < total → tagAt m b o = tagAt m' b' o := by
    intro o h1 h2
    unfold tagAt
    rw [hload o (by omega), Nat.add_assoc, hload (o + 4) (by omega), Nat.add_assoc]
  induction h with
  | done hle => exact .done hle
  | last hlt hty => exact .last hlt (by rw [← htag _ hoff hlt]; exact hty)
  | @tag off _ _ hlt hty _ ih =>
    have hih := ih (by unfold Tag.next; omega)
    rw [htag off hoff hlt] at hty hih ⊢
    exact .tag hlt hty hih

theorem mmCopy_apply (dest src : Nat) (h : src + n ≤ dest ∨ dest + n ≤ src) (m : Bytes.Mem) (x : Nat) :
    mmCopy dest src n m x = if dest ≤ x ∧ x < dest + n then m (src + (x - dest)) else m x := by
  induction n generalizing x with
  | zero => rw [if_neg (by omega)]; rfl
  | succ n ih =>
    have ih := ih (by omega)
    unfold mmCopy
    by_cases hx : x = dest + n
    · rw [hx, Bytes.put_same, ih, if_neg (by omega), if_pos (by omega), Nat.add_sub_cancel_left]
    · rw [Bytes.put_other hx, ih]
      by_cases hin : dest ≤ x ∧ x < dest + n
      · rw [if_pos hin, if_pos (by omega)]
      · rw [if_neg hin, if_neg (by omega)]

/-! ## Where tags lie -/

theorem Tags.mod (h : Tags m b total off l e) (hoff : off % 8 = 0) : e % 8 = 0 := by
  induction h with
  | done => exact hoff
  | last => omega
  | tag _ _ _ ih => exact ih (by unfold Tag.next; omega)

theorem Tag.le_next (g : Tag) : g.off + g.size ≤ g.next := by
  unfold Tag.next
  omega

theorem Tags.le (h : Tags m b total off l e) : off ≤ e := by
  induction h with
  | done => exact le_rfl
  | last => omega
  | @tag off _ _ _ _ _ ih =>
    have hnext := (tagAt m b off).le_next
    have hoff : (tagAt m b off).off = off := rfl
    omega

theorem Tags.inside (h : Tags m b total off l e) : ∀ g ∈ l, off ≤ g.off ∧ g.off + g.size ≤ e := by
  induction h with
  | done => exact nofun
  | last => exact nofun
  | @tag off _ _ _ _ ht ih =>
    have hnext := (tagAt m b off).le_next
    have hoff : (tagAt m b off).off = off := rfl
    have hle := ht.le
    intro g hg
    rcases List.mem_cons.1 hg with rfl | hg
    · omega
    · have := ih g hg
      omega

theorem Tags.ordered (h : Tags m b total off l e) : l.Pairwise fun g g' => g.off + g.size ≤ g'.off := by
  induction h with
  | done => exact .nil
  | last => exact .nil
  | @tag off _ _ _ _ ht ih =>
    refine .cons (fun g hg => ?_) ih
    exact (tagAt m b off).le_next.trans (ht.inside g hg).1

theorem Tags.apart (h : Tags m b total off l e) {g' : Tag} (hg : g ∈ l) (hg' : g' ∈ l) (hne : g ≠ g') :
    g.off + g.size ≤ g'.off ∨ g'.off + g'.size ≤ g.off := by
  have hsymm : Std.Symm fun g g' : Tag => g.off + g.size ≤ g'.off ∨ g'.off + g'.size ≤ g.off := ⟨fun _ _ h => h.symm⟩
  have hpw : l.Pairwise fun g g' => g.off + g.size ≤ g'.off ∨ g'.off + g'.size ≤ g.off := h.ordered.imp fun h => .inl h
  exact hpw.forall hg hg' hne

/-! ## The loop -/

/-- What the loop kept of the tags it went over. -/
structure Saved (info : Nat) (l : List Tag) (s s' : BootState) : Prop where
  mem : s'.mem = s.mem
  total : s'.totalSize = s.totalSize
  nodup : (l.map Tag.type).Nodup
  null : ∀ g ∈ l, s.ptrs g.type = 0
  saved : ∀ g ∈ l, s'.ptrs g.type = info + g.off + 8 ∧ s'.lens g.type = u32Sub g.size 8
  others : ∀ t, t ∉ l.map Tag.type → s'.ptrs t = s.ptrs t ∧ s'.lens t = s.lens t

theorem Saved.nil (info : Nat) (s : BootState) : Saved info [] s s :=
  ⟨rfl, rfl, List.nodup_nil, nofun, nofun, fun _ _ => ⟨rfl, rfl⟩⟩

/-- The state after a tag was saved. -/
def withTag (info : Nat) (s : BootState) (g : Tag) : BootState :=
  { s with lens := Function.update s.lens g.type (u32Sub g.size 8), ptrs := Function.update s.ptrs g.type (info + g.off + 8) }

theorem Saved.cons (hnull : s.ptrs g.type = 0) (h : Saved info l (withTag info s g) s') : Saved info (g :: l) s s' := by
  have hself : (withTag info s g).ptrs g.type = info + g.off + 8 := Function.update_self ..
  have hnew : g.type ∉ l.map Tag.type := by
    intro hmem
    obtain ⟨g', hg', he⟩ := List.mem_map.1 hmem
    have := h.null g' hg'
    rw [he, hself] at this
    omega
  have hother : ∀ t, t ≠ g.type → (withTag info s g).ptrs t = s.ptrs t ∧ (withTag info s g).lens t = s.lens t := fun t ht =>
    ⟨Function.update_of_ne ht _ _, Function.update_of_ne ht _ _⟩
  refine ⟨h.mem, h.total, List.nodup_cons.2 ⟨hnew, h.nodup⟩, fun g' hg' => ?_, fun g' hg' => ?_, fun t ht => ?_⟩
  · rcases List.mem_cons.1 hg' with rfl | hg'
    · exact hnull
    · rw [← (hother g'.type fun he => hnew (he ▸ List.mem_map_of_mem hg')).1]
      exact h.null g' hg'
  · rcases List.mem_cons.1 hg' with rfl | hg'
    · rw [(h.others _ hnew).1, (h.others _ hnew).2]
      exact ⟨hself, Function.update_self ..⟩
    · exact h.saved g' hg'
  · rw [List.map_cons, List.mem_cons, not_or] at ht
    rw [(h.others t ht.2).1, (h.others t ht.2).2]
    exact hother t ht.1

theorem multiBootInfoSaveTag_ok {ptr type size : Nat} (h : multiBootInfoSaveTag ptr type size s = .ok p s') :
    s.ptrs type = 0 ∧ p = u64Sub (u64 (ptr + size)) 8 ∧
      s' = { s with lens := Function.update s.lens type (u32Sub size 8), ptrs := Function.update s.ptrs type ptr } := by
  unfold multiBootInfoSaveTag at h
  obtain ⟨_, s₁, h1, h⟩ := Exec.bind_eq_ok.1 h
  have hs₁ : s₁ = s := by
    split at h1
    · cases h1; rfl
    · cases h1
  rw [hs₁, Exec.bind_ok (Exec.get_run s)] at h
  obtain ⟨_, s₂, h2, h⟩ := Exec.bind_eq_ok.1 h
  obtain ⟨_, s₃, h3, h⟩ := Exec.bind_eq_ok.1 h
  obtain ⟨_, s₄, h4, h⟩ := Exec.bind_eq_ok.1 h
  obtain ⟨_, s₅, h5, h⟩ := Exec.bind_eq_ok.1 h
  cases h5
  rw [Exec.pure_run] at h
  injection h with hp hs
  exact ⟨(kernelAssert_ok h3).1, hp.symm, hs.symm⟩

theorem multiBootInfoProcessTagHeader_ok {ptr : Nat} {r : Nat × Nat × Nat} (h : multiBootInfoProcessTagHeader ptr s = .ok r s') :
    ptr % 8 = 0 ∧ r = (u64 (ptr + 8), Bytes.load s.mem ptr 4, Bytes.load s.mem (ptr + 4) 4) ∧ s' = s := by
  unfold multiBootInfoProcessTagHeader at h
  obtain ⟨_, s₁, hal, h⟩ := Exec.bind_eq_ok.1 h
  obtain ⟨hmod, hs₁⟩ := kernelAssert_ok hal
  rw [hs₁, Exec.bind_ok (Exec.get_run s), Exec.pure_run] at h
  injection h with hr hs
  exact ⟨hmod, hr.symm, hs.symm⟩

/-- The pointer behind a tag is that of the next one. -/
theorem mmAlignUp_next (hlow : info < 2 ^ 47) (hal : info % 8 = 0) {size : Nat} (hoff : off < 2 ^ 33) (hsize : size < 2 ^ 32)
    (s : BootState) :
    mmAlignUp (u64Sub (u64 (info + off + 8 + size)) 8) 8 s = .ok (info + (off + size + 7) / 8 * 8) s := by
  have hp : u64Sub (u64 (info + off + 8 + size)) 8 = info + off + size := by
    rw [u64_of_lt (by omega), u64Sub_of_le (by omega) (by omega)]
    omega
  have hrun := mmAlignUp_run (p := info + off + size) (k := 3) (by omega) (by omega) s
  rw [show (2 : Nat) ^ 3 = 8 by norm_num] at hrun
  have hnext : (info + off + size + 8 - 1) / 8 * 8 = info + (off + size + 7) / 8 * 8 := by omega
  rw [hp, hrun, hnext]

/-- The loop, when it ends, went over the tags from its offset on. -/
theorem saveLoop_ok (hlow : info ≤ va48LowEnd) : ∀ {n off p : Nat} {s s' : BootState},
    s.totalSize < multiBootInfoCap → off < 2 ^ 33 → off % 8 = 0 → saveLoop info n (info + off) s = .ok p s' →
    ∃ l e, Tags s.mem info s.totalSize off l e ∧ p = info + e ∧ e < 2 ^ 34 ∧ Saved info l s s' := by
  unfold va48LowEnd at hlow
  intro n
  induction n with
  | zero => intro off p s s' _ _ _ h; cases h
  | succ n ih =>
    intro off p s s' hcap hlt h8 h
    have hsub : u64Sub (info + off) info = off := by rw [u64Sub_of_le (by omega) (by omega)]; omega
    rw [saveLoop, Exec.bind_ok (Exec.get_run s), hsub] at h
    split at h
    next hin =>
      obtain ⟨r, s₁, hhead, h⟩ := Exec.bind_eq_ok.1 h
      obtain ⟨hmod, rfl, hs₁⟩ := multiBootInfoProcessTagHeader_ok hhead
      rw [hs₁, u64_of_lt (by omega : info + off + 8 < 2 ^ 64)] at h
      dsimp only at h
      split at h
      next hty =>
        cases h
        exact ⟨[], off + 8, .last hin hty, by omega, by omega, .nil info _⟩
      next hty =>
        obtain ⟨p₁, s₂, hsave, h⟩ := Exec.bind_eq_ok.1 h
        obtain ⟨p₂, s₃, halign, h⟩ := Exec.bind_eq_ok.1 h
        obtain ⟨hnull, hp₁, hs₂⟩ := multiBootInfoSaveTag_ok hsave
        have hsize : Bytes.load s.mem (info + off + 4) 4 < 2 ^ 32 := Bytes.load_lt s.mem (info + off + 4) 4
        rw [hp₁, mmAlignUp_next (by omega) (by omega) hlt hsize] at halign
        cases halign
        have hs₂ : s₂ = withTag info s (tagAt s.mem info off) := hs₂
        rw [hs₂] at h
        have hnext : (off + Bytes.load s.mem (info + off + 4) 4 + 7) / 8 * 8 < 2 ^ 33 := by
          unfold multiBootInfoCap at hcap
          omega
        have hcap' : (withTag info s (tagAt s.mem info off)).totalSize < multiBootInfoCap := hcap
        obtain ⟨l, e, ht, hp, he, hsaved⟩ := ih hcap' hnext (by omega) h
        exact ⟨_, e, .tag hin hty ht, hp, he, .cons hnull hsaved⟩
    next hin =>
      cases h
      exact ⟨[], off, .done (by omega), rfl, by omega, .nil info s⟩

/-! ## The whole blob -/

/-- The pointers kept lie in the blob at `info`, each at the payload of the only tag of its type, and apart from each
other. -/
structure Parsed (info total : Nat) (l : List Tag) (s : BootState) : Prop where
  inside : ∀ t, s.ptrs t ≠ 0 → info + 8 ≤ s.ptrs t ∧ s.ptrs t + s.lens t ≤ info + total
  payload : ∀ t, s.ptrs t ≠ 0 → ∃ g, l.filter (fun g => g.type = t) = [g] ∧ s.ptrs t = info + g.off + 8 ∧ s.lens t + 8 = g.size
  apart : ∀ t t', t ≠ t' → s.ptrs t ≠ 0 → s.ptrs t' ≠ 0 →
    s.ptrs t + s.lens t ≤ s.ptrs t' ∨ s.ptrs t' + s.lens t' ≤ s.ptrs t

theorem filter_type : ∀ {l : List Tag}, (l.map Tag.type).Nodup → g ∈ l → l.filter (fun g' => g'.type = g.type) = [g]
  | g' :: l, hnd, hg => by
    obtain ⟨hnew, hnd⟩ := List.nodup_cons.1 hnd
    rcases List.mem_cons.1 hg with rfl | hg
    · have hnil : l.filter (fun g' => g'.type = g.type) = [] := by
        refine List.filter_eq_nil_iff.2 fun x hx he => hnew ?_
        rw [← of_decide_eq_true he]
        exact List.mem_map_of_mem hx
      rw [List.filter_cons_of_pos (by simp), hnil]
    · have hne : g'.type ≠ g.type := fun he => hnew (he ▸ List.mem_map_of_mem hg)
      rw [List.filter_cons_of_neg (by simpa using hne), filter_type hnd hg]

/-- What is kept of tags that lie in a blob of less than 1M is right if and only if no size is below that of a header. -/
theorem Saved.parsed_iff (h : Saved info l s s') (hz : ∀ t, s.ptrs t = 0) (ht : Tags m b total 8 l e) (he : e = total)
    (hcap : total < multiBootInfoCap) : Parsed info total l s' ↔ ∀ g ∈ l, 8 ≤ g.size := by
  unfold multiBootInfoCap at hcap
  have hmem : ∀ t, s'.ptrs t ≠ 0 → ∃ g ∈ l, g.type = t := by
    intro t hne
    by_contra hnot
    have hout : t ∉ l.map Tag.type := fun hm => hnot (List.mem_map.1 hm)
    rw [(h.others t hout).1, hz t] at hne
    exact hne rfl
  constructor
  · intro hp g hg
    obtain ⟨hptr, hlen⟩ := h.saved g hg
    have hne : s'.ptrs g.type ≠ 0 := by omega
    have hin := (hp.inside _ hne).2
    have hsize := (ht.inside g hg).2
    unfold u32Sub at hlen
    omega
  · intro hsize
    have hlen : ∀ g ∈ l, s'.lens g.type = g.size - 8 := by
      intro g hg
      rw [(h.saved g hg).2]
      have h1 := hsize g hg
      have h2 := (ht.inside g hg).2
      unfold u32Sub
      omega
    refine ⟨fun t hne => ?_, fun t hne => ?_, fun t t' htt hne hne' => ?_⟩
    · obtain ⟨g, hg, rfl⟩ := hmem t hne
      have h1 := hsize g hg
      have h2 := ht.inside g hg
      rw [(h.saved g hg).1, hlen g hg]
      omega
    · obtain ⟨g, hg, rfl⟩ := hmem t hne
      have h1 := hsize g hg
      exact ⟨g, filter_type h.nodup hg, (h.saved g hg).1, by rw [hlen g hg]; omega⟩
    · obtain ⟨g, hg, rfl⟩ := hmem t hne
      obtain ⟨g', hg', rfl⟩ := hmem t' hne'
      have h1 := hsize g hg
      have h2 := hsize g' hg'
      rw [(h.saved g hg).1, (h.saved g' hg').1, hlen g hg, hlen g' hg']
      have hord := ht.apart hg hg' fun he => htt (congrArg Tag.type he)
      omega

/-- When `_multi_boot_info_save` returns, what it kept is right for the tags of the blob if and only if each of them has at
least the size of its header. -/
theorem boot_tags_inside_iff (hlow : info ≤ va48LowEnd)
    (hapart : boot + Bytes.load s.mem boot 4 ≤ info ∨ info + Bytes.load s.mem boot 4 ≤ boot)
    (hrun : multiBootInfoSave info boot n s = .ok () s') :
    ∃ l, Tags s.mem boot (Bytes.load s.mem boot 4) 8 l (Bytes.load s.mem boot 4) ∧
      (Parsed info (Bytes.load s.mem boot 4) l s' ↔ ∀ g ∈ l, 8 ≤ g.size) := by
  unfold multiBootInfoSave at hrun
  rw [Exec.bind_ok (Exec.get_run s)] at hrun
  generalize Bytes.load s.mem boot 4 = total at *
  obtain ⟨_, s₁, h1, hrun⟩ := Exec.bind_eq_ok.1 hrun
  obtain ⟨_, s₂, h2, hrun⟩ := Exec.bind_eq_ok.1 hrun
  obtain ⟨_, s₃, h3, hrun⟩ := Exec.bind_eq_ok.1 hrun
  obtain ⟨p, s₄, hloop, hend⟩ := Exec.bind_eq_ok.1 hrun
  have hcap := (kernelAssert_ok h1).1
  cases h3
  obtain ⟨l, e, ht, hp, he, hsaved⟩ := saveLoop_ok hlow hcap (by norm_num) rfl hloop
  obtain ⟨hend, hs'⟩ := kernelAssert_ok hend
  have he : e = total := by
    unfold va48LowEnd at hlow
    rw [hp, u64Sub_of_le (by omega) (by omega)] at hend
    omega
  subst he
  rw [hs']
  have ht : Tags (mmCopy info boot e s.mem) info e 8 l e := ht
  refine ⟨l, ht.congr (ht.mod rfl) rfl fun x hx => ?_, hsaved.parsed_iff (fun _ => rfl) ht rfl hcap⟩
  rw [mmCopy_apply info boot hapart, if_pos (by omega), Nat.add_sub_cancel_left]

/-- A memory with some bytes at 64K, and nothing saved. -/
def blobState (bytes : List UInt8) : BootState :=
  ⟨fun x => if x < 0x10000 then 0 else bytes.getD (x - 0x10000) 0, 0, fun _ => 0, fun _ => 0⟩

/-- The pointer and the length that `_multi_boot_info_save` keeps for a type, if it returns. -/
def savedTag (bytes : List UInt8) (t : Nat) : Option (Nat × Nat) :=
  match multiBootInfoSave 0x200000 0x10000 3 (blobState bytes) with
  | .ok _ s' => some (s'.ptrs t, s'.lens t)
  | .error _ _ => none

theorem savedTag_eq_some {bytes : List UInt8} {t p len : Nat} (h : savedTag bytes t = some (p, len)) :
    ∃ s', multiBootInfoSave 0x200000 0x10000 3 (blobState bytes) = .ok () s' ∧ s'.ptrs t = p ∧ s'.lens t = len := by
  unfold savedTag at h
  cases hrun : multiBootInfoSave 0x200000 0x10000 3 (blobState bytes) with
  | ok u s' =>
    rw [hrun] at h
    obtain ⟨h1, h2⟩ := Prod.mk.inj (Option.some.inj h)
    exact ⟨s', rfl, h1, h2⟩
  | error err s' =>
    rw [hrun] at h
    cases h

/-- A boot command line of four bytes. -/
def commandLine : List UInt8 :=
  [32, 0, 0, 0, 0, 0, 0, 0, 1, 0, 0, 0, 12, 0, 0, 0, 97, 98, 99, 0, 0, 0, 0, 0, 0, 0, 0, 0, 8, 0, 0, 0]

theorem boot_tags_inside_iff_commandLine : ∃ s' l, multiBootInfoSave 0x200000 0x10000 3 (blobState commandLine) = .ok () s' ∧
    s'.ptrs 1 = 0x200010 ∧ s'.lens 1 = 4 ∧ (Parsed 0x200000 32 l s' ↔ ∀ g ∈ l, 8 ≤ g.size) := by
  obtain ⟨s', hrun, h1, h2⟩ := savedTag_eq_some (show savedTag commandLine 1 = some (0x200010, 4) by decide +kernel)
  obtain ⟨l, -, h3⟩ := boot_tags_inside_iff (by decide) (by decide +kernel) hrun
  exact ⟨s', l, hrun, h1, h2, h3⟩

/-- A tag of size 4. -/
def shortTag : List UInt8 := [24, 0, 0, 0, 0, 0, 0, 0, 1, 0, 0, 0, 4, 0, 0, 0, 0, 0, 0, 0, 8, 0, 0, 0]

/-- The length kept for it is nearly 4G. -/
theorem boot_tag_below_header : ∃ s', multiBootInfoSave 0x200000 0x10000 3 (blobState shortTag) = .ok () s' ∧
    s'.ptrs 1 = 0x200010 ∧ s'.lens 1 = 0xfffffffc ∧ ¬ s'.ptrs 1 + s'.lens 1 ≤ 0x200000 + 24 := by
  obtain ⟨s', hrun, h1, h2⟩ := savedTag_eq_some (show savedTag shortTag 1 = some (0x200010, 0xfffffffc) by decide +kernel)
  refine ⟨s', hrun, h1, h2, ?_⟩
  rw [h1, h2]
  decide

/-! ## How long the loop runs -/

/-- The types a tag can still have: once one was kept, its pointer is not null. -/
def openTypes (s : BootState) : List Nat := multiBootTagTypes.filter fun t => s.ptrs t = 0

theorem multiBootInfoSaveTag_known {ptr type size : Nat} (h : multiBootInfoSaveTag ptr type size s = .ok p s') :
    type ∈ multiBootTagTypes := by
  unfold multiBootInfoSaveTag at h
  obtain ⟨_, s₁, h1, -⟩ := Exec.bind_eq_ok.1 h
  split at h1
  next hin => exact hin
  next => cases h1

/-- A tag that is kept closes its type. -/
theorem openTypes_withTag (hin : g.type ∈ multiBootTagTypes) (hnull : s.ptrs g.type = 0) :
    (openTypes (withTag info s g)).length < (openTypes s).length := by
  have hsub : (openTypes (withTag info s g)).Subperm ((openTypes s).erase g.type) := by
    refine List.Nodup.subperm (List.Nodup.filter _ (by decide)) fun t ht => ?_
    obtain ⟨ht1, ht2⟩ := List.mem_filter.1 ht
    have ht2 := of_decide_eq_true ht2
    have hne : t ≠ g.type := by
      rintro rfl
      have hself : (withTag info s g).ptrs g.type = info + g.off + 8 := Function.update_self ..
      omega
    have hsame : (withTag info s g).ptrs t = s.ptrs t := Function.update_of_ne hne _ _
    exact (List.mem_erase_of_ne hne).2 (List.mem_filter.2 ⟨ht1, decide_eq_true (hsame ▸ ht2)⟩)
  have hmem : g.type ∈ openTypes s := List.mem_filter.2 ⟨hin, decide_eq_true hnull⟩
  have hle := hsub.length_le
  rw [List.length_erase_of_mem hmem] at hle
  have hpos := List.length_pos_of_mem hmem
  omega

/-- The outcome is not that of a loop that was cut off. -/
def Ended {α : Type} (r : EStateM.Result Stop BootState α) : Prop := ∀ s', r ≠ .error .hang s'

/-- A failure stays one when the rest is left out. -/
theorem Ended.error {α β : Type} {r : EStateM.Result Stop BootState α} {err : Stop} (h : Ended r) (hr : r = .error err s) :
    Ended (.error err s : EStateM.Result Stop BootState β) := by
  intro s' he
  rw [(EStateM.Result.error.inj he).1] at hr
  exact h s hr

theorem ended_bind {α β : Type} {x : BootM α} {f : α → BootM β} (hx : Ended (x s)) (hf : ∀ a s₁, x s = .ok a s₁ → Ended (f a s₁)) :
    Ended ((x >>= f) s) := by
  intro s' he
  rw [Exec.bind_run] at he
  cases hr : x s with
  | ok a s₁ =>
    rw [hr] at he
    exact hf a s₁ hr s' he
  | error err s₁ =>
    rw [hr] at he
    cases he
    exact hx _ hr

theorem ended_ok {α : Type} (a : α) (s : BootState) : Ended (EStateM.Result.ok a s) := fun _ he => by cases he

theorem ended_error {α : Type} {err : Stop} (h : err ≠ .hang) (s : BootState) : Ended
    (.error err s : EStateM.Result Stop BootState α) :=
  fun _ he => h (EStateM.Result.error.inj he).1

theorem ended_kernelAssert (c : Prop) [Decidable c] (expr : String) (s : BootState) : Ended (kernelAssert c expr s) := by
  by_cases hc : c
  · rw [kernelAssert_pos hc]
    exact ended_ok () s
  · rw [kernelAssert_neg hc]
    exact ended_error (fun he => Stop.noConfusion he) s

theorem ended_processTagHeader (ptr : Nat) (s : BootState) : Ended (multiBootInfoProcessTagHeader ptr s) := by
  unfold multiBootInfoProcessTagHeader
  refine ended_bind (ended_kernelAssert _ _ _) fun _ s₁ _ => ?_
  rw [Exec.bind_ok (Exec.get_run s₁)]
  exact ended_ok _ s₁

theorem ended_saveTag (ptr type size : Nat) (s : BootState) : Ended (multiBootInfoSaveTag ptr type size s) := by
  unfold multiBootInfoSaveTag
  refine ended_bind ?_ fun _ s₁ _ => ?_
  · split
    · exact ended_ok () s
    · exact ended_error (fun he => Stop.noConfusion he) s
  · rw [Exec.bind_ok (Exec.get_run s₁)]
    refine ended_bind (ended_kernelAssert _ _ _) fun _ _ _ => ended_bind (ended_kernelAssert _ _ _) fun _ _ _ => ?_
    refine ended_bind (ended_kernelAssert _ _ _) fun _ s₂ _ => ?_
    exact ended_ok (u64Sub (u64 (ptr + size)) 8) _

/-- With more rounds than there are types left the loop is not cut off, and more rounds make no difference. -/
theorem saveLoop_ends (hlow : info ≤ va48LowEnd) (k : Nat) : ∀ {n off : Nat} {s : BootState}, s.totalSize < multiBootInfoCap →
    off < 2 ^ 33 → off % 8 = 0 → (openTypes s).length < n →
    saveLoop info (n + k) (info + off) s = saveLoop info n (info + off) s ∧ Ended (saveLoop info n (info + off) s) := by
  unfold va48LowEnd at hlow
  intro n
  induction n with
  | zero =>
    intro off s _ _ _ h
    exact absurd h (Nat.not_lt_zero _)
  | succ n ih =>
    intro off s hcap hlt h8 hopen
    have hsub : u64Sub (info + off) info = off := by rw [u64Sub_of_le (by omega) (by omega)]; omega
    rw [Nat.add_right_comm, saveLoop, saveLoop, Exec.bind_ok (Exec.get_run s), Exec.bind_ok (Exec.get_run s), hsub]
    split
    next hin =>
      cases hhead : multiBootInfoProcessTagHeader (info + off) s with
      | error err s₁ =>
        rw [Exec.bind_error hhead, Exec.bind_error hhead]
        exact ⟨rfl, (ended_processTagHeader (info + off) s).error hhead⟩
      | ok r s₁ =>
        obtain ⟨hmod, rfl, rfl⟩ := multiBootInfoProcessTagHeader_ok hhead
        rw [Exec.bind_ok hhead, Exec.bind_ok hhead, u64_of_lt (by omega : info + off + 8 < 2 ^ 64)]
        dsimp only
        split
        next hty => exact ⟨rfl, ended_ok _ s₁⟩
        next hty =>
          cases hsave : multiBootInfoSaveTag (info + off + 8) (Bytes.load s₁.mem (info + off) 4)
            (Bytes.load s₁.mem (info + off + 4) 4) s₁ with
          | error err s₂ =>
            rw [Exec.bind_error hsave, Exec.bind_error hsave]
            exact ⟨rfl, (ended_saveTag _ _ _ s₁).error hsave⟩
          | ok p s₂ =>
            obtain ⟨hnull, hp, hs₂⟩ := multiBootInfoSaveTag_ok hsave
            have hsize : Bytes.load s₁.mem (info + off + 4) 4 < 2 ^ 32 := Bytes.load_lt s₁.mem (info + off + 4) 4
            have hs₂ : s₂ = withTag info s₁ (tagAt s₁.mem info off) := hs₂
            have hless : (openTypes s₂).length < (openTypes s₁).length := by
              rw [hs₂]
              exact openTypes_withTag (g := tagAt s₁.mem info off) (multiBootInfoSaveTag_known hsave) hnull
            have halign : mmAlignUp p 8 s₂ = .ok (info + (off + Bytes.load s₁.mem (info + off + 4) 4 + 7) / 8 * 8) s₂ := by
              rw [hp]
              exact mmAlignUp_next (by omega) (by omega) hlt hsize s₂
            rw [Exec.bind_ok hsave, Exec.bind_ok hsave, Exec.bind_ok halign, Exec.bind_ok halign]
            have hcap' : s₂.totalSize < multiBootInfoCap := by rw [hs₂]; exact hcap
            exact ih hcap' (by unfold multiBootInfoCap at hcap; omega) (by omega) (by omega)
    next hin => exact ⟨rfl, ended_ok _ s⟩

/-- The state before the loop: the blob is copied and nothing is kept. -/
def copied (info boot : Nat) (s : BootState) : BootState :=
  ⟨mmCopy info boot (Bytes.load s.mem boot 4) s.mem, Bytes.load s.mem boot 4, fun _ => 0, fun _ => 0⟩

/-- A blob of less than 1M whose reserved word is 0 gets to the loop. -/
theorem multiBootInfoSave_run (hcap : Bytes.load s.mem boot 4 < multiBootInfoCap) (hres : Bytes.load s.mem (boot + 4) 4 = 0)
    (info n : Nat) : multiBootInfoSave info boot n s =
      (saveLoop info n (info + 8) >>= fun ptr => kernelAssert (u64Sub ptr info = Bytes.load s.mem boot 4)
        "((uptr_t)ptr - ((uptr_t)info->info)) == (info->total_size)") (copied info boot s) := by
  unfold multiBootInfoSave
  rw [Exec.bind_ok (Exec.get_run s), Exec.bind_ok (kernelAssert_pos hcap _ s), Exec.bind_ok (kernelAssert_pos hres _ s)]
  rfl

/-- Any other blob stops before it. -/
theorem multiBootInfoSave_stop
    (h : ¬ (Bytes.load s.mem boot 4 < multiBootInfoCap ∧ Bytes.load s.mem (boot + 4) 4 = 0)) (info : Nat) :
    ∃ err, err ≠ .hang ∧ ∀ n, multiBootInfoSave info boot n s = .error err s := by
  unfold multiBootInfoSave
  simp only [Exec.bind_ok (Exec.get_run s)]
  by_cases hcap : Bytes.load s.mem boot 4 < multiBootInfoCap
  · have hres : ¬ Bytes.load s.mem (boot + 4) 4 = 0 := fun hres => h ⟨hcap, hres⟩
    refine ⟨.assertFail "reserved == 0", fun he => Stop.noConfusion he, fun n => ?_⟩
    rw [Exec.bind_ok (kernelAssert_pos hcap _ s), Exec.bind_error (kernelAssert_neg hres _ s)]
  · refine ⟨.assertFail "(info->total_size) < MULTI_BOOT_INFO_CAP", fun he => Stop.noConfusion he, fun n => ?_⟩
    rw [Exec.bind_error (kernelAssert_neg hcap _ s)]

/-- Rounds beyond one for each known type change nothing, and the loop ends within them. -/
theorem multiBootInfoSave_ends (hlow : info ≤ va48LowEnd) (boot k : Nat) (s : BootState) :
    multiBootInfoSave info boot (multiBootTagTypes.length + 1 + k) s =
      multiBootInfoSave info boot (multiBootTagTypes.length + 1) s ∧
      Ended (multiBootInfoSave info boot (multiBootTagTypes.length + 1) s) := by
  by_cases h : Bytes.load s.mem boot 4 < multiBootInfoCap ∧ Bytes.load s.mem (boot + 4) 4 = 0
  · have hopen : (openTypes (copied info boot s)).length < multiBootTagTypes.length + 1 :=
      Nat.lt_succ_of_le (List.length_filter_le _ _)
    have hcap : (copied info boot s).totalSize < multiBootInfoCap := h.1
    have hstart : 8 < 2 ^ 33 := by norm_num
    obtain ⟨hsame, hended⟩ := saveLoop_ends hlow k hcap hstart rfl hopen
    rw [multiBootInfoSave_run h.1 h.2 info (multiBootTagTypes.length + 1),
      multiBootInfoSave_run h.1 h.2 info (multiBootTagTypes.length + 1 + k)]
    exact ⟨Exec.bind_congr hsame, ended_bind hended fun ptr s₁ _ => ended_kernelAssert _ _ s₁⟩
  · obtain ⟨err, hne, herr⟩ := multiBootInfoSave_stop h info
    rw [herr, herr]
    exact ⟨rfl, ended_error hne s⟩

/-- For every blob the loop of `_multi_boot_info_save` ends, after at most one round for each type it knows and one more. -/
theorem boot_parsing_ends (hlow : info ≤ va48LowEnd) (boot : Nat) (s : BootState) :
    Ended (multiBootInfoSave info boot (multiBootTagTypes.length + 1) s) ∧
      ∀ n, multiBootTagTypes.length + 1 ≤ n →
        multiBootInfoSave info boot n s = multiBootInfoSave info boot (multiBootTagTypes.length + 1) s := by
  refine ⟨(multiBootInfoSave_ends hlow boot 0 s).2, fun n hn => ?_⟩
  obtain ⟨k, rfl⟩ := Nat.exists_eq_add_of_le hn
  exact (multiBootInfoSave_ends hlow boot k s).1

/-- A tag of size 0, where the walk stands still. -/
def zeroTag : List UInt8 := [24, 0, 0, 0, 0, 0, 0, 0, 1, 0, 0, 0, 0, 0, 0, 0, 0, 0, 0, 0, 8, 0, 0, 0]

theorem boot_parsing_ends_zeroTag : Ended (multiBootInfoSave 0x200000 0x10000 100 (blobState zeroTag)) := by
  have h := boot_parsing_ends (show 0x200000 ≤ va48LowEnd by decide) 0x10000 (blobState zeroTag)
  rw [h.2 100 (by decide)]
  exact h.1

end Boot

end Cing
