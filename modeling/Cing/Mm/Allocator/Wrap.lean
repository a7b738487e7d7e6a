/-
Requests of any 64-bit size and alignment in the debug build. The sums `size + slop` and `size + align` of
`mm_allocate` are taken on 64 bits. As long as the one the call relies on does not wrap, what it returns lies in
the current area, in every run of such requests; a sum of size and padding that wraps to what the current area
has left is served with a region that is not memory of the allocator.
-/
import Cing.Mm.Allocator.Runs
import Cing.Mm.Heap.Size

namespace Cing.Allocator

open Bytes Linked
open Heap (Apart InPayload)

section Wrap

variable {σ : Type} {dbg : Bool} {pg : Paging σ} {s s' : AllState σ} {objs F : List Nat} {regions : Nat → List Region}
  {live carves : List (Nat × Nat)} {areas : Nat → List (Nat × Nat)} {A : Buddy.St} {o size align p : Nat}

/-- The test of `mm_allocate`: the current area has at least the sum of size and padding left, as far as 64 bits show. -/
def HasRoom (m : Mem) (all size align : Nat) : Prop :=
  getList m all ≠ 0 ∧ u64 (needOf m all size align) ≤ areaFreeLen m (getList m all)

/-- The sum the call relies on does not wrap: size and padding in the current area, size and alignment for a new one. -/
def NoWrap (m : Mem) (all size align : Nat) : Prop :=
  (HasRoom m all size align → needOf m all size align < 2 ^ 64) ∧ (¬ HasRoom m all size align → size + align < 2 ^ 64)

/-- The region does not wrap and lies in the block of the current area, of which no more than all is used. -/
def InCurrent (m : Mem) (all p size : Nat) : Prop :=
  p + size < 2 ^ 64 ∧ getBlock m (getList m all) ≤ p ∧
    p + size ≤ getBlock m (getList m all) + getBlockLen m (getList m all) ∧
    getUseLen m (getList m all) ≤ getBlockLen m (getList m all)

/-- What `mm_allocate` of the debug build returns, if it returns, lies in the current area. -/
def RegionSound (pg : Paging σ) (o size align : Nat) (s : AllState σ) : Prop :=
  ∀ p s', mmAllocate true pg o size align s = .ok p s' → InCurrent s'.heap.mem o p size

/-! ## Sums that do not wrap -/

/-- A region in the used part of the first area. -/
theorem Inv.inCurrent (h : Inv dbg s objs regions live carves F areas A) (ho : o ∈ objs) {a : Nat × Nat}
    {t : List (Nat × Nat)} (hareas : areas o = a :: t) (hin : Within s.heap.mem a.1 p size) :
    InCurrent s.heap.mem o p size := by
  have ha : a ∈ areas o := by rw [hareas]; exact List.mem_cons_self ..
  obtain ⟨hlist, -, -⟩ := h.current ho hareas
  have hw := h.books.area ho ha
  have hu := (h.books.use ho ha).1
  obtain ⟨-, -, h3, -, h5, -⟩ := h.heap.payload_spec (h.layout.area_live ho ha)
  unfold Within sizeofArea at hin
  unfold InCurrent
  rw [hlist, hw.block, hw.blockLen]
  unfold sizeofArea
  omega

/-- A new area is had only for a length that fits the largest class of the heap with its headers: if the length of the heap
block wraps, the area is too short. -/
theorem newArea_ok (h : Inv true s objs regions live carves F areas A) (ho : o ∈ objs) {bm a : Nat} (hbm : bm < 2 ^ 64)
    (hroom : Heap.RoomFor true pg (u64 (bm + 40)) s.heap) (hs : allocatorNewArea true pg o bm s = .ok a s') :
    bm + 64 ≤ 2 ^ 27 := by
  obtain ⟨b, hs1, hrun⟩ : ∃ b hs1, Heap.mmHeapAlloc true pg (u64 (bm + 40)) s.heap = .ok b hs1 := by
    unfold allocatorNewArea at hs
    rw [newArea_need] at hs
    obtain ⟨b, t, h1, -⟩ := Exec.bind_eq_ok.1 hs
    obtain ⟨hs1, h2, -⟩ := Exec.zoom_eq_ok.1 h1
    exact ⟨b, hs1, h2⟩
  have hadm := Heap.admissible_of_ok hrun
  obtain ⟨q, hs2, A', hrun', hg, -⟩ := h.heap.alloc true hadm (Heap.growsFor_of_ok hadm hroom hrun)
  rw [hrun] at hrun'
  cases hrun'
  obtain ⟨h1, h2, h3, h4, h5, h6, -⟩ := hg.payload_spec (List.mem_cons_self ..)
  obtain ⟨_, -, -, -, -, -, -, ho64⟩ := h.layout.object_spec h.heap (.inr ho)
  rw [allocatorNewArea_checks hrun h1 h2 h3 h5 (by omega)] at hs
  obtain ⟨_, _, hlen, -⟩ := Exec.bind_eq_ok.1 hs
  have hlen := (kernelAssert_ok hlen).1
  have hfit := hadm.2
  rw [u64_of_lt (by omega)] at hfit
  unfold Heap.sizeofBlock at hfit
  omega

/-- A call that returned without a wrap fits the current area, or is an accepted request. -/
theorem request_of_ok (h : Inv true s objs regions live carves F areas A) (ho : o ∈ objs) (h0 : 0 < align)
    (hw : NoWrap s.heap.mem o size align)
    (hroom : ¬ HasRoom s.heap.mem o size align → Heap.RoomFor true pg (u64 (size + align + 40)) s.heap)
    (hs : mmAllocate true pg o size align s = .ok p s') (hfit : ¬ Fits s.heap.mem o size align) : Request size align := by
  have hno : ¬ HasRoom s.heap.mem o size align := fun hr => hfit ⟨hr.1, by rw [← u64_of_lt (hw.1 hr)]; exact hr.2⟩
  have hsum := hw.2 hno
  have hreq : ∀ {a t t'}, allocatorNewArea true pg o (u64 (size + align)) t = .ok a t' → t = s → Request size align := by
    rintro a t t' hnew rfl
    rw [u64_of_lt hsum] at hnew
    have := newArea_ok h ho hsum (hroom hno) hnew
    unfold Request sizeofArea sizeofPtr Heap.sizeofBlock
    omega
  unfold mmAllocate at hs
  rw [Exec.bind_ok (Exec.get_run s)] at hs
  by_cases hlist : getList s.heap.mem o = 0
  · rw [if_pos hlist] at hs
    obtain ⟨a, t, hnew, -⟩ := Exec.bind_eq_ok.1 hs
    exact hreq hnew rfl
  · rw [if_neg hlist] at hs
    obtain ⟨b, t, hfor, -⟩ := Exec.bind_eq_ok.1 hs
    unfold areaFor areaFreeStart at hfor
    simp only [bind_assoc] at hfor
    have hfor := kernelAssertD_bind (Exec.bind_ok (Exec.get_run s) ▸ hfor)
    rw [pure_bind, Exec.bind_ok (Exec.get_run s)] at hfor
    have hlt : areaFreeLen s.heap.mem (getList s.heap.mem o) < u64 (needOf s.heap.mem o size align) := by
      by_contra hle
      exact hno ⟨hlist, by omega⟩
    unfold needOf at hlt
    rw [if_pos hlt] at hfor
    obtain ⟨a, t, hnew, -⟩ := Exec.bind_eq_ok.1 hfor
    exact hreq hnew rfl

theorem NoWrap.hasRoom (hw : NoWrap s.heap.mem o size align) (hr : HasRoom s.heap.mem o size align) :
    Fits s.heap.mem o size align := ⟨hr.1, by rw [← u64_of_lt (hw.1 hr)]; exact hr.2⟩

/-- A call that returned without a wrap keeps the invariant and returned a region of the current area. -/
theorem Inv.allocate_noWrap (h : Inv true s objs regions live carves F areas A) (ho : o ∈ objs) (h0 : 0 < align)
    (hw : NoWrap s.heap.mem o size align)
    (hroom : ¬ HasRoom s.heap.mem o size align → Heap.RoomFor true pg (u64 (size + align + 40)) s.heap)
    (hs : mmAllocate true pg o size align s = .ok p s') :
    (∃ live areas A, Inv true s' objs (Function.update regions o (⟨p, size, align⟩ :: regions o)) live carves F areas A) ∧
      InCurrent s'.heap.mem o p size := by
  have hreq := request_of_ok h ho h0 hw hroom hs
  have hgrow : ¬ Fits s.heap.mem o size align → Heap.GrowsFor pg (size + align + 40) s.heap := by
    intro hfit
    have hr := hroom fun hr => hfit (hw.hasRoom hr)
    have hlen := (hreq hfit).bounds.2
    rw [u64_of_lt (by omega)] at hr
    exact growsFor_allocate h ho (hreq hfit) hfit hr hs
  have hfill : ¬ Fills s.heap.mem o size align := by
    intro hfill
    obtain ⟨t, ht⟩ := mmAllocate_fills pg h ho h0 hfill
    rw [hs] at ht
    cases ht
  obtain ⟨p', t, new, A', hs', h', a, l, ha, hin⟩ := mmAllocate_run h ho h0 hreq hgrow fun _ => hfill
  rw [hs] at hs'
  cases hs'
  exact ⟨⟨_, _, A', h'⟩, h'.inCurrent ho (by rw [Function.update_self]; exact ha) hin⟩

/-! ## Every run without a wrap -/

/-- The states of the debug build reached by calls whose sums do not wrap, with the live allocators and their regions. -/
inductive Unwrapped (pg : Paging σ) : AllState σ → List Nat → (Nat → List Region) → Prop
  | boot {s s' : AllState σ} :
      (onHeap Heap.mmHeapBootstrap >>= fun _ => mmAllocatorBootstrap) s = .ok () s' → Unwrapped pg s' [] fun _ => []
  | new {s s' : AllState σ} {objs : List Nat} {regions : Nat → List Region} {o : Nat} : Unwrapped pg s objs regions →
      (s.freeAlls = 0 → Heap.RoomFor true pg 1 s.heap) → mmAllocatorNew true pg s = .ok o s' →
      Unwrapped pg s' (o :: objs) (Function.update regions o [])
  | allocate {s s' : AllState σ} {objs : List Nat} {regions : Nat → List Region} {o size align p : Nat} :
      Unwrapped pg s objs regions → o ∈ objs → 1 ≤ align → NoWrap s.heap.mem o size align →
      (¬ HasRoom s.heap.mem o size align → Heap.RoomFor true pg (u64 (size + align + 40)) s.heap) →
      mmAllocate true pg o size align s = .ok p s' →
      Unwrapped pg s' objs (Function.update regions o (⟨p, size, align⟩ :: regions o))
  | free {s s' : AllState σ} {objs : List Nat} {regions : Nat → List Region} {o : Nat} : Unwrapped pg s objs regions →
      o ∈ objs → mmAllocatorFree true o s = .ok () s' → Unwrapped pg s' (objs.erase o) regions
  | write {s : AllState σ} {objs : List Nat} {regions : Nat → List Region} {x : Nat} {v : UInt8} :
      Unwrapped pg s objs regions → InRegion objs regions x →
      Unwrapped pg { s with heap := { s.heap with mem := put s.heap.mem x v } } objs regions

theorem Unwrapped.inv (h : Unwrapped pg s objs regions) : ∃ live carves F areas A,
    Inv true s objs regions live carves F areas A := by
  induction h with
  | boot hs => exact ⟨[], [], [], fun _ => [], _, inv_boot hs⟩
  | new _ hroom hs ih =>
    obtain ⟨live, carves, F, areas, A, h⟩ := ih
    obtain ⟨o', t, live', carves', F', A', hs', h', -⟩ := mmAllocatorNew_run h fun hnull => growsFor_new hnull (hroom hnull) hs
    rw [hs] at hs'
    cases hs'
    exact ⟨live', carves', F', _, A', h'⟩
  | allocate _ ho h0 hw hroom hs ih =>
    obtain ⟨live, carves, F, areas, A, h⟩ := ih
    obtain ⟨⟨live', areas', A', h'⟩, -⟩ := h.allocate_noWrap ho h0 hw hroom hs
    exact ⟨live', carves, F, areas', A', h'⟩
  | free _ ho hs ih =>
    obtain ⟨live, carves, F, areas, A, h⟩ := ih
    obtain ⟨t, live', A', hs', h', -⟩ := mmAllocatorFree_run h ho
    rw [hs] at hs'
    cases hs'
    exact ⟨live', carves, _, areas, A', h'⟩
  | write _ hx ih =>
    obtain ⟨live, carves, F, areas, A, h⟩ := ih
    exact ⟨live, carves, F, areas, A, h.write (sameOff_put hx)⟩

/-- Accepted requests are far from a wrap. -/
theorem Request.noWrap (h : Request size align) (m : Mem) (o : Nat) : NoWrap m o size align := by
  obtain ⟨h0, hlen⟩ := h.bounds
  refine ⟨fun _ => ?_, fun _ => by omega⟩
  have := (slopOf_spec (u64 (getBlock m (getList m o) + getUseLen m (getList m o))) h0).1
  unfold needOf
  omega

theorem Reach.unwrapped {u : Users} (h : Reach true pg s u) : Unwrapped pg s u.objs u.regions := by
  induction h with
  | boot hs => exact .boot hs
  | new _ hroom hs ih => exact .new ih hroom hs
  | @allocate s s' u o size align p _ ho hreq hroom hs ih =>
    refine .allocate ih ho hreq.1 (hreq.noWrap _ _) (fun hno => ?_) hs
    have hlen := hreq.bounds.2
    rw [u64_of_lt (by omega)]
    refine hroom fun hfit => hno ⟨hfit.1, le_trans ?_ hfit.2⟩
    exact Nat.mod_le ..
  | free _ ho hs ih => exact .free ih ho hs
  | write _ hx ih => exact .write ih hx

/-! ## A sum that wraps -/

/-- The padding of a start address that wraps keeps the alignment only if it ends at 0. -/
theorem slopOf_wraps {start : Nat} (h0 : 0 < align) (h64 : align < 2 ^ 64) (hs : start < 2 ^ 64)
    (hwrap : 2 ^ 64 ≤ start + slopOf start align) (hal : align ∣ u64 (start + slopOf start align)) :
    u64 (start + slopOf start align) = 0 := by
  have hlt := (slopOf_spec start h0).1
  have hu : u64 (start + slopOf start align) = start + slopOf start align - 2 ^ 64 := by
    unfold u64
    omega
  rw [hu] at hal ⊢
  exact Nat.eq_zero_of_dvd_of_lt hal (by omega)

/-- A request is served from the current area if the sum, as far as 64 bits show, is less than what the area has left and the padded
start, wrapped or not, is aligned. -/
theorem mmAllocate_passes (pg : Paging σ) (h : Inv true s objs regions live carves F areas A) (ho : o ∈ objs) {a : Nat × Nat}
    {t : List (Nat × Nat)} (hareas : areas o = a :: t)
    (hlt : u64 (size + slopOf (freeStart s.heap.mem a) align) < areaFreeLen s.heap.mem a.1)
    (hal : align ∣ u64 (freeStart s.heap.mem a + slopOf (freeStart s.heap.mem a) align)) :
    mmAllocate true pg o size align s = .ok (u64 (freeStart s.heap.mem a + slopOf (freeStart s.heap.mem a) align))
      (withUse s a.1 (getUseLen s.heap.mem a.1 + u64 (size + slopOf (freeStart s.heap.mem a) align))) := by
  have ha : a ∈ areas o := by rw [hareas]; exact List.mem_cons_self ..
  obtain ⟨hlist, hnull, -⟩ := h.current ho hareas
  obtain ⟨h1, h2, h3, h4, h5, h6, -⟩ := h.heap.payload_spec (h.layout.area_live ho ha)
  obtain ⟨hfree, hstart⟩ := h.free_spec ho ha
  have hw := h.books.area ho ha
  set need := u64 (size + slopOf (freeStart s.heap.mem a) align) with hneed
  set use := getUseLen s.heap.mem a.1 with hus
  have huse : getUseLen (store s.heap.mem (a.1 + 16) 8 (use + need)) a.1 = use + need := by
    show word _ (a.1 + 16) = _
    rw [word_poke (by omega) (by omega) (by omega), if_pos rfl]
  have hblen : getBlockLen (store s.heap.mem (a.1 + 16) 8 (use + need)) a.1 = a.2 - 40 := by
    show word _ (a.1 + 8) = _
    rw [word_poke (by omega) (by omega) (by omega), if_neg (by omega)]
    exact hw.blockLen
  have hfor : areaFor true pg o a.1 size align s = .ok a.1 s := by
    unfold areaFor
    rw [Exec.bind_ok hstart, Exec.bind_ok (Exec.get_run s), ← hneed, if_neg (by omega)]
    rfl
  unfold mmAllocate
  rw [Exec.bind_ok (Exec.get_run s), if_neg (by rw [hlist]; exact hnull), hlist, Exec.bind_ok hfor]
  unfold cutRegion
  rw [Exec.bind_ok hstart]
  simp only [← hneed]
  rw [Exec.bind_ok (Exec.get_run s), Exec.bind_ok (kernelAssertD_pos (by exact hlt.le) true _ s), ← hus,
    u64_of_lt (n := use + need) (by omega), Exec.bind_ok (poke_run _ _ _), Exec.bind_ok (Exec.get_run _),
    Exec.bind_ok (kernelAssertD_pos (by simp only; rw [huse, hblen]; omega) true _ _),
    Exec.bind_ok (kernelAssertD_pos (by unfold mmAlignCheck; simpa using Nat.mod_eq_zero_of_dvd hal) true _ _)]
  rfl

/-- The start of a region in the current area, padded on 64 bits. -/
def paddedStart (m : Mem) (all align : Nat) : Nat :=
  let start := u64 (getBlock m (getList m all) + getUseLen m (getList m all))
  u64 (start + slopOf start align)

/-- Among the requests that pass all checks on the current area, only those that do not wrap get a region of it. -/
theorem noWrap_of_sound (h : Inv true s objs regions live carves F areas A) (ho : o ∈ objs) (h0 : 1 ≤ align) (h64 : align < 2 ^ 64)
    (hlist : getList s.heap.mem o ≠ 0)
    (hlt : u64 (needOf s.heap.mem o size align) < areaFreeLen s.heap.mem (getList s.heap.mem o))
    (hal : align ∣ paddedStart s.heap.mem o align) (hsnd : RegionSound pg o size align s) : NoWrap s.heap.mem o size align := by
  have hr : HasRoom s.heap.mem o size align := ⟨hlist, hlt.le⟩
  refine ⟨fun _ => ?_, fun hno => absurd hr hno⟩
  obtain ⟨a, t, hareas⟩ := h.exists_current ho hlist
  have ha : a ∈ areas o := by rw [hareas]; exact List.mem_cons_self ..
  obtain ⟨hlist', -, hneed⟩ := h.current ho hareas
  obtain ⟨-, -, h3, -, h5, -⟩ := h.heap.payload_spec (h.layout.area_live ho ha)
  have hu := (h.books.use ho ha).1
  have hfs : freeStart s.heap.mem a = a.1 + sizeofArea + getUseLen s.heap.mem a.1 := rfl
  have hstart : u64 (getBlock s.heap.mem (getList s.heap.mem o) + getUseLen s.heap.mem (getList s.heap.mem o)) =
      freeStart s.heap.mem a := by
    rw [hlist', (h.books.area ho ha).block, hfs, u64_of_lt (by unfold sizeofArea; omega)]
  unfold paddedStart at hal
  simp only [hstart] at hal
  rw [hneed] at hlt ⊢
  rw [hlist'] at hlt
  by_contra hwrap
  obtain ⟨hend, hlo, -⟩ := hsnd _ _ (mmAllocate_passes pg h ho hareas hlt hal)
  by_cases hpad : freeStart s.heap.mem a + slopOf (freeStart s.heap.mem a) align < 2 ^ 64
  · rw [u64_of_lt hpad] at hend
    omega
  · -- the region starts at 0, below the area
    have hfree := (h.free_spec ho ha).1
    have hcut := h.cut ho ha (r := ⟨freeStart s.heap.mem a, u64 (size + slopOf (freeStart s.heap.mem a) align), 1⟩)
      (v := getUseLen s.heap.mem a.1 + u64 (size + slopOf (freeStart s.heap.mem a) align)) (one_dvd _) le_rfl
      (by simp only; omega) ⟨by omega, fun _ => by omega⟩
    rw [(hcut.current ho hareas).1, (hcut.books.area ho ha).block,
      slopOf_wraps h0 h64 (by unfold sizeofArea at hfs; omega) (by omega) hal] at hlo
    unfold sizeofArea at hlo
    omega

/-- In every run of the debug build whose calls do not wrap, a call that does not wrap either stops or returns a region of the
current area; of the requests that pass all checks on the current area, no other does. -/
theorem region_sound_of_noWrap (h : Unwrapped pg s objs regions) (ho : o ∈ objs) (h0 : 1 ≤ align) (h64 : align < 2 ^ 64)
    (hroom : ¬ HasRoom s.heap.mem o size align → Heap.RoomFor true pg (u64 (size + align + 40)) s.heap) :
    (NoWrap s.heap.mem o size align → RegionSound pg o size align s) ∧
    (getList s.heap.mem o ≠ 0 → u64 (needOf s.heap.mem o size align) < areaFreeLen s.heap.mem (getList s.heap.mem o) →
      align ∣ paddedStart s.heap.mem o align → (RegionSound pg o size align s ↔ NoWrap s.heap.mem o size align)) := by
  obtain ⟨live, carves, F, areas, A, h⟩ := h.inv
  have hsound : NoWrap s.heap.mem o size align → RegionSound pg o size align s := fun hw p s' hs =>
    (h.allocate_noWrap ho h0 hw hroom hs).2
  exact ⟨hsound, fun hlist hlt hal => ⟨noWrap_of_sound h ho h0 h64 hlist hlt hal, hsound⟩⟩

theorem region_sound_of_noWrap_second_request :
    ∃ s o p s', ∃ u : Users, Unwrapped Heap.countingPaging s u.objs u.regions ∧ o ∈ u.objs ∧
    NoWrap s.heap.mem o 100 8 ∧ mmAllocate true Heap.countingPaging o 100 8 s = .ok p s' ∧ InCurrent s'.heap.mem o p 100 := by
  obtain ⟨s, o, -, p, s', u, h, ho, -, hfits, hrun, -⟩ := exists_second_request
  have hw : NoWrap s.heap.mem o 100 8 := Request.noWrap (by unfold Request sizeofArea sizeofPtr Heap.sizeofBlock; omega) _ _
  have hr : HasRoom s.heap.mem o 100 8 := ⟨hfits.1, le_trans (Nat.mod_le ..) hfits.2⟩
  have hsound : RegionSound Heap.countingPaging o 100 8 s :=
    (region_sound_of_noWrap h.unwrapped ho (by norm_num) (by norm_num) fun hno => absurd hr hno).1 hw
  exact ⟨s, o, p, s', u, h.unwrapped, ho, hw, hrun, hsound p s' hrun⟩

/-- The current area of an allocator after a first request of one byte starts its free part at an odd address. -/
theorem first_request_odd {u : Users} (h : Reach true pg s u) (ho : o ∈ u.objs) (hfill : Fills s.heap.mem o 4031 1) :
    needOf s.heap.mem o (2 ^ 64 - 1) 2 = 2 ^ 64 ∧ areaFreeLen s.heap.mem (getList s.heap.mem o) = 4031 ∧
      2 ∣ paddedStart s.heap.mem o 2 := by
  obtain ⟨live, carves, F, areas, A, h, -⟩ := h.inv
  obtain ⟨hlist, hfill⟩ := hfill
  obtain ⟨a, t, hareas⟩ := h.exists_current ho hlist
  have ha : a ∈ areas o := by rw [hareas]; exact List.mem_cons_self ..
  obtain ⟨hlist', -, hneed⟩ := h.current ho hareas
  obtain ⟨h1, h2, h3, -, h5, -⟩ := h.heap.payload_spec (h.layout.area_live ho ha)
  have hfree := (h.free_spec ho ha).1
  have hu := (h.books.use ho ha).1
  have hfs : freeStart s.heap.mem a = a.1 + 32 + getUseLen s.heap.mem a.1 := rfl
  have hone : ∀ x, slopOf x 1 = 0 := fun x => by unfold slopOf; rw [Nat.mod_one, if_neg (lt_irrefl 0)]
  rw [hneed, hlist', hone] at hfill
  have hodd : freeStart s.heap.mem a % 2 = 1 := by omega
  have hslop : slopOf (freeStart s.heap.mem a) 2 = 1 := by unfold slopOf; rw [hodd]; rfl
  refine ⟨by rw [hneed, hslop]; norm_num, by rw [hlist', ← hfill], ?_⟩
  unfold paddedStart
  rw [hlist', (h.books.area ho ha).block]
  unfold sizeofArea
  rw [u64_of_lt (n := a.1 + 32 + getUseLen s.heap.mem a.1) (by omega), ← hfs]
  simp only [hslop]
  rw [u64_of_lt (by omega)]
  omega

/-- After a first request of one byte, one of 2^64 - 1 bytes at an even address is served from the current area. -/
theorem region_wraps : ∃ s o p s', ∃ u : Users, Reach true Heap.countingPaging s u ∧ o ∈ u.objs ∧
    mmAllocate true Heap.countingPaging o (2 ^ 64 - 1) 2 s = .ok p s' ∧ ¬ InCurrent s'.heap.mem o p (2 ^ 64 - 1) := by
  obtain ⟨-, o, s₁, p, s₂, -, -, -, h, hfill, -⟩ := exists_first_request
  have ho : o ∈ ((Users.start.new o).allocate o ⟨p, 1, 1⟩ (Arose true s₁ s₂)).objs := List.mem_cons_self ..
  obtain ⟨hneed, hfree, hal⟩ := first_request_odd h ho hfill
  obtain ⟨live, carves, F, areas, A, hinv, -⟩ := h.inv
  have hnot : ¬ RegionSound Heap.countingPaging o (2 ^ 64 - 1) 2 s₂ := by
    intro hsnd
    have hzero : u64 (needOf s₂.heap.mem o (2 ^ 64 - 1) 2) = 0 := by rw [hneed]; rfl
    have hw := noWrap_of_sound hinv ho (by norm_num) (by norm_num) hfill.1 (by rw [hzero, hfree]; norm_num) hal hsnd
    have := hw.1 ⟨hfill.1, by rw [hzero]; exact Nat.zero_le _⟩
    omega
  unfold RegionSound at hnot
  simp only [not_forall] at hnot
  obtain ⟨q, s', hs', hq⟩ := hnot
  exact ⟨s₂, o, q, s', _, h, ho, hs', hq⟩

end Wrap

end Cing.Allocator
