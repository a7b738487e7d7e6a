/-
Runs of the arena allocators: from the bootstrap of heap and allocators, any sequence of
`mm_allocator_new`, `mm_allocate` of accepted requests, `mm_allocator_free` of live allocators, and
writes of the users inside their regions. The steps are the calls that returned; what they returned is
recorded in `Users`.
-/
import Cing.Mm.Allocator.Lifecycle

namespace Cing.Allocator

open Bytes Linked
open Heap (Apart InPayload)

/-! ## What the users hold -/

/-- The live allocators, the regions each has handed out, and the heap blocks that came to life during
requests to each of them. -/
structure Users where
  objs : List Nat
  regions : Nat → List Region
  got : Nat → Nat → Prop

namespace Users

def start : Users := ⟨[], fun _ => [], fun _ _ => False⟩

def new (u : Users) (o : Nat) : Users :=
  ⟨o :: u.objs, Function.update u.regions o [], Function.update u.got o fun _ => False⟩

def allocate (u : Users) (o : Nat) (r : Region) (blocks : Nat → Prop) : Users :=
  ⟨u.objs, Function.update u.regions o (r :: u.regions o), Function.update u.got o fun b => u.got o b ∨ blocks b⟩

def free (u : Users) (o : Nat) : Users := { u with objs := u.objs.erase o }

end Users

section Reach

variable {σ : Type} (dbg : Bool) (pg : Paging σ)

/-- The heap blocks that are live in `s'` but not in `s`. -/
def Arose (s s' : AllState σ) (b : Nat) : Prop :=
  Heap.IsLiveBlock dbg s'.heap b ∧ ¬ Heap.IsLiveBlock dbg s.heap b

/-- The states reached without a panic, with what the users hold. -/
inductive Reach : AllState σ → Users → Prop
  | boot {s s' : AllState σ} :
      (onHeap Heap.mmHeapBootstrap >>= fun _ => mmAllocatorBootstrap) s = .ok () s' → Reach s' .start
  | new {s s' : AllState σ} {u : Users} {o : Nat} : Reach s u → (s.freeAlls = 0 → Heap.RoomFor dbg pg 1 s.heap) →
      mmAllocatorNew dbg pg s = .ok o s' → Reach s' (u.new o)
  | allocate {s s' : AllState σ} {u : Users} {o size align p : Nat} : Reach s u → o ∈ u.objs → Request size align →
      (¬ Fits s.heap.mem o size align → Heap.RoomFor dbg pg (size + align + 40) s.heap) →
      mmAllocate dbg pg o size align s = .ok p s' → Reach s' (u.allocate o ⟨p, size, align⟩ (Arose dbg s s'))
  | free {s s' : AllState σ} {u : Users} {o : Nat} : Reach s u → o ∈ u.objs → mmAllocatorFree dbg o s = .ok () s' →
      Reach s' (u.free o)
  | write {s : AllState σ} {u : Users} {x : Nat} {v : UInt8} : Reach s u → InRegion u.objs u.regions x →
      Reach { s with heap := { s.heap with mem := put s.heap.mem x v } } u

variable {dbg pg} {s : AllState σ} {u : Users} {objs F : List Nat} {regions : Nat → List Region}
  {live carves : List (Nat × Nat)} {areas : Nat → List (Nat × Nat)} {A : Buddy.St}

/-! ## Every step keeps the invariant -/

/-- A region lies in its area, between the header and the guard. -/
theorem Inv.region_in (h : Inv dbg s objs regions live carves F areas A) {o : Nat} {r : Region} (ho : o ∈ objs)
    (hr : r ∈ regions o) : ∃ a ∈ areas o, a.1 + 32 ≤ r.ptr ∧ r.ptr + r.size + 8 ≤ a.1 + a.2 := by
  obtain ⟨-, a, ha, h1, h2⟩ := h.books.region ho hr
  have h3 := (h.books.use ho ha).1
  have h4 := h.heap.payload_spec (h.layout.area_live ho ha)
  unfold sizeofArea at h1 h2
  exact ⟨a, ha, h1, by omega⟩

/-- Writes inside regions keep the invariant. -/
theorem Inv.write (h : Inv dbg s objs regions live carves F areas A) {m : Mem}
    (hm : SameOff (InRegion objs regions) s.heap.mem m) :
    Inv dbg { s with heap := { s.heap with mem := m } } objs regions live carves F areas A := by
  -- a word no region meets keeps its value
  have hword : ∀ w, (∀ o ∈ objs, ∀ r ∈ regions o, Apart (w, 8) (r.ptr, r.size)) → word m w = word s.heap.mem w := by
    intro w hw
    refine load_congr fun x h1 h2 => hm x ?_
    rintro ⟨o, ho, r, hr, h3, h4⟩
    have := hw o ho r hr
    unfold Heap.Apart at this
    simp only at this
    omega
  have hobj : ∀ {o'}, o' ∈ F ∨ o' ∈ objs → ∀ w, w = o' ∨ w = o' + 8 → word m w = word s.heap.mem w := by
    intro o' ho' w hw
    refine hword w fun o ho r hr => ?_
    obtain ⟨a, ha, h1, h2⟩ := h.region_in ho hr
    have := h.layout.object_area_apart h.heap ho' ho ha
    unfold Heap.Apart at *
    simp only at *
    omega
  refine ⟨h.heap.write (hm.mono ?_), h.layout, h.books.congr (fun o' ho' => hobj (.inl ho') _ (.inr rfl))
    (fun o' ho' => hobj (.inr ho') _ (.inl rfl)) fun o' ho' b hb w hw => hword w fun o ho r hr => ?_⟩
  · rintro x ⟨o, ho, r, hr, h1, h2⟩
    obtain ⟨a, ha, h3, h4⟩ := h.region_in ho hr
    exact ⟨a, h.layout.area_live ho ha, by omega, by omega⟩
  · obtain ⟨a, ha, h1, h2⟩ := h.region_in ho hr
    have h3 := h.heap.payload_spec (h.layout.area_live ho' hb)
    unfold AreaWord at hw
    unfold Heap.Apart
    simp only
    by_cases e : b = a
    · subst e; omega
    · have := h.heap.apart_of_ne (h.layout.area_live ho' hb) (h.layout.area_live ho ha) e
      unfold Heap.Apart at this
      omega

/-- A call of `mm_allocator_new` that returned had the pages it needed. -/
theorem growsFor_new {s' : AllState σ} {o : Nat} (hnull : s.freeAlls = 0) (hroom : Heap.RoomFor dbg pg 1 s.heap)
    (hs : mmAllocatorNew dbg pg s = .ok o s') : Heap.GrowsFor pg 1 s.heap := by
  unfold mmAllocatorNew at hs
  rw [Exec.bind_ok (Exec.get_run s), if_pos hnull] at hs
  obtain ⟨a, t, h1, -⟩ := Exec.bind_eq_ok.1 hs
  obtain ⟨hs1, h2, -⟩ := Exec.zoom_eq_ok.1 h1
  exact Heap.growsFor_of_ok ⟨by omega, by unfold Heap.sizeofBlock; omega⟩ hroom h2

theorem growsFor_newArea {s' : AllState σ} {o bm a : Nat} (hlen : bm + 64 ≤ 2 ^ 27)
    (hroom : Heap.RoomFor dbg pg (bm + 40) s.heap) (hs : allocatorNewArea dbg pg o bm s = .ok a s') :
    Heap.GrowsFor pg (bm + 40) s.heap := by
  have hneed : u64 (u64 (bm + sizeofArea) + sizeofPtr) = bm + 40 := by
    unfold sizeofArea sizeofPtr
    rw [u64_of_lt (n := bm + 32) (by omega), u64_of_lt (by omega)]
  unfold allocatorNewArea at hs
  rw [hneed] at hs
  obtain ⟨a, t, h1, -⟩ := Exec.bind_eq_ok.1 hs
  obtain ⟨hs1, h2, -⟩ := Exec.zoom_eq_ok.1 h1
  exact Heap.growsFor_of_ok ⟨by omega, by unfold Heap.sizeofBlock; omega⟩ hroom h2

/-- A call of `mm_allocate` that returned and needed a new area had the pages for it. -/
theorem growsFor_allocate (h : Inv dbg s objs regions live carves F areas A) {o size align p : Nat} {s' : AllState σ}
    (ho : o ∈ objs) (hreq : Request size align) (hfit : ¬ Fits s.heap.mem o size align)
    (hroom : Heap.RoomFor dbg pg (size + align + 40) s.heap) (hs : mmAllocate dbg pg o size align s = .ok p s') :
    Heap.GrowsFor pg (size + align + 40) s.heap := by
  obtain ⟨h0, hlen⟩ := hreq.bounds
  unfold mmAllocate at hs
  rw [Exec.bind_ok (Exec.get_run s)] at hs
  cases hareas : areas o with
  | nil =>
    have hlist := h.list_of_nil ho hareas
    rw [if_pos hlist, u64_of_lt (by omega)] at hs
    obtain ⟨a, t, h1, -⟩ := Exec.bind_eq_ok.1 hs
    exact growsFor_newArea (by omega) hroom h1
  | cons a t =>
    have ha : a ∈ areas o := by rw [hareas]; exact List.mem_cons_self ..
    obtain ⟨hlist, hnull, hneed⟩ := h.current ho hareas
    have hslop := (slopOf_spec (freeStart s.heap.mem a) h0).1
    have hfit' : ¬ size + slopOf (freeStart s.heap.mem a) align ≤ areaFreeLen s.heap.mem a.1 := fun hf =>
      hfit ⟨by rw [hlist]; exact hnull, by rw [hneed, hlist]; exact hf⟩
    rw [if_neg (by rw [hlist]; exact hnull), hlist] at hs
    obtain ⟨b, t1, h1, -⟩ := Exec.bind_eq_ok.1 hs
    unfold areaFor at h1
    rw [Exec.bind_ok (h.free_spec ho ha).2, Exec.bind_ok (Exec.get_run s), u64_of_lt (by omega), if_pos (by omega),
      u64_of_lt (by omega)] at h1
    obtain ⟨b', t2, h2, -⟩ := Exec.bind_eq_ok.1 h1
    exact growsFor_newArea (by omega) hroom h2

theorem inv_boot {s s' : AllState σ}
    (hs : (onHeap Heap.mmHeapBootstrap >>= fun _ => mmAllocatorBootstrap) s = .ok () s') :
    Inv dbg s' [] (fun _ => []) [] [] [] (fun _ => []) Buddy.empty := by
  obtain ⟨_, s1, h1, h2⟩ := Exec.bind_eq_ok.1 hs
  obtain ⟨hs1, h3, rfl⟩ := Exec.zoom_eq_ok.1 h1
  unfold mmAllocatorBootstrap at h2
  rw [Exec.modify_run] at h2
  cases h2
  refine ⟨Heap.good_boot h3, ⟨by simp, nofun, by simp, by simp, nofun, nofun, nofun⟩, ⟨rfl, nofun, nofun, nofun, nofun, nofun⟩⟩

/-- The blocks an allocator got are areas of it. -/
def Owns (u : Users) (areas : Nat → List (Nat × Nat)) : Prop :=
  ∀ o ∈ u.objs, ∀ b, u.got o b → ∃ a ∈ areas o, a.1 = b + Heap.sizeofBlock

theorem Reach.inv (h : Reach dbg pg s u) : ∃ live carves F areas A,
    Inv dbg s u.objs u.regions live carves F areas A ∧ Owns u areas := by
  induction h with
  | boot hs => exact ⟨[], [], [], fun _ => [], _, inv_boot hs, nofun⟩
  | @new s s' u o _ hroom hs ih =>
    obtain ⟨live, carves, F, areas, A, h, hown⟩ := ih
    obtain ⟨o', t, live', carves', F', A', hs', h', -⟩ := mmAllocatorNew_run h fun hnull => growsFor_new hnull (hroom hnull) hs
    rw [hs] at hs'
    cases hs'
    refine ⟨live', carves', F', _, A', h', fun x hx b hb => ?_⟩
    unfold Users.new at hx hb
    simp only at hx hb
    by_cases e : x = o
    · subst e
      rw [Function.update_self] at hb
      exact hb.elim
    · rw [Function.update_of_ne e] at hb ⊢
      exact hown x ((List.mem_cons.1 hx).resolve_left e) b hb
  | @allocate s s' u o size align p _ ho hreq hroom hs ih =>
    obtain ⟨live, carves, F, areas, A, h, hown⟩ := ih
    obtain ⟨p', t, new, A', hs', h', -⟩ := mmAllocate_run h ho hreq.1 (fun _ => hreq)
      (fun hf => growsFor_allocate h ho hreq hf (hroom hf) hs) fun hd hfill => by
        subst hd
        obtain ⟨t, ht⟩ := mmAllocate_fills _ h ho hreq.1 hfill
        rw [ht] at hs
        cases hs
    rw [hs] at hs'
    cases hs'
    refine ⟨new ++ live, carves, F, _, A', h', fun x hx b hb => ?_⟩
    unfold Users.allocate at hx hb
    simp only at hx hb
    by_cases e : x = o
    · subst e
      rw [Function.update_self] at hb ⊢
      rcases hb with hb | ⟨hb, hn⟩
      · obtain ⟨a, ha, hab⟩ := hown x hx b hb
        exact ⟨a, List.mem_append_right _ ha, hab⟩
      · -- a block that came to life is the one of the new area
        obtain ⟨a, ha, hab⟩ := (h'.heap.isLiveBlock dbg).1 hb
        rcases List.mem_append.1 ha with ha | ha
        · exact ⟨a, List.mem_append_left _ ha, hab⟩
        · exact absurd ((h.heap.isLiveBlock dbg).2 ⟨a, ha, hab⟩) hn
    · rw [Function.update_of_ne e] at hb ⊢
      exact hown x hx b hb
  | @free s s' u o _ ho hs ih =>
    obtain ⟨live, carves, F, areas, A, h, hown⟩ := ih
    obtain ⟨t, live', A', hs', h', -⟩ := mmAllocatorFree_run h ho
    rw [hs] at hs'
    cases hs'
    exact ⟨live', carves, o :: F, areas, A', h', fun x hx => hown x (List.mem_of_mem_erase hx)⟩
  | write _ hx ih =>
    obtain ⟨live, carves, F, areas, A, h, hown⟩ := ih
    exact ⟨live, carves, F, areas, A, h.write (sameOff_put hx), hown⟩

/-! ## What the words in memory say -/

/-- Following `prev_area` from the list of the allocator meets an area at `a`. -/
def IsArea (m : Mem) (o a : Nat) : Prop := ∃ l, Chain 0 (getPrevArea m) (getList m o) l ∧ a ∈ l

/-- Following `next_free` from `_free_alls` meets the object. -/
def IsFreeObject (s : AllState σ) (o : Nat) : Prop := ∃ l, Chain 0 (getNext s.heap.mem) s.freeAlls l ∧ o ∈ l

theorem Inv.isArea (h : Inv dbg s objs regions live carves F areas A) {o a : Nat} (ho : o ∈ objs) :
    IsArea s.heap.mem o a ↔ ∃ x ∈ areas o, x.1 = a := by
  have hl := h.books.list ho
  constructor
  · rintro ⟨l, hl', ha⟩
    rw [hl'.unique hl] at ha
    exact List.mem_map.1 ha
  · exact fun ha => ⟨_, hl, List.mem_map.2 ha⟩

theorem Inv.isFreeObject (h : Inv dbg s objs regions live carves F areas A) {o : Nat} :
    IsFreeObject s o ↔ o ∈ F := by
  constructor
  · rintro ⟨l, hl, ho⟩
    rwa [hl.unique h.books.free] at ho
  · exact fun ho => ⟨F, h.books.free, ho⟩

theorem Inv.areaBlockEnd (h : Inv dbg s objs regions live carves F areas A) {o : Nat} {a : Nat × Nat} (ho : o ∈ objs)
    (ha : a ∈ areas o) : areaBlockEnd s.heap.mem a.1 = a.1 + a.2 - 8 := by
  have hw := h.books.area ho ha
  obtain ⟨-, -, h3, -, h5, -⟩ := h.heap.payload_spec (h.layout.area_live ho ha)
  unfold Allocator.areaBlockEnd
  rw [hw.block, hw.blockLen, u64_of_lt (by unfold sizeofArea; omega)]
  unfold sizeofArea
  omega

/-- What lies outside the areas of the heap, or is a header or a guard of one, is apart from the regions. -/
theorem Inv.region_apart (h : Inv dbg s objs regions live carves F areas A) {o : Nat} {r : Region} (ho : o ∈ objs)
    (hr : r ∈ regions o) :
    (∀ o' ∈ objs, ∀ b ∈ areas o', Apart (r.ptr, r.size) (b.1, sizeofArea) ∧
      Apart (r.ptr, r.size) (b.1 + b.2 - 8, sizeofPtr)) ∧
    (∀ o', o' ∈ F ∨ o' ∈ objs → Apart (r.ptr, r.size) (o', sizeofAllocator)) ∧
    (∀ b, Heap.IsBlock dbg s.heap b → Apart (r.ptr, r.size) (b, Heap.sizeofBlock)) := by
  obtain ⟨a, ha, h1, h2⟩ := h.region_in ho hr
  have hla := h.layout.area_live ho ha
  refine ⟨fun o' ho' b hb => ?_, fun o' ho' => ?_, fun b hb => ?_⟩
  · have h3 := h.heap.payload_spec (h.layout.area_live ho' hb)
    unfold Heap.Apart sizeofArea sizeofPtr
    simp only
    by_cases e : b = a
    · subst e; omega
    · have := h.heap.apart_of_ne (h.layout.area_live ho' hb) hla e
      unfold Heap.Apart at this
      omega
  · have := h.layout.object_area_apart h.heap ho' ho ha
    unfold Heap.Apart sizeofAllocator at *
    simp only at *
    omega
  · obtain ⟨q, k, hq, rfl⟩ := (h.heap.isBlock dbg).1 hb
    have := h.heap.apart_header hla hq
    unfold Heap.Apart at *
    simp only at *
    omega

/-- Regions of two allocators lie in different areas. -/
theorem Inv.regions_apart (h : Inv dbg s objs regions live carves F areas A) :
    (objs.flatMap regions).Pairwise Region.Apart := by
  have hnd : objs.Nodup := (List.nodup_append.1 h.layout.nodup).2.1
  rw [List.pairwise_flatMap]
  refine ⟨fun o ho => h.books.apart ho, hnd.pairwise_of_forall_ne fun o ho o' ho' hne r hr r' hr' => ?_⟩
  obtain ⟨a, ha, h1, h2⟩ := h.region_in ho hr
  obtain ⟨b, hb, h3, h4⟩ := h.region_in ho' hr'
  have := h.heap.apart_of_ne (h.layout.area_live ho ha) (h.layout.area_live ho' hb) fun e =>
    hne (h.layout.owner ho ho' ha (e ▸ hb))
  unfold Region.Apart Heap.Apart at *
  simp only
  omega

/-! ## A concrete run

From zeroed memory: one allocator, and a first request of one byte. Its area is a page less the header,
so that 4031 bytes of it are left. -/

theorem exists_first_request : ∃ s o s₁ p s₂,
    (onHeap Heap.mmHeapBootstrap >>= fun _ => mmAllocatorBootstrap) (⟨⟨fun _ => 0, fun _ => 0, 0, 0⟩, 0⟩ : AllState Nat) =
      .ok () s ∧
    mmAllocatorNew true Heap.countingPaging s = .ok o s₁ ∧ mmAllocate true Heap.countingPaging o 1 1 s₁ = .ok p s₂ ∧
    Reach true Heap.countingPaging s₂ ((Users.start.new o).allocate o ⟨p, 1, 1⟩ (Arose true s₁ s₂)) ∧
    Fills s₂.heap.mem o 4031 1 ∧ ∃ b, Arose true s₁ s₂ b := by
  obtain ⟨s, hs, hend⟩ : ∃ s, (onHeap Heap.mmHeapBootstrap >>= fun _ => mmAllocatorBootstrap)
      (⟨⟨fun _ => 0, fun _ => 0, 0, 0⟩, 0⟩ : AllState Nat) = .ok () s ∧ s.heap.heapEnd = va48Heap := ⟨_, rfl, rfl⟩
  have he := va48Heap_eq
  have hmaps := Heap.mapsAll_counting
  have hinv : Inv true s [] (fun _ => []) [] [] [] (fun _ => []) Buddy.empty := inv_boot hs
  have hgrow : s.freeAlls = 0 → Heap.GrowsFor Heap.countingPaging 1 s.heap := fun _ _ => ⟨by omega, hmaps _ _ _⟩
  obtain ⟨o, s₁, live, carves, F, A, hnew, hinv₁, hend₁⟩ := mmAllocatorNew_run hinv hgrow
  have hreq : Request 1 1 := by unfold Request sizeofArea sizeofPtr Heap.sizeofBlock; omega
  have ho : o ∈ [o] := List.mem_cons_self ..
  have hgrow₁ : Heap.GrowsFor Heap.countingPaging (1 + 1 + 40) s₁.heap := fun _ => ⟨by omega, hmaps _ _ _⟩
  obtain ⟨p, s₂, a, A', hall, hinv₂, hlen, huse, -⟩ := mmAllocate_first hinv₁ ho (Function.update_self ..) hreq hgrow₁
  refine ⟨s, o, s₁, p, s₂, hs, hnew, hall, ?_, ?_, ?_⟩
  · exact .allocate (.new (.boot hs) (fun _ _ => ⟨by omega, nofun⟩) hnew) ho hreq (fun _ _ => ⟨by omega, nofun⟩) hall
  · have hareas : Function.update (Function.update (fun _ => []) o []) o
        (a :: Function.update (fun _ => ([] : List (Nat × Nat))) o [] o) o = [a] := by simp
    have ha : a ∈ [a] := List.mem_cons_self ..
    obtain ⟨hlist, hnull, hneed⟩ := hinv₂.current ho hareas
    have hslop : ∀ x, slopOf x 1 = 0 := fun x => by unfold slopOf; rw [Nat.mod_one, if_neg (lt_irrefl 0)]
    refine ⟨by rw [hlist]; exact hnull, ?_⟩
    rw [hneed, hlist, hslop, (hinv₂.free_spec ho (by rw [hareas]; exact ha)).1, huse, hlen, hslop]
    rfl
  · have ha : a ∈ a :: live := List.mem_cons_self ..
    obtain ⟨q, c, -, hq⟩ := hinv₂.heap.owned.1 ha
    have hab : a.1 = Heap.addr q + Heap.sizeofBlock := by rw [hq]; rfl
    refine ⟨Heap.addr q, (hinv₂.heap.isLiveBlock true).2 ⟨a, ha, hab⟩, fun hl => ?_⟩
    obtain ⟨x, hx, hxb⟩ := (hinv₁.heap.isLiveBlock true).1 hl
    have e := hinv₂.heap.eq_of_fst (List.mem_cons_of_mem _ hx) ha (hxb.trans hab.symm)
    exact (List.nodup_cons.1 hinv₂.heap.nodup).1 (e ▸ hx)

/-- The same allocator then serves a request of 100 bytes at a multiple of 8 from the same area. -/
theorem exists_second_request : ∃ s o p q s', ∃ u : Users, Reach true Heap.countingPaging s u ∧ o ∈ u.objs ∧
    u.regions o = [⟨p, 1, 1⟩] ∧ Fits s.heap.mem o 100 8 ∧ mmAllocate true Heap.countingPaging o 100 8 s = .ok q s' ∧
    Reach true Heap.countingPaging s' (u.allocate o ⟨q, 100, 8⟩ (Arose true s s')) := by
  obtain ⟨-, o, s₁, p, s, -, -, -, h, hfill, -⟩ := exists_first_request
  have ho : o ∈ ((Users.start.new o).allocate o ⟨p, 1, 1⟩ (Arose true s₁ s)).objs := List.mem_cons_self ..
  have hregions : ((Users.start.new o).allocate o ⟨p, 1, 1⟩ (Arose true s₁ s)).regions o = [⟨p, 1, 1⟩] := by
    simp [Users.allocate, Users.new]
  obtain ⟨live, carves, F, areas, A, hinv, -⟩ := h.inv
  have hfree : areaFreeLen s.heap.mem (getList s.heap.mem o) = 4031 := by
    have hneed := hfill.2
    unfold needOf slopOf at hneed
    rw [Nat.mod_one, if_neg (lt_irrefl 0)] at hneed
    exact hneed.symm
  have hneed : needOf s.heap.mem o 100 8 < 4031 := by
    have hslop := (slopOf_spec (u64 (getBlock s.heap.mem (getList s.heap.mem o) + getUseLen s.heap.mem (getList s.heap.mem o)))
      (show 0 < 8 by norm_num)).1
    unfold needOf
    omega
  have hfits : Fits s.heap.mem o 100 8 := ⟨hfill.1, by omega⟩
  have hreq : Request 100 8 := by unfold Request sizeofArea sizeofPtr Heap.sizeofBlock; omega
  obtain ⟨q, s', -, -, hrun, -⟩ := @mmAllocate_run _ true Heap.countingPaging s _ _ _ _ _ _ _ hinv o 100 8 ho (by norm_num)
    (fun hno => absurd hfits hno) (fun hno => absurd hfits hno) fun _ hf => by
      have := hf.2
      omega
  exact ⟨s, o, p, q, s', _, h, ho, hregions, hfits, hrun, .allocate h ho hreq (fun hno => absurd hfits hno) hrun⟩

/-! ## Every run -/

/-- The regions of the live allocators are aligned, inside areas of their own allocator, and apart from
each other and from all bookkeeping; the guards are intact, so every live allocator can be freed. -/
theorem arena_isolation (h : Reach dbg pg s u) :
    u.objs.Nodup ∧
    (∀ o ∈ u.objs, ∀ r ∈ u.regions o, r.align ∣ r.ptr ∧
      (∃ a, IsArea s.heap.mem o a ∧ getBlock s.heap.mem a ≤ r.ptr ∧ r.ptr + r.size ≤ areaBlockEnd s.heap.mem a) ∧
      (∀ o' ∈ u.objs, ∀ a, IsArea s.heap.mem o' a → Apart (r.ptr, r.size) (a, sizeofArea) ∧
        Apart (r.ptr, r.size) (areaBlockEnd s.heap.mem a, sizeofPtr)) ∧
      (∀ o', o' ∈ u.objs ∨ IsFreeObject s o' → Apart (r.ptr, r.size) (o', sizeofAllocator)) ∧
      (∀ b, Heap.IsBlock dbg s.heap b → Apart (r.ptr, r.size) (b, Heap.sizeofBlock))) ∧
    (u.objs.flatMap u.regions).Pairwise Region.Apart ∧
    (∀ o ∈ u.objs, (∀ a, IsArea s.heap.mem o a → load s.heap.mem (areaBlockEnd s.heap.mem a) 8 = o) ∧
      ∃ s', mmAllocatorFree dbg o s = .ok () s') := by
  obtain ⟨live, carves, F, areas, A, h, -⟩ := h.inv
  refine ⟨(List.nodup_append.1 h.layout.nodup).2.1, fun o ho r hr => ?_, h.regions_apart, fun o ho => ⟨?_, ?_⟩⟩
  · obtain ⟨h1, h2, h3⟩ := h.region_apart ho hr
    refine ⟨(h.books.region ho hr).1, ?_, fun o' ho' a ha => ?_, fun o' ho' => h2 o' ?_, h3⟩
    · obtain ⟨a, ha, h4, h5⟩ := h.region_in ho hr
      refine ⟨a.1, (h.isArea ho).2 ⟨a, ha, rfl⟩, ?_, ?_⟩
      · rw [(h.books.area ho ha).block]; exact h4
      · rw [h.areaBlockEnd ho ha]; omega
    · obtain ⟨b, hb, rfl⟩ := (h.isArea ho').1 ha
      rw [h.areaBlockEnd ho' hb]
      exact h1 o' ho' b hb
    · rcases ho' with ho' | ho'
      · exact .inr ho'
      · exact .inl (h.isFreeObject.1 ho')
  · intro a ha
    obtain ⟨b, hb, rfl⟩ := (h.isArea ho).1 ha
    rw [h.areaBlockEnd ho hb]
    exact (h.books.area ho hb).guard
  · obtain ⟨s', -, -, hs', -⟩ := mmAllocatorFree_run h ho
    exact ⟨s', hs'⟩

theorem arena_isolation_two_requests : ∃ s o p q, ∃ u : Users, Reach true Heap.countingPaging s u ∧ o ∈ u.objs ∧
    u.regions o = [⟨q, 100, 8⟩, ⟨p, 1, 1⟩] ∧ Apart (q, 100) (p, 1) ∧ Apart (q, 100) (o, sizeofAllocator) ∧
    ∃ s', mmAllocatorFree true o s = .ok () s' := by
  obtain ⟨s₁, o, p, q, s, u, -, ho, hregions, -, -, h⟩ := exists_second_request
  have htwo : (u.allocate o ⟨q, 100, 8⟩ (Arose true s₁ s)).regions o = [⟨q, 100, 8⟩, ⟨p, 1, 1⟩] := by
    simp [Users.allocate, hregions]
  obtain ⟨-, h1, hapart, h2⟩ := arena_isolation h
  have hpair : [Region.mk q 100 8, ⟨p, 1, 1⟩].Pairwise Region.Apart :=
    htwo ▸ (List.pairwise_flatMap.1 hapart).1 o ho
  have hq : ⟨q, 100, 8⟩ ∈ (u.allocate o ⟨q, 100, 8⟩ (Arose true s₁ s)).regions o := by
    rw [htwo]
    exact List.mem_cons_self ..
  exact ⟨s, o, p, q, _, h, ho, htwo, (List.pairwise_cons.1 hpair).1 _ (List.mem_cons_self ..), (h1 o ho _ hq).2.2.2.1 o (.inl ho),
    (h2 o ho).2⟩

/-- In the debug build, with the heap growing as needed, `mm_allocator_new` and `mm_allocator_free`
return, and an accepted request is served if and only if it does not take exactly what is left of the
current area. -/
theorem request_served_iff (h : Reach true pg s u) :
    ((s.freeAlls = 0 → Heap.GrowsFor pg 1 s.heap) → ∃ o s', mmAllocatorNew true pg s = .ok o s') ∧
    (∀ o ∈ u.objs, ∀ size align, Request size align →
      (¬ Fits s.heap.mem o size align → Heap.GrowsFor pg (size + align + 40) s.heap) →
      ((∃ p s', mmAllocate true pg o size align s = .ok p s') ↔ ¬ Fills s.heap.mem o size align)) ∧
    (∀ o ∈ u.objs, ∃ s', mmAllocatorFree true o s = .ok () s') := by
  obtain ⟨live, carves, F, areas, A, h, -⟩ := h.inv
  refine ⟨fun hgrow => ?_, fun o ho size align hreq hgrow => ⟨?_, fun hfill => ?_⟩, fun o ho => ?_⟩
  · obtain ⟨o, s', -, -, -, -, hs', -⟩ := mmAllocatorNew_run h hgrow
    exact ⟨o, s', hs'⟩
  · rintro ⟨p, s', hs⟩ hfill
    obtain ⟨t, ht⟩ := mmAllocate_fills pg h ho hreq.1 hfill
    rw [hs] at ht
    cases ht
  · obtain ⟨p, s', -, -, hs', -⟩ := mmAllocate_run h ho hreq.1 (fun _ => hreq) hgrow fun _ => hfill
    exact ⟨p, s', hs'⟩
  · obtain ⟨s', -, -, hs', -⟩ := mmAllocatorFree_run h ho
    exact ⟨s', hs'⟩

theorem request_served_iff_first_request : ∃ s o p, ∃ u : Users, Reach true Heap.countingPaging s u ∧ o ∈ u.objs ∧
    ⟨p, 1, 1⟩ ∈ u.regions o ∧ ¬ (∃ q s', mmAllocate true Heap.countingPaging o 4031 1 s = .ok q s') ∧
    ∃ s', mmAllocatorFree true o s = .ok () s' := by
  obtain ⟨-, o, s₁, p, s₂, -, -, -, h, hfill, -⟩ := exists_first_request
  have ho : o ∈ ((Users.start.new o).allocate o ⟨p, 1, 1⟩ (Arose true s₁ s₂)).objs := List.mem_cons_self ..
  have hreq : Request 4031 1 := by unfold Request sizeofArea sizeofPtr Heap.sizeofBlock; omega
  obtain ⟨-, h1, h2⟩ := request_served_iff h
  refine ⟨s₂, o, p, _, h, ho, by simp [Users.allocate], ?_, h2 o ho⟩
  rw [h1 o ho 4031 1 hreq fun hf => absurd ⟨hfill.1, hfill.2.le⟩ hf, not_not]
  exact hfill

/-- After a new allocator served a request of one byte, one of 4031 bytes has room in the area and fails. -/
theorem exact_fill_panics : ∃ s o s₁ p s₂ s₃,
    (onHeap Heap.mmHeapBootstrap >>= fun _ => mmAllocatorBootstrap) (⟨⟨fun _ => 0, fun _ => 0, 0, 0⟩, 0⟩ : AllState Nat) =
      .ok () s ∧
    mmAllocatorNew true Heap.countingPaging s = .ok o s₁ ∧ Request 1 1 ∧
    mmAllocate true Heap.countingPaging o 1 1 s₁ = .ok p s₂ ∧ Request 4031 1 ∧ Fits s₂.heap.mem o 4031 1 ∧
    mmAllocate true Heap.countingPaging o 4031 1 s₂ = .error (.assertFail "area->use_len < area->block_len") s₃ := by
  obtain ⟨s, o, s₁, p, s₂, hs, hnew, hall, h, hfill, -⟩ := exists_first_request
  have ho : o ∈ ((Users.start.new o).allocate o ⟨p, 1, 1⟩ (Arose true s₁ s₂)).objs := List.mem_cons_self ..
  have hreq1 : Request 1 1 := by unfold Request sizeofArea sizeofPtr Heap.sizeofBlock; omega
  have hreq : Request 4031 1 := by unfold Request sizeofArea sizeofPtr Heap.sizeofBlock; omega
  obtain ⟨live, carves, F, areas, A, hinv, -⟩ := h.inv
  obtain ⟨s₃, hs₃⟩ := mmAllocate_fills Heap.countingPaging hinv ho hreq.1 hfill
  exact ⟨s, o, s₁, p, s₂, s₃, hs, hnew, hreq1, hall, hreq, ⟨hfill.1, hfill.2.le⟩, hs₃⟩

/-- The heap blocks in use are the areas of the live allocators, each of one allocator, and the blocks
carved into objects, each of which is live or on `_free_alls`; freeing an allocator returns every block
it got. -/
theorem no_arena_leak (h : Reach dbg pg s u) : ∃ carves : List Nat,
    (∀ b, Heap.IsLiveBlock dbg s.heap b ↔
      (∃ o ∈ u.objs, IsArea s.heap.mem o (b + Heap.sizeofBlock)) ∨ b + Heap.sizeofBlock ∈ carves) ∧
    (∀ o ∈ u.objs, ∀ a, IsArea s.heap.mem o a → a ∉ carves ∧ ∀ o' ∈ u.objs, IsArea s.heap.mem o' a → o' = o) ∧
    (∃ F, Chain 0 (getNext s.heap.mem) s.freeAlls F ∧ (F ++ u.objs).Nodup ∧
      ∀ o, o ∈ F ∨ o ∈ u.objs ↔ ∃ c ∈ carves, ∃ i < 16, o = objectAt c i) ∧
    (∀ o ∈ u.objs, ∀ s', mmAllocatorFree dbg o s = .ok () s' → ∀ b, u.got o b → ¬ Heap.IsLiveBlock dbg s'.heap b ∧
      ∀ x, b ≤ x → x < b + 2 ^ Heap.getClass s.heap.mem b * 4096 → Heap.InFreeBlock dbg s'.heap x) := by
  obtain ⟨live, carves, F, areas, A, h, hown⟩ := h.inv
  refine ⟨carves.map Prod.fst, fun b => ?_, fun o ho a ha => ?_, ⟨F, h.books.free, h.layout.nodup, fun o => ?_⟩,
    fun o ho s' hs b hb => ?_⟩
  · rw [h.heap.isLiveBlock dbg]
    constructor
    · rintro ⟨a, ha, hab⟩
      rcases h.layout.live.1 ha with hc | ⟨o, ho, hao⟩
      · exact .inr (List.mem_map.2 ⟨a, hc, hab⟩)
      · exact .inl ⟨o, ho, (h.isArea ho).2 ⟨a, hao, hab⟩⟩
    · rintro (⟨o, ho, hb⟩ | hb)
      · obtain ⟨a, ha, hab⟩ := (h.isArea ho).1 hb
        exact ⟨a, h.layout.area_live ho ha, hab⟩
      · obtain ⟨c, hc, hcb⟩ := List.mem_map.1 hb
        exact ⟨c, h.layout.live.2 (.inl hc), hcb⟩
  · obtain ⟨x, hx, rfl⟩ := (h.isArea ho).1 ha
    have hlx := h.layout.area_live ho hx
    refine ⟨fun hc => ?_, fun o' ho' ha' => ?_⟩
    · obtain ⟨c, hc', hcx⟩ := List.mem_map.1 hc
      obtain rfl := h.heap.eq_of_fst (h.layout.live.2 (.inl hc')) hlx hcx
      exact h.layout.notCarve ho hx hc'
    · obtain ⟨y, hy, hyx⟩ := (h.isArea ho').1 ha'
      obtain rfl := h.heap.eq_of_fst (h.layout.area_live ho' hy) hlx hyx
      exact h.layout.owner ho' ho hy hx
  · rw [h.layout.object]
    constructor
    · rintro ⟨c, hc, i, hi, rfl⟩; exact ⟨c.1, List.mem_map.2 ⟨c, hc, rfl⟩, i, hi, rfl⟩
    · rintro ⟨c, hc, i, hi, rfl⟩
      obtain ⟨x, hx, rfl⟩ := List.mem_map.1 hc
      exact ⟨x, hx, i, hi, rfl⟩
  · obtain ⟨a, ha, hab⟩ := hown o ho b hb
    have hla := h.layout.area_live ho ha
    obtain ⟨t, live', A', hs', h', hlive, hend⟩ := mmAllocatorFree_run h ho
    rw [hs] at hs'
    cases hs'
    have hn : a ∉ live' := fun hm => ((hlive a).1 hm).2 ha
    refine ⟨fun hl => ?_, fun x hx1 hx2 => ?_⟩
    · obtain ⟨y, hy, hyb⟩ := (h'.heap.isLiveBlock dbg).1 hl
      exact hn (h.heap.eq_of_fst ((hlive y).1 hy).1 hla (hyb.trans hab.symm) ▸ hy)
    · exact h.heap.inFreeBlock dbg h'.heap (fun y hy => ((hlive y).1 hy).1) hend hla hn (by omega)
        (by rw [h.heap.payload_class hla hab]; exact hx2)

theorem no_arena_leak_first_request : ∃ s o s', ∃ u : Users, Reach true Heap.countingPaging s u ∧ u.objs = [o] ∧
    mmAllocatorFree true o s = .ok () s' ∧ ∃ b, u.got o b ∧ Heap.InFreeBlock true s'.heap b := by
  obtain ⟨-, o, s₁, p, s₂, -, -, -, h, -, b, hb⟩ := exists_first_request
  obtain ⟨_, _, _, _, _, hinv, -⟩ := h.inv
  obtain ⟨s', -, -, hs', -⟩ := mmAllocatorFree_run hinv (List.mem_cons_self ..)
  obtain ⟨-, -, -, -, hfree⟩ := no_arena_leak h
  have hgot : ((Users.start.new o).allocate o ⟨p, 1, 1⟩ (Arose true s₁ s₂)).got o b := by
    simpa [Users.allocate] using Or.inr hb
  have hlt : b < b + 2 ^ Heap.getClass s₂.heap.mem b * 4096 := Nat.lt_add_of_pos_right (by positivity)
  exact ⟨s₂, o, s', _, h, rfl, hs', b, hgot, (hfree o (List.mem_cons_self ..) s' hs' b hgot).2 b le_rfl hlt⟩

end Reach

end Cing.Allocator
