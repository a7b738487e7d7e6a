/-
The invariant of the arena allocators. A live allocator owns areas, each a whole heap allocation; the
other heap allocations are blocks carved into `mm_allocator_t` objects, each of which is live or on
`_free_alls`. The bookkeeping lies in aligned words of these allocations that no region meets.
-/
import Cing.Lib.Linked
import Cing.Mm.Heap.Runs
import Cing.Mm.Allocator.Model

namespace Cing.Allocator

open Bytes Linked
open Heap (Apart InPayload)

/-! ## Words -/

/-- The aligned 64-bit word at an address. -/
abbrev word (m : Mem) (w : Nat) : Nat := load m w 8

theorem word_poke {m : Mem} {w w' v : Nat} (h : w % 8 = 0) (h' : w' % 8 = 0) (hv : v < 2 ^ 64) :
    word (store m w 8 v) w' = if w' = w then v else word m w' := by
  split
  · rename_i e
    rw [e, word, load_store_same]
    exact Nat.mod_eq_of_lt (by omega)
  · exact load_store_other (by omega)

/-! ## The ghost state -/

/-- A region handed out by `mm_allocate`, with the alignment asked for. -/
structure Region where
  ptr : Nat
  size : Nat
  align : Nat
deriving DecidableEq, Repr

/-- Two regions share no byte. -/
def Region.Apart (r r' : Region) : Prop := Heap.Apart (r.ptr, r.size) (r'.ptr, r'.size)

/-- The objects carved out of a heap allocation at `c`. -/
def objectAt (c i : Nat) : Nat := c + sizeofAllocator * sizeofAllocator * i

/-- How the heap allocations `live` are used: `carves` are cut into objects, which are the live
allocators `objs` and the free ones `F`; each other one is an area of one live allocator. -/
structure Layout (live carves : List (Nat × Nat)) (objs F : List Nat) (areas : Nat → List (Nat × Nat)) : Prop where
  live : ∀ {a}, a ∈ live ↔ a ∈ carves ∨ ∃ o ∈ objs, a ∈ areas o
  carveLen : ∀ {c}, c ∈ carves → c.2 = 4072
  object : ∀ {o}, o ∈ F ∨ o ∈ objs ↔ ∃ c ∈ carves, ∃ i < 16, o = objectAt c.1 i
  nodup : (F ++ objs).Nodup
  areasNodup : ∀ {o}, o ∈ objs → (areas o).Nodup
  owner : ∀ {o o' a}, o ∈ objs → o' ∈ objs → a ∈ areas o → a ∈ areas o' → o = o'
  notCarve : ∀ {o a}, o ∈ objs → a ∈ areas o → a ∉ carves

/-- The words of one area: its block, the length of the block, and the guard. -/
structure AreaWords (m : Mem) (o : Nat) (a : Nat × Nat) : Prop where
  block : getBlock m a.1 = a.1 + sizeofArea
  blockLen : getBlockLen m a.1 = a.2 - 40
  guard : word m (a.1 + a.2 - 8) = o

/-- What the words in memory say: the free objects, the areas of each live allocator, newest first, and
the part of each area that is used up, which holds the regions. -/
structure Books (dbg : Bool) (m : Mem) (freeAlls : Nat) (objs F : List Nat) (regions : Nat → List Region)
    (areas : Nat → List (Nat × Nat)) : Prop where
  free : Chain 0 (getNext m) freeAlls F
  list : ∀ {o}, o ∈ objs → Chain 0 (getPrevArea m) (getList m o) ((areas o).map Prod.fst)
  area : ∀ {o a}, o ∈ objs → a ∈ areas o → AreaWords m o a
  use : ∀ {o a}, o ∈ objs → a ∈ areas o → getUseLen m a.1 ≤ a.2 - 40 ∧ (dbg = true → getUseLen m a.1 < a.2 - 40)
  region : ∀ {o r}, o ∈ objs → r ∈ regions o → r.align ∣ r.ptr ∧ ∃ a ∈ areas o, a.1 + sizeofArea ≤ r.ptr ∧
    r.ptr + r.size ≤ a.1 + sizeofArea + getUseLen m a.1
  apart : ∀ {o}, o ∈ objs → (regions o).Pairwise Region.Apart

/-- The invariant: the heap's own, the use of the heap allocations, and the books in them. -/
structure Inv {σ : Type} (dbg : Bool) (s : AllState σ) (objs : List Nat) (regions : Nat → List Region)
    (live carves : List (Nat × Nat)) (F : List Nat) (areas : Nat → List (Nat × Nat)) (A : Buddy.St) : Prop where
  heap : Heap.Good s.heap live A
  layout : Layout live carves objs F areas
  books : Books dbg s.heap.mem s.freeAlls objs F regions areas

/-- The byte lies in a region of a live allocator. -/
def InRegion (objs : List Nat) (regions : Nat → List Region) (x : Nat) : Prop :=
  ∃ o ∈ objs, ∃ r ∈ regions o, r.ptr ≤ x ∧ x < r.ptr + r.size

section Books

variable {dbg : Bool} {m m' : Mem} {freeAlls : Nat} {objs F : List Nat} {regions : Nat → List Region}
  {areas : Nat → List (Nat × Nat)}

/-! ## The books after a change of the words -/

/-- The five words of an area. -/
def AreaWord (a : Nat × Nat) (w : Nat) : Prop :=
  w = a.1 ∨ w = a.1 + 8 ∨ w = a.1 + 16 ∨ w = a.1 + 24 ∨ w = a.1 + a.2 - 8

theorem AreaWords.congr {o : Nat} {a : Nat × Nat} (h : AreaWords m o a)
    (hw : ∀ w, w = a.1 ∨ w = a.1 + 8 ∨ w = a.1 + a.2 - 8 → word m' w = word m w) : AreaWords m' o a :=
  ⟨(hw _ (.inl rfl)).trans h.block, (hw _ (.inr (.inl rfl))).trans h.blockLen,
    (hw _ (.inr (.inr rfl))).trans h.guard⟩

theorem AreaWord.of_fixed {a : Nat × Nat} {w : Nat} (h : w = a.1 ∨ w = a.1 + 8 ∨ w = a.1 + a.2 - 8) :
    AreaWord a w := by
  unfold AreaWord; tauto

/-- The books read the words of the objects and of the areas only. -/
theorem Books.congr (h : Books dbg m freeAlls objs F regions areas)
    (hF : ∀ o ∈ F, word m' (o + 8) = word m (o + 8)) (ho : ∀ o ∈ objs, word m' o = word m o)
    (ha : ∀ o ∈ objs, ∀ a ∈ areas o, ∀ w, AreaWord a w → word m' w = word m w) :
    Books dbg m' freeAlls objs F regions areas := by
  have huse : ∀ {o a}, o ∈ objs → a ∈ areas o → getUseLen m' a.1 = getUseLen m a.1 := fun h1 h2 =>
    ha _ h1 _ h2 _ (.inr (.inr (.inl rfl)))
  refine ⟨h.free.congr hF, fun {o} h1 => ?_, fun h1 h2 => (h.area h1 h2).congr fun w hw =>
    ha _ h1 _ h2 w (.of_fixed hw), fun h1 h2 => ?_, fun {o r} h1 h2 => ?_, h.apart⟩
  · show Chain 0 _ (word m' o) _
    rw [ho o h1]
    refine (h.list h1).congr fun x hx => ?_
    obtain ⟨a, hxa, rfl⟩ := List.mem_map.1 hx
    exact ha o h1 a hxa _ (.inr (.inr (.inr (.inl rfl))))
  · rw [huse h1 h2]; exact h.use h1 h2
  · obtain ⟨hal, a, ha', h3, h4⟩ := h.region h1 h2
    exact ⟨hal, a, ha', h3, by rw [huse h1 ha']; exact h4⟩

theorem Books.mono (h : Books dbg m freeAlls objs F regions areas) {objs' : List Nat}
    (hsub : ∀ o ∈ objs', o ∈ objs) : Books dbg m freeAlls objs' F regions areas :=
  ⟨h.free, fun h1 => h.list (hsub _ h1), fun h1 => h.area (hsub _ h1), fun h1 => h.use (hsub _ h1),
    fun h1 => h.region (hsub _ h1), fun h1 => h.apart (hsub _ h1)⟩

/-- A new area goes in front of the list of an allocator; nothing of it is used. -/
theorem Books.addArea (h : Books dbg m freeAlls objs F regions areas) {o : Nat} {a : Nat × Nat}
    (hnew : AreaWords m o a) (huse : getUseLen m a.1 = 0) (hpos : 40 < a.2) (hnull : a.1 ≠ 0)
    (hprev : getPrevArea m a.1 = getList m o) {m' : Mem} (hlist : getList m' o = a.1)
    (hF : ∀ o ∈ F, word m' (o + 8) = word m (o + 8)) (ho : ∀ o' ∈ objs, o' ≠ o → word m' o' = word m o')
    (ha : ∀ w, AreaWord a w → word m' w = word m w)
    (hold : ∀ o ∈ objs, ∀ a ∈ areas o, ∀ w, AreaWord a w → word m' w = word m w) :
    Books dbg m' freeAlls objs F regions (Function.update areas o (a :: areas o)) := by
  have hsub : ∀ {o' x}, x ∈ areas o' → x ∈ Function.update areas o (a :: areas o) o' := by
    intro o' x hx
    by_cases e : o' = o
    · subst e; rw [Function.update_self]; exact List.mem_cons_of_mem _ hx
    · rwa [Function.update_of_ne e]
  have hcase : ∀ {o' x}, x ∈ Function.update areas o (a :: areas o) o' → (o' = o ∧ x = a) ∨ x ∈ areas o' := by
    intro o' x hx
    by_cases e : o' = o
    · subst e; rw [Function.update_self] at hx
      rcases List.mem_cons.1 hx with rfl | hx
      · exact .inl ⟨rfl, rfl⟩
      · exact .inr hx
    · rw [Function.update_of_ne e] at hx; exact .inr hx
  have huse' : ∀ {o' x}, o' ∈ objs → x ∈ areas o' → getUseLen m' x.1 = getUseLen m x.1 := fun h1 h2 =>
    hold _ h1 _ h2 _ (.inr (.inr (.inl rfl)))
  refine ⟨h.free.congr hF, fun {o'} h1 => ?_, fun {o' x} h1 h2 => ?_, fun {o' x} h1 h2 => ?_,
    fun {o' r} h1 h2 => ?_, h.apart⟩
  · have hold' : ∀ x ∈ (areas o').map Prod.fst, getPrevArea m' x = getPrevArea m x := by
      intro x hx
      obtain ⟨b, hb, rfl⟩ := List.mem_map.1 hx
      exact hold o' h1 b hb _ (.inr (.inr (.inr (.inl rfl))))
    by_cases e : o' = o
    · subst e
      rw [Function.update_self, List.map_cons]
      refine ⟨hlist, hnull, ?_⟩
      have hp : getPrevArea m' a.1 = getList m o' := (ha _ (.inr (.inr (.inr (.inl rfl))))).trans hprev
      rw [hp]
      exact (h.list h1).congr hold'
    · rw [Function.update_of_ne e]
      show Chain 0 _ (word m' o') _
      rw [ho o' h1 e]
      exact (h.list h1).congr hold'
  · rcases hcase h2 with ⟨rfl, rfl⟩ | h2
    · exact hnew.congr fun w hw => ha w (.of_fixed hw)
    · exact (h.area h1 h2).congr fun w hw => hold _ h1 _ h2 w (.of_fixed hw)
  · rcases hcase h2 with ⟨rfl, rfl⟩ | h2
    · have : getUseLen m' x.1 = 0 := (ha _ (.inr (.inr (.inl rfl)))).trans huse
      rw [this]
      exact ⟨Nat.zero_le _, fun _ => by omega⟩
    · rw [huse' h1 h2]; exact h.use h1 h2
  · obtain ⟨hal, x, hx, h3, h4⟩ := h.region h1 h2
    exact ⟨hal, x, hsub hx, h3, by rw [huse' h1 hx]; exact h4⟩

/-- A region is cut off an area: its `use_len` grows up to the end of the region. -/
theorem Books.cut (h : Books dbg m freeAlls objs F regions areas) {o : Nat} {a : Nat × Nat} (ho : o ∈ objs)
    (ha : a ∈ areas o) (hpos : ∀ o' ∈ objs, ∀ b ∈ areas o', 40 < b.2) {r : Region} (hal : r.align ∣ r.ptr)
    (hlo : a.1 + sizeofArea + getUseLen m a.1 ≤ r.ptr) {m' : Mem}
    (hend : r.ptr + r.size = a.1 + sizeofArea + getUseLen m' a.1)
    (hle : getUseLen m' a.1 ≤ a.2 - 40 ∧ (dbg = true → getUseLen m' a.1 < a.2 - 40))
    (hF : ∀ o ∈ F, word m' (o + 8) = word m (o + 8)) (hobj : ∀ o' ∈ objs, word m' o' = word m o')
    (hold : ∀ o' ∈ objs, ∀ b ∈ areas o', ∀ w, AreaWord b w → w ≠ a.1 + 16 → word m' w = word m w)
    (hsep : ∀ o' ∈ objs, ∀ b ∈ areas o', b ≠ a → Apart a b) :
    Books dbg m' freeAlls objs F (Function.update regions o (r :: regions o)) areas := by
  have hposa := hpos o ho a ha
  -- no other area has a word there
  have hne : ∀ {o' b w}, o' ∈ objs → b ∈ areas o' → b ≠ a → AreaWord b w → w ≠ a.1 + 16 := by
    intro o' b w h1 h2 hba hw
    have h3 := hsep o' h1 b h2 hba
    have h4 := hpos o' h1 b h2
    unfold Heap.Apart at h3
    unfold AreaWord at hw
    omega
  have huse : ∀ {o' b}, o' ∈ objs → b ∈ areas o' → b ≠ a → getUseLen m' b.1 = getUseLen m b.1 := fun h1 h2 hba =>
    hold _ h1 _ h2 _ (.inr (.inr (.inl rfl))) (hne h1 h2 hba (.inr (.inr (.inl rfl))))
  -- an old region lies in the part of its area that was used before
  have hin : ∀ {o' r'}, o' ∈ objs → r' ∈ regions o' → ∃ b ∈ areas o', b.1 + sizeofArea ≤ r'.ptr ∧
      r'.ptr + r'.size ≤ b.1 + sizeofArea + getUseLen m b.1 ∧ getUseLen m b.1 ≤ getUseLen m' b.1 := by
    intro o' r' h1 h2
    obtain ⟨-, b, hb, h3, h4⟩ := h.region h1 h2
    refine ⟨b, hb, h3, h4, ?_⟩
    by_cases e : b = a
    · subst e; omega
    · exact (huse h1 hb e).ge
  refine ⟨h.free.congr hF, fun {o'} h1 => ?_, fun {o' b} h1 h2 => (h.area h1 h2).congr fun w hw => ?_,
    fun {o' b} h1 h2 => ?_, fun {o' r'} h1 h2 => ?_, fun {o'} h1 => ?_⟩
  · show Chain 0 _ (word m' o') _
    rw [hobj o' h1]
    refine (h.list h1).congr fun x hx => ?_
    obtain ⟨b, hb, rfl⟩ := List.mem_map.1 hx
    refine hold o' h1 b hb _ (.inr (.inr (.inr (.inl rfl)))) ?_
    by_cases e : b = a
    · subst e; omega
    · exact hne h1 hb e (.inr (.inr (.inr (.inl rfl))))
  · refine hold o' h1 b h2 w (.of_fixed hw) ?_
    by_cases e : b = a
    · subst e; omega
    · exact hne h1 h2 e (.of_fixed hw)
  · by_cases e : b = a
    · subst e; exact hle
    · rw [huse h1 h2 e]; exact h.use h1 h2
  · by_cases e : o' = o
    · subst e
      rw [Function.update_self] at h2
      rcases List.mem_cons.1 h2 with rfl | h2
      · exact ⟨hal, a, ha, by omega, hend.le⟩
      · obtain ⟨b, hb, h3, h4, h5⟩ := hin h1 h2
        exact ⟨(h.region h1 h2).1, b, hb, h3, by omega⟩
    · rw [Function.update_of_ne e] at h2
      obtain ⟨b, hb, h3, h4, h5⟩ := hin h1 h2
      exact ⟨(h.region h1 h2).1, b, hb, h3, by omega⟩
  · by_cases e : o' = o
    · subst e
      rw [Function.update_self]
      refine List.pairwise_cons.2 ⟨fun r' hr' => ?_, h.apart h1⟩
      obtain ⟨b, hb, h3, h4, -⟩ := hin h1 hr'
      unfold Region.Apart Heap.Apart
      simp only
      by_cases e : b = a
      · subst e; omega
      · have h5 := hsep o' h1 b hb e
        have h6 := (h.use h1 hb).1
        have h7 := hpos o' h1 b hb
        unfold Heap.Apart at h5
        unfold sizeofArea at *
        omega
    · rw [Function.update_of_ne e]; exact h.apart h1

/-- The first free object becomes a live allocator without areas. -/
theorem Books.takeFree {o : Nat} (h : Books dbg m freeAlls objs (o :: F) regions areas) {m' : Mem}
    (hlist : getList m' o = 0) (hF : ∀ o' ∈ F, word m' (o' + 8) = word m (o' + 8))
    (hobj : ∀ o' ∈ objs, word m' o' = word m o')
    (ha : ∀ o' ∈ objs, ∀ a ∈ areas o', ∀ w, AreaWord a w → word m' w = word m w) (hnew : o ∉ objs) :
    Books dbg m' (getNext m o) (o :: objs) F (Function.update regions o []) (Function.update areas o []) := by
  have hold : Books dbg m (getNext m o) objs F regions areas :=
    ⟨h.free.2.2, h.list, h.area, h.use, h.region, h.apart⟩
  have hold := hold.congr hF hobj ha
  have hne : ∀ {o'}, o' ∈ o :: objs → o' = o ∨ (o' ≠ o ∧ o' ∈ objs) := by
    intro o' h1
    rcases List.mem_cons.1 h1 with rfl | h1
    · exact .inl rfl
    · exact .inr ⟨fun e => hnew (e ▸ h1), h1⟩
  refine ⟨hold.free, fun {o'} h1 => ?_, fun {o' a} h1 h2 => ?_, fun {o' a} h1 h2 => ?_, fun {o' r} h1 h2 => ?_,
    fun {o'} h1 => ?_⟩
  · rcases hne h1 with rfl | ⟨e, h1⟩
    · rw [Function.update_self]; exact hlist
    · rw [Function.update_of_ne e]; exact hold.list h1
  · rcases hne h1 with rfl | ⟨e, h1⟩
    · simp at h2
    · rw [Function.update_of_ne e] at h2; exact hold.area h1 h2
  · rcases hne h1 with rfl | ⟨e, h1⟩
    · simp at h2
    · rw [Function.update_of_ne e] at h2; exact hold.use h1 h2
  · rcases hne h1 with rfl | ⟨e, h1⟩
    · simp at h2
    · rw [Function.update_of_ne e] at h2 ⊢; exact hold.region h1 h2
  · rcases hne h1 with rfl | ⟨e, h1⟩
    · simp
    · rw [Function.update_of_ne e]; exact hold.apart h1

/-- An object goes back on the list of free ones. -/
theorem Books.putFree (h : Books dbg m freeAlls objs F regions areas) {o : Nat} (hnull : o ≠ 0)
    (hnext : getNext m o = freeAlls) : Books dbg m o objs (o :: F) regions areas :=
  ⟨⟨rfl, hnull, hnext ▸ h.free⟩, h.list, h.area, h.use, h.region, h.apart⟩

end Books

/-! ## Where the words are -/

section Layout

variable {σ : Type} {hs : HeapState σ} {objs F : List Nat} {live carves : List (Nat × Nat)}
  {areas : Nat → List (Nat × Nat)} {A : Buddy.St}

theorem Layout.area_live (hl : Layout live carves objs F areas) {o : Nat} {a : Nat × Nat} (ho : o ∈ objs)
    (ha : a ∈ areas o) : a ∈ live := hl.live.2 (.inr ⟨o, ho, ha⟩)

/-- An object is two aligned words inside a carved block. -/
theorem Layout.object_spec (hl : Layout live carves objs F areas) (hg : Heap.Good hs live A) {o : Nat}
    (ho : o ∈ F ∨ o ∈ objs) : ∃ c ∈ carves, c ∈ live ∧ (∃ i, o = c.1 + 256 * i) ∧ o + 16 ≤ c.1 + c.2 ∧ o % 8 = 0 ∧
      o ≠ 0 ∧ o + 16 < 2 ^ 64 := by
  obtain ⟨c, hc, i, hi, rfl⟩ := hl.object.1 ho
  have hcl : c ∈ live := hl.live.2 (.inl hc)
  have hspec := hg.payload_spec hcl
  have hlen := hl.carveLen hc
  unfold objectAt sizeofAllocator
  exact ⟨c, hc, hcl, ⟨i, by omega⟩, by omega, by omega, by omega, by omega⟩

theorem Layout.object_apart (hl : Layout live carves objs F areas) (hg : Heap.Good hs live A) {o o' : Nat}
    (ho : o ∈ F ∨ o ∈ objs) (ho' : o' ∈ F ∨ o' ∈ objs) (hne : o ≠ o') : Apart (o, 16) (o', 16) := by
  obtain ⟨c, -, hc, ⟨i, hi⟩, h1, -⟩ := hl.object_spec hg ho
  obtain ⟨c', -, hc', ⟨j, hj⟩, h2, -⟩ := hl.object_spec hg ho'
  unfold Heap.Apart
  simp only
  by_cases e : c = c'
  · subst e; omega
  · have := hg.apart_of_ne hc hc' e
    unfold Heap.Apart at this
    omega

theorem Layout.object_area_apart (hl : Layout live carves objs F areas) (hg : Heap.Good hs live A) {o o' : Nat}
    {a : Nat × Nat} (ho : o ∈ F ∨ o ∈ objs) (ho' : o' ∈ objs) (ha : a ∈ areas o') : Apart (o, 16) a := by
  obtain ⟨c, hcc, hc, ⟨i, hi⟩, h1, -⟩ := hl.object_spec hg ho
  have hne : c ≠ a := fun e => hl.notCarve ho' ha (e ▸ hcc)
  have := hg.apart_of_ne hc (hl.area_live ho' ha) hne
  unfold Heap.Apart at *
  simp only
  omega

end Layout

end Cing.Allocator
