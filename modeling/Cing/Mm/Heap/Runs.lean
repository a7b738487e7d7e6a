/-
Runs of the kernel heap: from `mm_heap_bootstrap`, any sequence of `mm_heap_alloc` calls of admissible
length, `mm_heap_free` calls on live pointers and writes of the users inside their payloads. The
invariant `Good` says that the state represents a buddy system whose handed-out blocks are the live
allocations; the results about every run are read off it.
-/
import Cing.Mm.Heap.Calls

namespace Cing.Heap

open Bytes Linked Buddy Dyadic

/-! ## What the headers in memory say -/

section Walk

variable {σ : Type} (dbg : Bool) (s : HeapState σ)

/-- Walking from `b` by `_size_of_class` of each header visits `bs` and lands on `_heap_end`. -/
def Walk : Nat → List Nat → Prop
  | b, [] => b = s.heapEnd
  | b, x :: t => x = b ∧ b < s.heapEnd ∧ ∃ n, sizeOfClass dbg (getClass s.mem b) s = .ok n s ∧ Walk (b + n) t

/-- The walk from the start of the heap meets a block at `b`. -/
def IsBlock (b : Nat) : Prop := ∃ bs, Walk dbg s va48Heap bs ∧ b ∈ bs

/-- A block whose header says that it is not free. -/
def IsLiveBlock (b : Nat) : Prop := IsBlock dbg s b ∧ getIsFree s.mem b = false

/-- A block whose header says that it is free and of class `c`. -/
def IsFreeBlock (c b : Nat) : Prop := IsBlock dbg s b ∧ getIsFree s.mem b = true ∧ getClass s.mem b = c

/-- The address lies in a free block. -/
def InFreeBlock (x : Nat) : Prop := ∃ c b, IsFreeBlock dbg s c b ∧ b ≤ x ∧ x < b + 2 ^ c * 4096

variable {dbg s}

theorem Walk.unique : ∀ {b : Nat} {l l' : List Nat}, Walk dbg s b l → Walk dbg s b l' → l = l'
  | _, [], [], _, _ => rfl
  | _, [], _ :: _, h1, ⟨_, h2, _⟩ => absurd h1 h2.ne
  | _, _ :: _, [], ⟨_, h1, _⟩, h2 => absurd h2 h1.ne
  | _, _ :: _, _ :: _, ⟨h1, _, n, hn, h2⟩, ⟨h3, _, n', hn', h4⟩ => by
    rw [hn] at hn'
    cases hn'
    rw [h1, h3, h2.unique h4]

end Walk

/-! ## The invariant -/

/-- What `mm_heap_alloc` returns for the block of class `c` at page `p`. -/
def payload (p c : Nat) : Nat × Nat := (addr p + sizeofBlock, 2 ^ c * 4096 - sizeofBlock)

/-- The byte lies in the payload of a live allocation. -/
def InPayload (live : List (Nat × Nat)) (x : Nat) : Prop := ∃ a ∈ live, a.1 ≤ x ∧ x < a.1 + a.2

/-- The heap represents a coalesced buddy system whose handed-out blocks are the live allocations. -/
structure Good {σ : Type} (s : HeapState σ) (live : List (Nat × Nat)) (A : St) : Prop where
  sim : Sim s A
  inv : Inv 15 [] A
  coalesced : Coalesced 15 [] A
  owned : ∀ {a}, a ∈ live ↔ ∃ p c, A.blk p = some ⟨c, false⟩ ∧ a = payload p c
  nodup : live.Nodup

/-- A length `mm_heap_alloc` accepts. -/
def Admissible (len : Nat) : Prop := 0 < len ∧ len + sizeofBlock ≤ 2 ^ 27

/-- If no list holds a block for the request, every page the heap then asks for is granted. -/
def GrowsFor {σ : Type} (pg : Paging σ) (len : Nat) (s : HeapState σ) : Prop :=
  (∀ c, freeClassOf len ≤ c → c < blockMaxClass → s.freeList c = 0) → Grows pg s

/-- The heap may grow for the request: there are addresses for it, and in a build that does not check the
mapping, every page is granted. -/
def RoomFor {σ : Type} (dbg : Bool) (pg : Paging σ) (len : Nat) (s : HeapState σ) : Prop :=
  (∀ c, freeClassOf len ≤ c → c < blockMaxClass → s.freeList c = 0) →
    s.heapEnd + 2 ^ 27 < 2 ^ 64 ∧ (dbg = false → MapsAll pg s.heapEnd (2 ^ 15) s.pg)

/-- A call that returned got the pages it asked for: the debug build checks each of them. -/
theorem growsFor_of_ok {σ : Type} {dbg : Bool} {pg : Paging σ} {len : Nat} {s s' : HeapState σ} {r : Nat × Nat}
    (hlen : Admissible len) (hr : RoomFor dbg pg len s) (h : mmHeapAlloc dbg pg len s = .ok r s') :
    GrowsFor pg len s := by
  intro hnull
  obtain ⟨hroom, hmaps⟩ := hr hnull
  cases dbg with
  | false => exact ⟨hroom, hmaps rfl⟩
  | true =>
    obtain ⟨b, s1, h1⟩ := expandHeap_of_mmHeapAlloc true pg hlen.1 hlen.2 hnull h
    exact ⟨hroom, mapsAll_of_expandHeap pg hroom h1⟩

/-- Two address ranges, each a start and a length, share no byte. -/
def Apart (a b : Nat × Nat) : Prop := a.1 + a.2 ≤ b.1 ∨ b.1 + b.2 ≤ a.1

section Good

variable {σ : Type} (dbg : Bool) {pg : Paging σ} {s s' : HeapState σ} {live : List (Nat × Nat)} {A : St}

theorem payload_inj {p q c c' : Nat} (h : payload p c = payload q c') : p = q :=
  addr_inj (Nat.add_right_cancel (Prod.ext_iff.1 h).1)

/-- The end of a payload is the end of its block. -/
theorem payload_end (p c : Nat) : (payload p c).1 + (payload p c).2 = addr (p + 2 ^ c) := by
  have hpos : 0 < 2 ^ c := by positivity
  simp only [payload]
  unfold addr sizeofBlock
  omega

/-- No header has a byte in the payload of a block. -/
theorem payload_not_header {p q c x : Nat} {f : Bool} {b : Blk} (hi : Inv 15 [] A) (hb : A.blk p = some ⟨c, f⟩)
    (hq : A.blk q = some b) (h1 : (payload p c).1 ≤ x) (h2 : x < (payload p c).1 + (payload p c).2) :
    ¬ (addr q ≤ x ∧ x < addr q + sizeofBlock) := by
  rintro ⟨h3, h4⟩
  rw [payload_end] at h2
  simp only [payload] at h1
  unfold addr sizeofBlock at *
  have := hi.tiling.start_unique (St.cls_of_blk hb) (St.cls_of_blk hq) (by omega) (by omega)
  omega

/-- Writes inside live payloads change no header. -/
theorem Good.sameHdr (h : Good s live A) {m : Mem} (hm : SameOff (InPayload live) s.mem m) {q : Nat} {b : Blk}
    (hq : A.blk q = some b) : SameHdr s.mem m q := by
  intro i hi
  refine hm _ ?_
  rintro ⟨a, ha, h1, h2⟩
  obtain ⟨p, c, hb, rfl⟩ := h.owned.1 ha
  exact payload_not_header h.inv hb hq h1 h2 ⟨by omega, by omega⟩

/-- Writes inside live payloads keep the invariant. -/
theorem Good.write (h : Good s live A) {m : Mem} (hm : SameOff (InPayload live) s.mem m) :
    Good { s with mem := m } live A := by
  have hhdr : ∀ {q b}, A.blk q = some b → SameHdr s.mem m q := h.sameHdr hm
  refine ⟨⟨⟨?_, ?_, ?_, ?_⟩, h.sim.heapEnd, h.sim.bound⟩, h.inv, h.coalesced, h.owned, h.nodup⟩
  · intro p c f hb; rw [getClass_congr (hhdr hb)]; exact h.sim.rep.cls hb
  · intro p c f hb; rw [getIsFree_congr (hhdr hb)]; exact h.sim.rep.isFree hb
  · intro p c f hb; rw [getMagic_congr (hhdr hb)]; exact h.sim.rep.magic hb
  · intro c hc
    refine (h.sim.rep.chain c hc).congr fun a ha => ?_
    obtain ⟨q, hq, rfl⟩ := List.mem_map.1 ha
    exact getNextFree_congr (hhdr (h.inv.lists.mem.1 hq).1)

/-- Writing headers of blocks changes no payload. -/
theorem Good.payload_same (h : Good s live A) {S : Nat → Prop} (hS : ∀ q, S q → ∃ k, A.blk q = some k) {m m' : Mem}
    (hm : SameOff (InHeaders S) m m') {x : Nat} (hx : InPayload live x) : m' x = m x := by
  refine hm x ?_
  rintro ⟨q, hq, h1, h2⟩
  obtain ⟨a, ha, h3, h4⟩ := hx
  obtain ⟨p, c, hb, rfl⟩ := h.owned.1 ha
  obtain ⟨k, hk⟩ := hS q hq
  exact payload_not_header h.inv hb hk h3 h4 ⟨h1, h2⟩

/-- An admissible `mm_heap_alloc` does what `Buddy.alloc` does, whatever the lower layers do as long as they return. -/
theorem Good.alloc_expands (h : Good s live A) {len : Nat} (hlen : Admissible len)
    (hg : (∀ c, freeClassOf len ≤ c → c < blockMaxClass → s.freeList c = 0) → Expands dbg pg s) :
    ∃ s', mmHeapAlloc dbg pg len s = .ok (payload (Buddy.alloc 15 (freeClassOf len) A).1 (freeClassOf len)) s' ∧
      Good s' (payload (Buddy.alloc 15 (freeClassOf len) A).1 (freeClassOf len) :: live) (Buddy.alloc 15 (freeClassOf len) A).2 ∧
      len ≤ (payload (Buddy.alloc 15 (freeClassOf len) A).1 (freeClassOf len)).2 ∧
      SameOff (InHeaders fun q => FreeAt (Buddy.alloc 15 (freeClassOf len) A).2 q ∨ q = (Buddy.alloc 15 (freeClassOf len) A).1)
        s.mem s'.mem ∧
      getNextFree s'.mem (addr (Buddy.alloc 15 (freeClassOf len) A).1) = s'.freeList (freeClassOf len) := by
  obtain ⟨s', hs', hsim, hoff, hnext⟩ := mmHeapAlloc_run dbg pg hlen.1 hlen.2 h.sim h.inv h.coalesced fun hall =>
    hg fun c h1 h2 => h.sim.rep.head_nil h2 (hall c h1 (by unfold blockMaxClass at h2; omega))
  obtain ⟨hc, hfit, -⟩ := freeClassOf_spec hlen.1 hlen.2
  have ha := alloc_allocated h.inv h.coalesced (c := freeClassOf len) (by unfold blockMaxClass at hc; omega)
  refine ⟨s', hs', ⟨hsim, ha.inv, ha.coalesced, ?_, ?_⟩, by simp only [payload]; omega, hoff, hnext⟩
  · intro a
    rw [List.mem_cons, h.owned]
    constructor
    · rintro (rfl | ⟨p, c, hb, rfl⟩)
      · exact ⟨_, _, ha.blk, rfl⟩
      · exact ⟨p, c, (ha.live (fun e => ha.fresh c (e ▸ hb))).2 hb, rfl⟩
    · rintro ⟨p, c, hb, rfl⟩
      by_cases e : p = (Buddy.alloc 15 (freeClassOf len) A).1
      · left
        rw [e, ha.blk] at hb
        have hcls : freeClassOf len = c := congrArg Blk.cls (Option.some.inj hb)
        rw [e, hcls]
      · exact .inr ⟨p, c, (ha.live e).1 hb, rfl⟩
  · refine List.nodup_cons.2 ⟨fun hm => ?_, h.nodup⟩
    obtain ⟨p, c, hb, e⟩ := h.owned.1 hm
    exact ha.fresh c (payload_inj e ▸ hb)

theorem Good.alloc_run (h : Good s live A) {len : Nat} (hlen : Admissible len) (hg : GrowsFor pg len s) :
    ∃ s', mmHeapAlloc dbg pg len s = .ok (payload (Buddy.alloc 15 (freeClassOf len) A).1 (freeClassOf len)) s' ∧
      Good s' (payload (Buddy.alloc 15 (freeClassOf len) A).1 (freeClassOf len) :: live) (Buddy.alloc 15 (freeClassOf len) A).2 ∧
      len ≤ (payload (Buddy.alloc 15 (freeClassOf len) A).1 (freeClassOf len)).2 ∧
      SameOff (InHeaders fun q => FreeAt (Buddy.alloc 15 (freeClassOf len) A).2 q ∨ q = (Buddy.alloc 15 (freeClassOf len) A).1)
        s.mem s'.mem ∧
      getNextFree s'.mem (addr (Buddy.alloc 15 (freeClassOf len) A).1) = s'.freeList (freeClassOf len) :=
  h.alloc_expands dbg hlen fun hnull => (hg hnull).expands dbg pg

/-- An admissible `mm_heap_alloc` returns a block that holds the request and that no live allocation
has; it writes its header and headers of blocks that are free afterwards, no live payload. -/
theorem Good.alloc (h : Good s live A) {len : Nat} (hlen : Admissible len) (hg : GrowsFor pg len s) :
    ∃ p s' A', mmHeapAlloc dbg pg len s = .ok (payload p (freeClassOf len)) s' ∧
      Good s' (payload p (freeClassOf len) :: live) A' ∧ A'.blk p = some ⟨freeClassOf len, false⟩ ∧
      len ≤ (payload p (freeClassOf len)).2 ∧ SameOff (InHeaders fun q => FreeAt A' q ∨ q = p) s.mem s'.mem ∧
      (∀ x, InPayload live x → s'.mem x = s.mem x) ∧ s'.heapEnd ≤ s.heapEnd + 2 ^ 27 := by
  obtain ⟨s', hs', hgood, hfit, hoff, -⟩ := h.alloc_run dbg hlen hg
  obtain ⟨hc, -, -⟩ := freeClassOf_spec hlen.1 hlen.2
  have ha := alloc_allocated h.inv h.coalesced (c := freeClassOf len) (by unfold blockMaxClass at hc; omega)
  refine ⟨_, s', _, hs', hgood, ha.blk, hfit, hoff, ?_, ?_⟩
  · rintro x ⟨a, hla, hx⟩
    refine hgood.payload_same ?_ hoff ⟨a, List.mem_cons_of_mem _ hla, hx⟩
    rintro q (⟨c, hq⟩ | rfl)
    · exact ⟨_, hq⟩
    · exact ⟨_, ha.blk⟩
  · have hpages : (Buddy.alloc 15 (freeClassOf len) A).2.pages ≤ A.pages + 2 ^ 15 := by
      rw [alloc_pages]
      exact take_pages_le A _ _
    rw [hgood.sim.heapEnd, h.sim.heapEnd]
    unfold addr
    omega

/-- `mm_heap_free` of a live pointer does what `Buddy.release` does. -/
theorem Good.free_run (h : Good s live A) {p c : Nat} (hb : A.blk p = some ⟨c, false⟩) :
    ∃ s', mmHeapFree dbg (payload p c).1 s = .ok () s' ∧ Good s' (live.erase (payload p c)) (Buddy.release 15 p A) ∧
      SameOff (InHeaders fun q => FreeAt A q ∨ q = p) s.mem s'.mem := by
  obtain ⟨s', hs', hsim, hoff, -⟩ := mmHeapFree_run dbg h.sim h.inv h.coalesced hb
  have hr := release_released h.inv h.coalesced hb
  refine ⟨s', hs', ⟨hsim, hr.inv, hr.coalesced, ?_, h.nodup.erase _⟩, hoff⟩
  intro a
  rw [h.nodup.mem_erase_iff, h.owned]
  constructor
  · rintro ⟨hne, q, c', hq, rfl⟩
    refine ⟨q, c', hr.live.2 ⟨hq, ?_⟩, rfl⟩
    rintro rfl
    rw [hb] at hq
    injection hq with hq; injection hq with hq
    exact hne (by rw [hq])
  · rintro ⟨q, c', hq, rfl⟩
    obtain ⟨hq, hne⟩ := hr.live.1 hq
    exact ⟨fun e => hne (payload_inj e), q, c', hq, rfl⟩

/-- `mm_heap_free` of a live pointer returns; it writes the header of the block and headers of blocks
that were free before, and no other live payload. -/
theorem Good.free (h : Good s live A) {p c : Nat} (hb : A.blk p = some ⟨c, false⟩) :
    ∃ s' A', mmHeapFree dbg (payload p c).1 s = .ok () s' ∧ Good s' (live.erase (payload p c)) A' ∧
      SameOff (InHeaders fun q => FreeAt A q ∨ q = p) s.mem s'.mem ∧
      (∀ x, InPayload (live.erase (payload p c)) x → s'.mem x = s.mem x) ∧ s'.heapEnd = s.heapEnd := by
  obtain ⟨s', hs', hgood, hoff⟩ := h.free_run dbg hb
  have hr := release_released h.inv h.coalesced hb
  refine ⟨s', _, hs', hgood, hoff, ?_, by rw [hgood.sim.heapEnd, hr.pages, h.sim.heapEnd]⟩
  rintro x ⟨a, ha, hx⟩
  refine h.payload_same ?_ hoff ⟨a, List.mem_of_mem_erase ha, hx⟩
  rintro q (⟨c', hq⟩ | rfl)
  · exact ⟨_, hq⟩
  · exact ⟨_, hb⟩

theorem Good.apart_of_ne (h : Good s live A) {a b : Nat × Nat} (ha : a ∈ live) (hb : b ∈ live) (hne : a ≠ b) :
    Apart a b := by
  obtain ⟨p, c, hp, rfl⟩ := h.owned.1 ha
  obtain ⟨q, c', hq, rfl⟩ := h.owned.1 hb
  unfold Apart
  rw [payload_end, payload_end]
  simp only [payload]
  unfold addr
  rcases Nat.lt_trichotomy p q with hlt | rfl | hlt
  · have := h.inv.tiling.disj (St.cls_of_blk hp) (St.cls_of_blk hq) hlt
    omega
  · rw [hp] at hq
    injection hq with hq; injection hq with hq
    exact absurd (by rw [hq]) hne
  · have := h.inv.tiling.disj (St.cls_of_blk hq) (St.cls_of_blk hp) hlt
    omega

/-- No header has a byte in a live payload. -/
theorem Good.apart_header (h : Good s live A) {a : Nat × Nat} (ha : a ∈ live) {q : Nat} {k : Blk}
    (hq : A.blk q = some k) : Apart a (addr q, sizeofBlock) := by
  obtain ⟨p, c, hp, rfl⟩ := h.owned.1 ha
  have hpos : 0 < 2 ^ c := by positivity
  have hlen : 0 < (payload p c).2 := by simp only [payload]; unfold sizeofBlock; omega
  have hsz : sizeofBlock = 24 := rfl
  by_contra hn
  unfold Apart at hn
  simp only at hn
  refine payload_not_header h.inv hp hq (x := max (payload p c).1 (addr q)) (by omega) (by omega)
    ⟨by omega, by omega⟩

theorem Good.apart (h : Good s live A) : live.Pairwise Apart :=
  h.nodup.pairwise_of_forall_ne fun _ ha _ hb hne => h.apart_of_ne ha hb hne

/-- Size and alignment of a payload. -/
theorem Good.payload_spec (h : Good s live A) {a : Nat × Nat} (ha : a ∈ live) :
    a.1 % 8 = 0 ∧ a.2 % 8 = 0 ∧ 4072 ≤ a.2 ∧ a.2 ≤ 2 ^ 27 ∧ a.1 + a.2 < 2 ^ 64 ∧ a.1 ≠ 0 ∧
      (a.1 + a.2) % 4096 = 0 := by
  obtain ⟨p, c, hp, rfl⟩ := h.owned.1 ha
  have hlt := h.sim.addr_lt h.inv hp
  have hsz := size_lt (Nat.lt_succ_of_le (h.inv.clsLe hp) : c < blockMaxClass)
  have hpos : 0 < 2 ^ c := by positivity
  have he := va48Heap_eq
  simp only [payload]
  unfold addr sizeofBlock at *
  omega

/-- A live allocation is determined by its pointer. -/
theorem Good.eq_of_fst (h : Good s live A) {a b : Nat × Nat} (ha : a ∈ live) (hb : b ∈ live) (e : a.1 = b.1) : a = b := by
  by_contra hne
  have h1 := h.apart_of_ne ha hb hne
  have h2 := h.payload_spec ha
  have h3 := h.payload_spec hb
  unfold Apart at h1
  omega

/-- The header before a payload tells where it ends. -/
theorem Good.payload_class (h : Good s live A) {b : Nat} {a : Nat × Nat} (ha : a ∈ live) (hb : a.1 = b + sizeofBlock) :
    a.1 + a.2 = b + 2 ^ getClass s.mem b * 4096 := by
  obtain ⟨p, c, hp, rfl⟩ := h.owned.1 ha
  obtain rfl : addr p = b := Nat.add_right_cancel hb
  rw [h.sim.rep.cls hp, payload_end]
  unfold addr
  omega

/-- There are no more allocations than pages. -/
theorem Good.length_le (h : Good s live A) : live.length ≤ (s.heapEnd - va48Heap) / pageSize4K := by
  have hpage : ∀ p c, ((payload p c).1 - va48Heap) / 4096 = p := by
    intro p c; simp only [payload]; unfold addr sizeofBlock; omega
  have hnd : (live.map fun a => (a.1 - va48Heap) / 4096).Nodup := by
    refine List.Nodup.map_on (fun a ha b hb e => ?_) h.nodup
    obtain ⟨p, c, hp, rfl⟩ := h.owned.1 ha
    obtain ⟨q, c', hq, rfl⟩ := h.owned.1 hb
    rw [hpage, hpage] at e
    subst e
    rw [hp] at hq
    injection hq with hq; injection hq with hq
    rw [hq]
  have hsub : (live.map fun a => (a.1 - va48Heap) / 4096) ⊆ List.range A.pages := by
    intro x hx
    obtain ⟨a, ha, rfl⟩ := List.mem_map.1 hx
    obtain ⟨p, c, hp, rfl⟩ := h.owned.1 ha
    have hpos : 0 < 2 ^ c := by positivity
    have := h.inv.lt hp
    rw [hpage, List.mem_range]
    omega
  have := (hnd.subperm hsub).length_le
  rw [List.length_map, List.length_range] at this
  rwa [h.sim.pages_eq]

theorem Good.inside (h : Good s live A) {a : Nat × Nat} (ha : a ∈ live) :
    va48Heap ≤ a.1 ∧ a.1 + a.2 ≤ s.heapEnd := by
  obtain ⟨p, c, hp, rfl⟩ := h.owned.1 ha
  have := h.inv.lt hp
  rw [payload_end, h.sim.heapEnd]
  simp only [payload]
  unfold addr
  omega

/-- The walk over the headers meets the blocks of the buddy system. -/
theorem Good.walk_from (h : Good s live A) : ∀ (n p : Nat), A.pages = p + n →
    (p < A.pages → ∃ b, A.blk p = some b) →
    ∃ bs, Walk dbg s (addr p) bs ∧ ∀ b, b ∈ bs ↔ ∃ q k, p ≤ q ∧ A.blk q = some k ∧ b = addr q := by
  intro n
  induction n using Nat.strong_induction_on with
  | _ n ih =>
    intro p hn hp
    have hend := h.sim.heapEnd
    by_cases h0 : n = 0
    · refine ⟨[], by rw [Walk, hend, hn, h0, Nat.add_zero], fun b => ?_⟩
      simp only [List.not_mem_nil, false_iff]
      rintro ⟨q, k, hq, hk, -⟩
      have := h.inv.lt hk
      have hpos : 0 < 2 ^ k.cls := by positivity
      omega
    · obtain ⟨⟨c, f⟩, hb⟩ := hp (by omega)
      have hpos : 0 < 2 ^ c := by positivity
      have hle := h.inv.lt hb
      have hc : c < blockMaxClass := Nat.lt_succ_of_le (h.inv.clsLe hb)
      obtain ⟨bs, hw, hmem⟩ := ih (n - 2 ^ c) (by omega) (p + 2 ^ c) (by omega) fun hlt => by
        obtain ⟨c', hc'⟩ := h.inv.tiling.next (St.cls_of_blk hb) hlt
        obtain ⟨f', hf'⟩ := St.blk_of_cls hc'
        exact ⟨_, hf'⟩
      refine ⟨addr p :: bs, ⟨rfl, ?_, 2 ^ c * 4096, ?_, ?_⟩, fun b => ?_⟩
      · rw [hend]; unfold addr; omega
      · rw [h.sim.rep.cls hb]; exact sizeOfClass_run dbg hc s
      · rwa [show addr p + 2 ^ c * 4096 = addr (p + 2 ^ c) by unfold addr; omega]
      · rw [List.mem_cons, hmem]
        constructor
        · rintro (rfl | ⟨q, k, hq, hk, rfl⟩)
          · exact ⟨p, _, le_rfl, hb, rfl⟩
          · exact ⟨q, k, by omega, hk, rfl⟩
        · rintro ⟨q, k, hq, hk, rfl⟩
          rcases Nat.eq_or_lt_of_le hq with rfl | hlt
          · exact .inl rfl
          · exact .inr ⟨q, k, h.inv.tiling.disj (St.cls_of_blk hb) (St.cls_of_blk hk) hlt, hk, rfl⟩

theorem Good.walk (h : Good s live A) :
    ∃ bs, Walk dbg s va48Heap bs ∧ ∀ b, b ∈ bs ↔ ∃ q k, A.blk q = some k ∧ b = addr q := by
  obtain ⟨bs, hw, hmem⟩ := h.walk_from dbg A.pages 0 (by omega) fun h0 => by
    obtain ⟨c, hc⟩ := h.inv.tiling.first h0
    obtain ⟨f, hf⟩ := St.blk_of_cls hc
    exact ⟨_, hf⟩
  exact ⟨bs, hw, fun b => by simpa using hmem b⟩

theorem Good.isBlock (h : Good s live A) {b : Nat} : IsBlock dbg s b ↔ ∃ q k, A.blk q = some k ∧ b = addr q := by
  obtain ⟨bs, hw, hmem⟩ := h.walk dbg
  constructor
  · rintro ⟨bs', hw', hb⟩
    rw [hw'.unique hw] at hb
    exact (hmem b).1 hb
  · exact fun hb => ⟨bs, hw, (hmem b).2 hb⟩

theorem Good.isFreeBlock (h : Good s live A) {c b : Nat} :
    IsFreeBlock dbg s c b ↔ ∃ q, A.blk q = some ⟨c, true⟩ ∧ b = addr q := by
  unfold IsFreeBlock
  rw [h.isBlock dbg]
  constructor
  · rintro ⟨⟨q, ⟨c', f⟩, hq, rfl⟩, hf, hc⟩
    rw [h.sim.rep.isFree hq] at hf
    rw [h.sim.rep.cls hq] at hc
    exact ⟨q, by rw [hq, hf, hc], rfl⟩
  · rintro ⟨q, hq, rfl⟩
    exact ⟨⟨q, _, hq, rfl⟩, h.sim.rep.isFree hq, h.sim.rep.cls hq⟩

theorem Good.isLiveBlock (h : Good s live A) {b : Nat} :
    IsLiveBlock dbg s b ↔ ∃ a ∈ live, a.1 = b + sizeofBlock := by
  unfold IsLiveBlock
  rw [h.isBlock dbg]
  constructor
  · rintro ⟨⟨q, ⟨c, f⟩, hq, rfl⟩, hf⟩
    rw [h.sim.rep.isFree hq] at hf
    exact ⟨payload q c, h.owned.2 ⟨q, c, hf ▸ hq, rfl⟩, rfl⟩
  · rintro ⟨a, ha, hab⟩
    obtain ⟨p, c, hp, rfl⟩ := h.owned.1 ha
    obtain rfl : addr p = b := Nat.add_right_cancel hab
    exact ⟨⟨p, _, hp, rfl⟩, h.sim.rep.isFree hp⟩

/-- The pages of an allocation that was given back lie in a free block, as long as nothing else was
allocated. -/
theorem Good.inFreeBlock (h : Good s live A) {live' : List (Nat × Nat)} {A' : St} (h' : Good s' live' A')
    (hsub : ∀ x ∈ live', x ∈ live) (hend : s'.heapEnd = s.heapEnd) {a : Nat × Nat} (ha : a ∈ live) (hn : a ∉ live')
    {x : Nat} (hx1 : a.1 ≤ x + sizeofBlock) (hx2 : x < a.1 + a.2) : InFreeBlock dbg s' x := by
  obtain ⟨p, c, hp, rfl⟩ := h.owned.1 ha
  have hlt := h.inv.lt hp
  rw [payload_end] at hx2
  simp only [payload] at hx1
  rw [h.sim.heapEnd, h'.sim.heapEnd] at hend
  have hpages := addr_inj hend
  -- the page of the address, in its block before and in its block after
  obtain ⟨r, hr1, hr2⟩ : ∃ r, addr r ≤ x ∧ x < addr r + 4096 :=
    ⟨(x - va48Heap) / 4096, by unfold addr at *; omega, by unfold addr; omega⟩
  have hpr : p ≤ r ∧ r < p + 2 ^ c := by unfold addr at *; omega
  obtain ⟨q, c', hq, h1, h2⟩ := h'.inv.tiling.cover r (by omega)
  obtain ⟨f, hq⟩ := St.blk_of_cls hq
  cases f with
  | true =>
    refine ⟨c', addr q, (h'.isFreeBlock dbg).2 ⟨q, hq, rfl⟩, ?_, ?_⟩ <;> unfold addr at * <;> omega
  | false =>
    -- a block handed out now was handed out then, so it is the same block
    obtain ⟨q', c'', hq', e⟩ := h.owned.1 (hsub _ (h'.owned.2 ⟨q, c', hq, rfl⟩))
    obtain rfl := payload_inj e
    have hc : c' = c'' := by
      have := congrArg Prod.snd e
      simp only [payload] at this
      have h3 : 0 < 2 ^ c' := by positivity
      have h4 : 0 < 2 ^ c'' := by positivity
      unfold sizeofBlock at this
      exact Nat.pow_right_injective le_rfl (by simp only; omega)
    subst hc
    obtain rfl : p = q := by
      rcases Nat.lt_trichotomy p q with hlt | e | hlt
      · have := h.inv.tiling.disj (St.cls_of_blk hp) (St.cls_of_blk hq') hlt
        omega
      · exact e
      · have := h.inv.tiling.disj (St.cls_of_blk hq') (St.cls_of_blk hp) hlt
        omega
    rw [hp] at hq'
    injection hq' with hq'; injection hq' with hq'
    subst hq'
    exact absurd (h'.owned.2 ⟨_, _, hq, rfl⟩) hn

end Good

/-! ## Runs -/

section Reach

variable {σ : Type} (dbg : Bool) (pg : Paging σ)

/-- The states of the heap reached from `mm_heap_bootstrap`, with the live allocations: the pointer
and the length each `mm_heap_alloc` returned. -/
inductive Reach : HeapState σ → List (Nat × Nat) → Prop
  | boot {s s' : HeapState σ} : mmHeapBootstrap s = .ok () s' → Reach s' []
  | alloc {s s' : HeapState σ} {live : List (Nat × Nat)} {len : Nat} {a : Nat × Nat} : Reach s live →
      Admissible len → GrowsFor pg len s → mmHeapAlloc dbg pg len s = .ok a s' → Reach s' (a :: live)
  | free {s s' : HeapState σ} {live : List (Nat × Nat)} {a : Nat × Nat} : Reach s live → a ∈ live →
      mmHeapFree dbg a.1 s = .ok () s' → Reach s' (live.erase a)
  | write {s : HeapState σ} {live : List (Nat × Nat)} {x : Nat} {v : UInt8} : Reach s live → InPayload live x →
      Reach { s with mem := put s.mem x v } live

variable {dbg pg} {s : HeapState σ} {live : List (Nat × Nat)}

theorem good_boot {s s' : HeapState σ} (hs : mmHeapBootstrap s = .ok () s') : Good s' [] Buddy.empty := by
  have he := va48Heap_eq
  unfold mmHeapBootstrap at hs
  rw [Exec.modify_run] at hs
  cases hs
  refine ⟨⟨⟨nofun, nofun, nofun, fun c hc => ?_⟩, rfl, by simp only; omega⟩, inv_empty 15, coalesced_empty 15, ?_,
    List.nodup_nil⟩
  · simp only [Buddy.empty, List.map_nil, chain_nil, if_pos hc]
  · simp [Buddy.empty]

theorem Reach.good (h : Reach dbg pg s live) : ∃ A, Good s live A := by
  induction h with
  | boot hs => exact ⟨_, good_boot hs⟩
  | alloc _ hlen hg hs ih =>
    obtain ⟨A, h⟩ := ih
    obtain ⟨p, s', A', hs', h', -⟩ := h.alloc dbg hlen hg
    rw [hs] at hs'
    cases hs'
    exact ⟨A', h'⟩
  | free _ ha hs ih =>
    obtain ⟨A, h⟩ := ih
    obtain ⟨p, c, hb, rfl⟩ := h.owned.1 ha
    obtain ⟨s', A', hs', h', -⟩ := h.free dbg hb
    rw [hs] at hs'
    cases hs'
    exact ⟨A', h'⟩
  | write _ hx ih =>
    obtain ⟨A, h⟩ := ih
    exact ⟨A, h.write (sameOff_put hx)⟩

/-! ## A concrete run

The heap over a frame allocator that never runs out, booted on zeroed memory: one request of 100 bytes,
which grows the heap, and then its return. -/

/-- Frames in ascending order; every mapping succeeds. -/
def countingPaging : Paging Nat where
  mmFrameAlloc := fun n => .ok (some ((n + 1) * pageSize4K)) (n + 1)
  mmPageMap := fun _ _ n => .ok true n

theorem mapsAll_counting : ∀ n va t, MapsAll countingPaging va n t
  | 0, _, _ => trivial
  | n + 1, va, t => ⟨(t + 1) * pageSize4K, t + 1, t + 1, rfl, by unfold pageSize4K; omega, rfl, mapsAll_counting n _ _⟩

theorem growsFor_counting {s : HeapState Nat} {len : Nat} (h : s.heapEnd + 2 ^ 27 < 2 ^ 64) : GrowsFor countingPaging len s :=
  fun _ => ⟨h, mapsAll_counting _ _ _⟩

theorem reach_boot : ∃ s, Reach true countingPaging s [] ∧ s.heapEnd = va48Heap :=
  ⟨_, .boot (s := ⟨fun _ => 0, fun _ => 0, 0, 0⟩) rfl, rfl⟩

theorem admissible_100 : Admissible 100 := by unfold Admissible sizeofBlock; omega

/-- One more request of 100 bytes. -/
theorem reach_more {s : HeapState Nat} {live : List (Nat × Nat)} (h : Reach true countingPaging s live)
    (hend : s.heapEnd ≤ va48Heap + 2 ^ 27) : ∃ a s', Reach true countingPaging s' (a :: live) ∧
    s'.heapEnd ≤ s.heapEnd + 2 ^ 27 := by
  obtain ⟨A, hgood⟩ := h.good
  have he := va48Heap_eq
  have hg : GrowsFor countingPaging 100 s := growsFor_counting (by omega)
  obtain ⟨p, s', A', hs', -, -, -, -, -, hgrow⟩ := hgood.alloc true admissible_100 hg
  exact ⟨_, s', h.alloc admissible_100 hg hs', hgrow⟩

theorem reach_alloc : ∃ s a, Reach true countingPaging s [a] := by
  obtain ⟨s, h₀, hend⟩ := reach_boot
  obtain ⟨a, s', h, -⟩ := reach_more h₀ (by omega)
  exact ⟨s', a, h⟩

/-- Two requests. -/
theorem reach_two : ∃ s a b, Reach true countingPaging s [b, a] ∧ a.1 ≠ b.1 := by
  obtain ⟨s, h₀, hend⟩ := reach_boot
  obtain ⟨a, s₁, h₁, hend₁⟩ := reach_more h₀ (by omega)
  obtain ⟨b, s₂, h₂, -⟩ := reach_more h₁ (by omega)
  obtain ⟨A, hgood⟩ := h₂.good
  refine ⟨s₂, a, b, h₂, fun e => (List.nodup_cons.1 hgood.nodup).1 ?_⟩
  rw [← hgood.eq_of_fst (List.mem_cons_of_mem _ (List.mem_singleton_self a)) (List.mem_cons_self ..) e]
  exact List.mem_singleton_self a

theorem reach_alloc_free : ∃ s a, Reach true countingPaging s [a] ∧
    ∃ s', mmHeapFree true a.1 s = .ok () s' ∧ Reach true countingPaging s' [] := by
  obtain ⟨s, a, h⟩ := reach_alloc
  obtain ⟨A, hgood⟩ := h.good
  obtain ⟨p, c, hb, rfl⟩ := hgood.owned.1 (List.mem_singleton_self a)
  obtain ⟨s', A', hs', -⟩ := hgood.free true hb
  refine ⟨s, _, h, s', hs', ?_⟩
  simpa using h.free (List.mem_singleton_self _) hs'

/-! ## Every run -/

/-- In every reached state the headers tile the heap, every free list holds the free blocks of its class
once, and no call of the users fails an assertion. -/
theorem heap_invariant (h : Reach dbg pg s live) :
    (∃ bs, Walk dbg s va48Heap bs ∧ ∀ b ∈ bs, getMagic s.mem b = blockMagic ∧ getClass s.mem b < blockMaxClass ∧
      ∃ n, sizeOfClass dbg (getClass s.mem b) s = .ok n s ∧ n ∣ b - va48Heap) ∧
    (∀ c < blockMaxClass, ∃ l, Chain 0 (getNextFree s.mem) (s.freeList c) l ∧ l.Nodup ∧
      ∀ b, b ∈ l ↔ IsFreeBlock dbg s c b) ∧
    (∀ len, Admissible len → GrowsFor pg len s → ∃ a s', mmHeapAlloc dbg pg len s = .ok a s') ∧
    (∀ a ∈ live, ∃ s', mmHeapFree dbg a.1 s = .ok () s') := by
  obtain ⟨A, h⟩ := h.good
  refine ⟨?_, ?_, ?_, ?_⟩
  · obtain ⟨bs, hw, hmem⟩ := h.walk dbg
    refine ⟨bs, hw, fun b hb => ?_⟩
    obtain ⟨q, ⟨c, f⟩, hq, rfl⟩ := (hmem b).1 hb
    have hc : c < blockMaxClass := Nat.lt_succ_of_le (h.inv.clsLe hq)
    rw [h.sim.rep.magic hq, h.sim.rep.cls hq]
    refine ⟨rfl, hc, 2 ^ c * 4096, sizeOfClass_run dbg hc s, ?_⟩
    rw [show addr q - va48Heap = q * 4096 by unfold addr; omega]
    exact Nat.mul_dvd_mul_right (h.inv.dvd hq) 4096
  · intro c hc
    refine ⟨_, h.sim.rep.chain c hc, (h.inv.lists.nodup c).map fun _ _ => addr_inj, fun b => ?_⟩
    rw [h.isFreeBlock dbg, List.mem_map]
    constructor
    · rintro ⟨q, hq, rfl⟩; exact ⟨q, (h.inv.lists.mem.1 hq).1, rfl⟩
    · rintro ⟨q, hq, rfl⟩; exact ⟨q, h.inv.lists.mem.2 ⟨hq, List.not_mem_nil⟩, rfl⟩
  · intro len hlen hg
    obtain ⟨p, s', A', hs', -⟩ := h.alloc dbg hlen hg
    exact ⟨_, s', hs'⟩
  · intro a ha
    obtain ⟨p, c, hb, rfl⟩ := h.owned.1 ha
    obtain ⟨s', A', hs', -⟩ := h.free dbg hb
    exact ⟨s', hs'⟩

theorem heap_invariant_alloc : ∃ s a, Reach true countingPaging s [a] ∧ (∃ bs, Walk true s va48Heap bs) ∧
    ∃ s', mmHeapFree true a.1 s = .ok () s' := by
  obtain ⟨s, a, h⟩ := reach_alloc
  obtain ⟨⟨bs, hw, -⟩, -, -, hfree⟩ := heap_invariant h
  exact ⟨s, a, h, ⟨bs, hw⟩, hfree a (List.mem_singleton_self a)⟩

/-- A call that took `s` to `s'` wrote headers only: of blocks free before or after it, or of the block
with the payload `u`. -/
def WroteHeaders (dbg : Bool) (s s' : HeapState σ) (u : Nat) : Prop :=
  ∀ x, s'.mem x ≠ s.mem x → ∃ b, b ≤ x ∧ x < b + sizeofBlock ∧
    ((∃ c, IsFreeBlock dbg s c b) ∨ (∃ c, IsFreeBlock dbg s' c b) ∨ b + sizeofBlock = u)

theorem wroteHeaders {s' : HeapState σ} {S : Nat → Prop} {u : Nat} (hm : SameOff (InHeaders S) s.mem s'.mem)
    (hS : ∀ q, S q → (∃ c, IsFreeBlock dbg s c (addr q)) ∨ (∃ c, IsFreeBlock dbg s' c (addr q)) ∨
      addr q + sizeofBlock = u) : WroteHeaders dbg s s' u := by
  intro x hx
  by_contra hn
  refine hx (hm x ?_)
  rintro ⟨q, hq, h1, h2⟩
  exact hn ⟨addr q, h1, h2, hS q hq⟩

/-- The payloads of live allocations are apart, inside the heap and free of headers, and no call
changes a byte of a payload that is live before and after it. -/
theorem allocations_never_interfere (h : Reach dbg pg s live) :
    live.Pairwise Apart ∧
    (∀ a ∈ live, va48Heap ≤ a.1 ∧ a.1 + a.2 ≤ s.heapEnd ∧ ∀ b, IsBlock dbg s b → Apart a (b, sizeofBlock)) ∧
    (∀ len a s', Admissible len → GrowsFor pg len s → mmHeapAlloc dbg pg len s = .ok a s' →
      (∀ x, InPayload live x → s'.mem x = s.mem x) ∧ WroteHeaders dbg s s' a.1) ∧
    (∀ a ∈ live, ∀ s', mmHeapFree dbg a.1 s = .ok () s' →
      (∀ x, InPayload (live.erase a) x → s'.mem x = s.mem x) ∧ WroteHeaders dbg s s' a.1) := by
  obtain ⟨A, h⟩ := h.good
  refine ⟨h.apart, ?_, ?_, ?_⟩
  · intro a ha
    refine ⟨(h.inside ha).1, (h.inside ha).2, fun b hb => ?_⟩
    obtain ⟨q, k, hq, rfl⟩ := (h.isBlock dbg).1 hb
    exact h.apart_header ha hq
  · intro len a s' hlen hg hs
    obtain ⟨p, s'', A', hs', h', hb, -, hoff, hsame, -⟩ := h.alloc dbg hlen hg
    rw [hs] at hs'
    cases hs'
    refine ⟨hsame, wroteHeaders hoff ?_⟩
    rintro q (⟨c', hq⟩ | rfl)
    · exact .inr (.inl ⟨c', (h'.isFreeBlock dbg).2 ⟨q, hq, rfl⟩⟩)
    · exact .inr (.inr rfl)
  · intro a ha s' hs
    obtain ⟨p, c, hb, rfl⟩ := h.owned.1 ha
    obtain ⟨s'', A', hs', h', hoff, hsame, -⟩ := h.free dbg hb
    rw [hs] at hs'
    cases hs'
    refine ⟨hsame, wroteHeaders hoff ?_⟩
    rintro q (⟨c', hq⟩ | rfl)
    · exact .inl ⟨c', (h.isFreeBlock dbg).2 ⟨q, hq, rfl⟩⟩
    · exact .inr (.inr rfl)

theorem allocations_never_interfere_two : ∃ s a b s', Reach true countingPaging s [b, a] ∧ Apart b a ∧
    mmHeapFree true b.1 s = .ok () s' ∧ (∀ x, InPayload [a] x → s'.mem x = s.mem x) ∧ WroteHeaders true s s' b.1 := by
  obtain ⟨s, a, b, h, -⟩ := reach_two
  obtain ⟨A, hgood⟩ := h.good
  obtain ⟨hapart, -, -, hfree⟩ := allocations_never_interfere h
  have hb : b ∈ [b, a] := List.mem_cons_self ..
  obtain ⟨p, c, hblk, rfl⟩ := hgood.owned.1 hb
  obtain ⟨s', A', hs', -⟩ := hgood.free true hblk
  obtain ⟨hsame, hwrote⟩ := hfree _ hb s' hs'
  rw [List.erase_cons_head] at hsame
  exact ⟨s, a, _, s', h, (List.pairwise_cons.1 hapart).1 a (List.mem_singleton_self a), hs', hsame, hwrote⟩

/-- No two buddies are both free; with nothing allocated, the heap is one list of top-class blocks. -/
theorem maximal_coalescing (h : Reach dbg pg s live) :
    (∀ c < 15, ∀ q, 2 ^ (c + 1) * 4096 ∣ q →
      ¬ (IsFreeBlock dbg s c (va48Heap + q) ∧ IsFreeBlock dbg s c (va48Heap + q + 2 ^ c * 4096))) ∧
    (live = [] → (∀ c < 15, s.freeList c = 0) ∧ ∃ l, Chain 0 (getNextFree s.mem) (s.freeList 15) l ∧ l.Nodup ∧
      l.length = (s.heapEnd - va48Heap) / 2 ^ 27) := by
  obtain ⟨A, h⟩ := h.good
  constructor
  · rintro c hc q ⟨k, rfl⟩ ⟨h1, h2⟩
    obtain ⟨p, hp, e1⟩ := (h.isFreeBlock dbg).1 h1
    obtain ⟨p', hp', e2⟩ := (h.isFreeBlock dbg).1 h2
    have hpk : p = 2 ^ (c + 1) * k := by unfold addr at e1; rw [Nat.mul_right_comm] at e1; omega
    have hpk' : p' = p + 2 ^ c := by unfold addr at e1 e2; omega
    have hd : 2 ^ (c + 1) ∣ p := hpk ▸ Nat.dvd_mul_right ..
    have := h.coalesced p c hc hp (by rw [buddy_lower hd, ← hpk']; exact hp')
    simp at this
  · rintro rfl
    have hnone : ∀ p c, A.blk p ≠ some ⟨c, false⟩ := by
      intro p c hb
      have := h.owned.2 ⟨p, c, hb, rfl⟩
      simp at this
    refine ⟨fun c hc => ?_, _, h.sim.rep.chain 15 (by decide), (h.inv.lists.nodup 15).map fun _ _ => addr_inj, ?_⟩
    · refine h.sim.rep.head_nil (by unfold blockMaxClass; omega) (List.eq_nil_iff_forall_not_mem.2 fun q hq => ?_)
      have e := all_top h.inv h.coalesced hnone (h.inv.lists.mem.1 hq).1
      injection e with e
      omega
    · rw [List.length_map, all_top_length h.inv h.coalesced hnone, h.sim.heapEnd]
      unfold addr
      rw [Nat.add_sub_cancel_left, show (2 ^ 27 : Nat) = 4096 * 2 ^ 15 by norm_num,
        Nat.mul_div_mul_left _ _ (by norm_num)]

theorem maximal_coalescing_alloc_free : ∃ s, Reach true countingPaging s [] ∧ (∀ c < 15, s.freeList c = 0) ∧
    ∃ l, Chain 0 (getNextFree s.mem) (s.freeList 15) l ∧ l.length = (s.heapEnd - va48Heap) / 2 ^ 27 := by
  obtain ⟨-, -, -, s', -, h⟩ := reach_alloc_free
  obtain ⟨h1, l, h2, -, h3⟩ := (maximal_coalescing h).2 rfl
  exact ⟨s', h, h1, l, h2, h3⟩

end Reach

end Cing.Heap
