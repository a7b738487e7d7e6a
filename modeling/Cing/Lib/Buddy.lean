/-
The binary buddy system: blocks of power-of-two size with one free list per class. A block of the
wanted class is popped, or cut out of a larger one, or comes from growing the heap; a returned block
is joined with its buddy as long as the buddy is free. Between two of these steps at most one free
block is on no list: it is "in hand".

`Inv` is the tiling together with the free lists; `Coalesced` says that no two buddies are both free.
-/
import Cing.Lib.Dyadic

namespace Buddy

open Dyadic

/-- A block: its class and whether it is free. -/
structure Blk where
  cls : Nat
  free : Bool
deriving DecidableEq, Repr

/-- The number of pages, the block that starts at each page, and the free list of each class. -/
structure St where
  pages : Nat
  blk : Nat → Option Blk
  free : Nat → List Nat

namespace St

/-- The class of the block that starts at a page. -/
def cls (A : St) (p : Nat) : Option Nat := (A.blk p).map Blk.cls

def setBlk (A : St) (p : Nat) (b : Option Blk) : St := { A with blk := Function.update A.blk p b }

def setFree (A : St) (c : Nat) (l : List Nat) : St := { A with free := Function.update A.free c l }

@[simp] theorem setBlk_pages (A : St) (p : Nat) (b : Option Blk) : (A.setBlk p b).pages = A.pages := rfl
@[simp] theorem setBlk_free (A : St) (p : Nat) (b : Option Blk) : (A.setBlk p b).free = A.free := rfl
@[simp] theorem setBlk_blk (A : St) (p : Nat) (b : Option Blk) :
    (A.setBlk p b).blk = Function.update A.blk p b := rfl
@[simp] theorem setFree_pages (A : St) (c : Nat) (l : List Nat) : (A.setFree c l).pages = A.pages := rfl
@[simp] theorem setFree_blk (A : St) (c : Nat) (l : List Nat) : (A.setFree c l).blk = A.blk := rfl
@[simp] theorem setFree_free (A : St) (c : Nat) (l : List Nat) :
    (A.setFree c l).free = Function.update A.free c l := rfl

@[simp] theorem cls_setBlk (A : St) (p : Nat) (b : Option Blk) :
    (A.setBlk p b).cls = Function.update A.cls p (b.map Blk.cls) := by
  funext q
  simp only [cls, setBlk, Function.update_apply]
  split <;> rfl

@[simp] theorem cls_setFree (A : St) (c : Nat) (l : List Nat) : (A.setFree c l).cls = A.cls := rfl

theorem cls_of_blk {A : St} {p c : Nat} {f : Bool} (h : A.blk p = some ⟨c, f⟩) : A.cls p = some c := by
  simp [cls, h]

theorem blk_of_cls {A : St} {p c : Nat} (h : A.cls p = some c) : ∃ f, A.blk p = some ⟨c, f⟩ := by
  obtain ⟨b, hb, rfl⟩ := Option.map_eq_some_iff.1 h
  exact ⟨b.free, hb⟩

end St

/-! ## The operations -/

/-- The empty heap. -/
def empty : St := ⟨0, fun _ => none, fun _ => []⟩

/-- Takes the first block off a free list. -/
def pop (c : Nat) (A : St) : Nat × St := ((A.free c).headD 0, A.setFree c (A.free c).tail)

/-- Makes a free block of class `c` at `p` and puts it on its list. -/
def push (p c : Nat) (A : St) : St := (A.setBlk p (some ⟨c, true⟩)).setFree c (p :: A.free c)

/-- Appends one free block of the top class. -/
def grow (top : Nat) (A : St) : St := push A.pages top { A with pages := A.pages + 2 ^ top }

/-- Cuts the class `c + 1` block at `p` into two free blocks of class `c`. -/
def split (p c : Nat) (A : St) : St := push (p + 2 ^ c) c (push p c A)

/-- Gets a block of class `c` in hand; `k` is the number of classes above `c`. -/
def take (top : Nat) : Nat → Nat → St → Nat × St
  | 0, c, A => if A.free c = [] then pop c (grow top A) else pop c A
  | k + 1, c, A =>
    if A.free c = [] then
      pop c (split (take top k (c + 1) A).1 c (take top k (c + 1) A).2)
    else pop c A

/-- Sets whether the block at `p` is free. -/
def mark (p : Nat) (f : Bool) (A : St) : St := A.setBlk p ((A.blk p).map fun b => { b with free := f })

/-- Takes a block of class `c` out of the heap. -/
def alloc (top c : Nat) (A : St) : Nat × St :=
  ((take top (top - c) c A).1, mark (take top (top - c) c A).1 false (take top (top - c) c A).2)

theorem alloc_fst (top c : Nat) (A : St) : (alloc top c A).1 = (take top (top - c) c A).1 := rfl

theorem alloc_pages (top c : Nat) (A : St) : (alloc top c A).2.pages = (take top (top - c) c A).2.pages := rfl

/-- Joins the block at `p` with its buddy, which leaves its free list. -/
def join (p c : Nat) (A : St) : St :=
  ((A.setFree c ((A.free c).erase (buddy p c))).setBlk (lower p c + 2 ^ c) none).setBlk (lower p c)
    (some ⟨c + 1, true⟩)

/-- Joins the block in hand with its buddy as long as the buddy is free. -/
def coalesce (top : Nat) : Nat → Nat → St → Nat × St
  | 0, p, A => (p, A)
  | k + 1, p, A =>
    match A.blk p with
    | some b =>
      if b.cls < top ∧ A.blk (buddy p b.cls) = some ⟨b.cls, true⟩ then
        coalesce top k (lower p b.cls) (join p b.cls A)
      else (p, A)
    | none => (p, A)

/-- Gives the block at `p` back. -/
def release (top p : Nat) (A : St) : St :=
  let r := coalesce top top p (mark p true A)
  match r.2.blk r.1 with
  | some b => push r.1 b.cls r.2
  | none => r.2

/-! ## The free lists -/

/-- The list of class `c` holds each free block of class `c` once, except the blocks in hand. -/
structure Lists (hand : List Nat) (A : St) : Prop where
  nodup : ∀ c, (A.free c).Nodup
  mem : ∀ {c p}, p ∈ A.free c ↔ A.blk p = some ⟨c, true⟩ ∧ p ∉ hand

variable {top c p : Nat} {hand : List Nat} {A : St}

/-- The block in hand may change. -/
theorem Lists.setBlk (h : Lists hand A) (hp : p ∈ hand) (b : Option Blk) : Lists hand (A.setBlk p b) := by
  refine ⟨h.nodup, fun {c q} => ?_⟩
  simp only [St.setBlk_free, St.setBlk_blk, h.mem]
  by_cases hq : q = p
  · subst hq; simp [hp]
  · rw [Function.update_of_ne hq]

/-- A block that is not free may be taken in hand, or let go. -/
theorem Lists.congr_hand {hand' : List Nat} (h : Lists hand A)
    (hh : ∀ q, (∃ c, A.blk q = some ⟨c, true⟩) → (q ∈ hand ↔ q ∈ hand')) : Lists hand' A := by
  refine ⟨h.nodup, fun {c q} => ?_⟩
  rw [h.mem]
  constructor
  · rintro ⟨hq, hn⟩; exact ⟨hq, fun hc => hn ((hh q ⟨c, hq⟩).2 hc)⟩
  · rintro ⟨hq, hn⟩; exact ⟨hq, fun hc => hn ((hh q ⟨c, hq⟩).1 hc)⟩

/-- The block in hand goes on its list. -/
theorem Lists.cons (h : Lists (p :: hand) A) (hp : p ∉ hand) (hb : A.blk p = some ⟨c, true⟩) :
    Lists hand (A.setFree c (p :: A.free c)) := by
  refine ⟨fun c' => ?_, fun {c' q} => ?_⟩
  · by_cases hc : c' = c
    · subst hc
      have : p ∉ A.free c' := fun hm => (h.mem.1 hm).2 (List.mem_cons_self ..)
      simpa using ⟨this, h.nodup c'⟩
    · simpa [Function.update_of_ne hc] using h.nodup c'
  · simp only [St.setFree_free, St.setFree_blk]
    by_cases hq : q = p
    · subst hq
      rw [hb]
      by_cases hc : c' = c
      · subst hc; simp [hp]
      · rw [Function.update_of_ne hc, h.mem]; simp [Ne.symm hc]
    · have hm := h.mem (c := c') (p := q)
      simp only [List.mem_cons, hq, false_or] at hm
      by_cases hc : c' = c
      · subst hc; simp [hq, hm]
      · rw [Function.update_of_ne hc, hm]

/-- A listed block is taken off its list, in hand. -/
theorem Lists.erase (h : Lists hand A) (hp : p ∈ A.free c) :
    Lists (p :: hand) (A.setFree c ((A.free c).erase p)) := by
  obtain ⟨hb, hn⟩ := h.mem.1 hp
  refine ⟨fun c' => ?_, fun {c' q} => ?_⟩
  · by_cases hc : c' = c
    · subst hc; simpa using (h.nodup c').erase p
    · simpa [Function.update_of_ne hc] using h.nodup c'
  · simp only [St.setFree_free, St.setFree_blk, List.mem_cons, not_or]
    by_cases hc : c' = c
    · subst hc
      rw [Function.update_self, (h.nodup c').mem_erase_iff, h.mem]
      tauto
    · rw [Function.update_of_ne hc, h.mem]
      constructor
      · rintro ⟨hq, hqn⟩
        refine ⟨hq, fun he => hc ?_, hqn⟩
        subst he
        rw [hb] at hq; injection hq with hq; exact (congrArg Blk.cls hq).symm
      · rintro ⟨hq, -, hqn⟩; exact ⟨hq, hqn⟩

/-! ## The invariant -/

/-- The blocks tile the heap, no block is above the top class, and the free lists hold the free
blocks that are not in hand. -/
structure Inv (top : Nat) (hand : List Nat) (A : St) : Prop where
  tiling : Tiling A.cls A.pages
  clsLe : ∀ {p c f}, A.blk p = some ⟨c, f⟩ → c ≤ top
  pages : 2 ^ top ∣ A.pages
  lists : Lists hand A

/-- No two buddies below the top class are both free, unless one of them is in hand. -/
def Coalesced (top : Nat) (hand : List Nat) (A : St) : Prop :=
  ∀ p c, c < top → A.blk p = some ⟨c, true⟩ → A.blk (buddy p c) = some ⟨c, true⟩ →
    p ∈ hand ∨ buddy p c ∈ hand

theorem inv_empty (top : Nat) : Inv top [] empty := by
  refine ⟨tiling_empty, ?_, Nat.dvd_zero _, ⟨?_, ?_⟩⟩ <;> simp [empty]

theorem coalesced_empty (top : Nat) : Coalesced top [] empty := fun p c _ h => by simp [empty] at h

theorem Inv.dvd (h : Inv top hand A) {f : Bool} (hb : A.blk p = some ⟨c, f⟩) : 2 ^ c ∣ p :=
  h.tiling.dvd (St.cls_of_blk hb)

theorem Inv.lt (h : Inv top hand A) {f : Bool} (hb : A.blk p = some ⟨c, f⟩) : p + 2 ^ c ≤ A.pages :=
  h.tiling.le (St.cls_of_blk hb)

theorem Inv.head (h : Inv top [] A) {t : List Nat} (hf : A.free c = p :: t) : A.blk p = some ⟨c, true⟩ :=
  (h.lists.mem.1 (by rw [hf]; exact List.mem_cons_self ..)).1

/-- No block starts inside another one, or at the end of the heap. -/
theorem Inv.blk_none (h : Inv top hand A) {f : Bool} {q : Nat} (hb : A.blk p = some ⟨c, f⟩) (h1 : p < q)
    (h2 : q < p + 2 ^ c) : A.blk q = none := by
  cases hq : A.blk q with
  | none => rfl
  | some b =>
    have := h.tiling.start_unique (St.cls_of_blk hb) (St.cls_of_blk hq) h1.le h2
    omega

theorem Inv.blk_end (h : Inv top hand A) : A.blk A.pages = none := by
  cases hq : A.blk A.pages with
  | none => rfl
  | some b =>
    have := h.lt hq
    have hpos : 0 < 2 ^ b.cls := by positivity
    omega

/-- Next to a block below the top class, its buddy's position starts a block of at most that class. -/
theorem Inv.buddy_blk (h : Inv top hand A) {f : Bool} (hb : A.blk p = some ⟨c, f⟩) (hc : c < top) :
    ∃ c' f', A.blk (buddy p c) = some ⟨c', f'⟩ ∧ c' ≤ c := by
  obtain ⟨c', hle, hc'⟩ := h.tiling.buddy_start h.pages (St.cls_of_blk hb) hc
  obtain ⟨f', hf⟩ := St.blk_of_cls hc'
  exact ⟨c', f', hf, hle⟩

/-! ## Getting a block -/

theorem pop_eq {t : List Nat} (hf : A.free c = p :: t) : pop c A = (p, A.setFree c t) := by
  simp [pop, hf]

theorem pop_inv (h : Inv top [] A) {t : List Nat} (hf : A.free c = p :: t) :
    Inv top [p] (A.setFree c t) := by
  refine ⟨by simpa using h.tiling, h.clsLe, h.pages, ?_⟩
  have := h.lists.erase (c := c) (p := p) (by simp [hf])
  rwa [hf, List.erase_cons_head] at this

theorem push_lists (h : Lists (p :: hand) A) (hp : p ∉ hand) : Lists hand (push p c A) :=
  (h.setBlk (List.mem_cons_self ..) _).cons hp (by simp)

theorem split_inv (h : Inv top [p] A) (hb : A.blk p = some ⟨c + 1, true⟩) : Inv top [] (split p c A) := by
  have hpos : 0 < 2 ^ c := by positivity
  have h2 : 2 ^ (c + 1) = 2 ^ c + 2 ^ c := by ring
  have hhi : A.blk (p + 2 ^ c) = none := h.blk_none hb (by omega) (by omega)
  have hcls := h.clsLe hb
  refine ⟨?_, ?_, h.pages, ?_⟩
  · have : (split p c A).cls = Function.update (Function.update A.cls p (some c)) (p + 2 ^ c) (some c) := by
      simp [split, push]
    rw [this]
    exact h.tiling.split (St.cls_of_blk hb)
  · intro q c' f hq
    simp only [split, push, St.setFree_blk, St.setBlk_blk, Function.update_apply] at hq
    split_ifs at hq
    · injection hq with hq; injection hq with hq; omega
    · injection hq with hq; injection hq with hq; omega
    · exact h.clsLe hq
  · -- the lower half goes on the list, then the upper one, which was no block before
    have h1 : Lists [] (push p c A) := push_lists h.lists (by simp)
    have h2 : Lists [p + 2 ^ c] (push p c A) := h1.congr_hand ?_
    · exact push_lists h2 (by simp)
    rintro q ⟨c', hq⟩
    simp only [List.not_mem_nil, List.mem_singleton, false_iff]
    rintro rfl
    rw [push, St.setFree_blk, St.setBlk_blk, Function.update_of_ne (by omega), hhi] at hq
    cases hq

theorem grow_inv (h : Inv top [] A) : Inv top [] (grow top A) := by
  have hend := h.blk_end
  refine ⟨?_, ?_, Nat.dvd_add h.pages dvd_rfl, ?_⟩
  · have : (grow top A).cls = Function.update A.cls A.pages (some top) := by
      simp [grow, push]; rfl
    rw [this]
    exact h.tiling.extend h.pages
  · intro q c' f hq
    simp only [grow, push, St.setFree_blk, St.setBlk_blk, Function.update_apply] at hq
    split_ifs at hq
    · injection hq with hq; injection hq with hq; exact hq.ge
    · exact h.clsLe hq
  · have h1 : Lists [] { A with pages := A.pages + 2 ^ top } := ⟨h.lists.nodup, h.lists.mem⟩
    refine push_lists (h1.congr_hand ?_) (by simp)
    rintro q ⟨c', hq⟩
    simp only [List.not_mem_nil, List.mem_singleton, false_iff]
    rintro rfl
    rw [hend] at hq; cases hq

/-- What getting a block of class `c` does: the block is in hand, allocated blocks stay, free blocks
stay free (possibly cut), and no list below class `c` changes. -/
structure Taken (top c : Nat) (A : St) (r : Nat × St) : Prop where
  inv : Inv top [r.1] r.2
  blk : r.2.blk r.1 = some ⟨c, true⟩
  coalesced : Coalesced top [r.1] r.2
  live : ∀ {q c'}, r.2.blk q = some ⟨c', false⟩ ↔ A.blk q = some ⟨c', false⟩
  free : ∀ {q c'}, A.blk q = some ⟨c', true⟩ → ∃ c'', r.2.blk q = some ⟨c'', true⟩
  below : ∀ c' < c, r.2.free c' = A.free c'
  pages : A.pages ≤ r.2.pages

theorem pop_taken (h : Inv top [] A) (hco : Coalesced top [] A) (hf : A.free c ≠ []) : Taken top c A (pop c A) := by
  obtain ⟨p, t, hf⟩ := List.exists_cons_of_ne_nil hf
  rw [pop_eq hf]
  refine ⟨pop_inv h hf, h.head hf, ?_, Iff.rfl, fun hq => ⟨_, hq⟩, ?_, le_rfl⟩
  · intro q c' hc' h1 h2
    have := hco q c' hc' h1 h2
    simp at this
  · intro c' hc'
    simp [Function.update_of_ne (show c' ≠ c by omega)]

/-- Cutting the block in hand and taking the upper half. -/
theorem split_taken {q : Nat} (h : Inv top [q] A) (hb : A.blk q = some ⟨c + 1, true⟩)
    (hco : Coalesced top [q] A) : Taken top c A (pop c (split q c A)) := by
  have hpos : 0 < 2 ^ c := by positivity
  have hd := h.dvd hb
  have hhi : A.blk (q + 2 ^ c) = none :=
    h.blk_none hb (by omega) (by rw [pow_succ]; omega)
  have hf : (split q c A).free c = (q + 2 ^ c) :: q :: A.free c := by simp [split, push]
  have hblk : (split q c A).blk =
      Function.update (Function.update A.blk q (some ⟨c, true⟩)) (q + 2 ^ c) (some ⟨c, true⟩) := by
    simp [split, push]
  have hinv := split_inv h hb
  rw [pop_eq hf]
  refine ⟨pop_inv hinv hf, hinv.head hf, ?_, ?_, ?_, ?_, le_rfl⟩
  · intro p c' hc' h1 h2
    simp only [List.mem_singleton]
    have hdp := hinv.dvd h1
    simp only [St.setFree_blk] at h1 h2
    by_cases e1 : p = q + 2 ^ c
    · exact .inl e1
    by_cases e2 : buddy p c' = q + 2 ^ c
    · exact .inr e2
    by_cases e3 : p = q
    · subst e3
      rw [hblk, Function.update_of_ne e1, Function.update_self] at h1
      injection h1 with h1; injection h1 with h1
      subst h1
      exact absurd (buddy_lower hd) e2
    by_cases e4 : buddy p c' = q
    · rw [hblk, Function.update_of_ne e2, e4, Function.update_self] at h2
      injection h2 with h2; injection h2 with h2
      subst h2
      have := buddy_buddy hdp
      rw [e4, buddy_lower hd] at this
      exact absurd this.symm e1
    rw [hblk, Function.update_of_ne e1, Function.update_of_ne e3] at h1
    rw [hblk, Function.update_of_ne e2, Function.update_of_ne e4] at h2
    have := hco p c' hc' h1 h2
    simp only [List.mem_singleton] at this
    exact absurd this (by simp [e3, e4])
  · intro p c'
    simp only [St.setFree_blk, hblk, Function.update_apply]
    split_ifs with e1 e2
    · subst e1; simp [hhi]
    · subst e2; simp [hb]
    · exact Iff.rfl
  · intro p c' hp
    simp only [St.setFree_blk, hblk, Function.update_apply]
    split_ifs
    · exact ⟨_, rfl⟩
    · exact ⟨_, rfl⟩
    · exact ⟨_, hp⟩
  · intro c' hc'
    have : c' ≠ c := by omega
    simp [split, push, Function.update_of_ne this]

theorem grow_coalesced (h : Inv top [] A) (hco : Coalesced top [] A) : Coalesced top [] (grow top A) := by
  have hend := h.blk_end
  have hinv := grow_inv h
  intro p c hc h1 h2
  have hd := hinv.dvd h1
  simp only [grow, push, St.setFree_blk, St.setBlk_blk, Function.update_apply] at h1 h2
  split_ifs at h1 h2
  · simp_all
  · injection h1 with h1; injection h1 with h1; omega
  · injection h2 with h2; injection h2 with h2; omega
  · exact hco p c hc h1 h2

theorem take_pop {k : Nat} (hf : A.free c ≠ []) : take top k c A = pop c A := by
  cases k <;> rw [take, if_neg hf]

theorem take_grow (hf : A.free c = []) : take top 0 c A = pop c (grow top A) := by
  rw [take, if_pos hf]

theorem take_split {k : Nat} (hf : A.free c = []) : take top (k + 1) c A =
    pop c (split (take top k (c + 1) A).1 c (take top k (c + 1) A).2) := by
  rw [take, if_pos hf]

/-- Getting a block grows the heap at most once. -/
theorem take_pages_le (A : St) : ∀ k c, (take top k c A).2.pages ≤ A.pages + 2 ^ top
  | 0, c => by
    by_cases hf : A.free c = []
    · rw [take_grow hf]; simp [pop, grow, push]
    · rw [take_pop hf]; simp [pop]
  | k + 1, c => by
    by_cases hf : A.free c = []
    · rw [take_split hf]; simpa [pop, split, push] using take_pages_le A k (c + 1)
    · rw [take_pop hf]; simp [pop]

theorem take_taken (h : Inv top [] A) (hco : Coalesced top [] A) : ∀ {k c}, c + k = top → Taken top c A (take top k c A)
  | 0, c, hk => by
    unfold take
    split
    · -- the top list is empty: the heap grows by one block, which is then the only one on it
      have hc : c = top := by omega
      subst hc
      have hend := h.blk_end
      have ht := pop_taken (c := c) (grow_inv h) (grow_coalesced h hco) (by simp [grow, push])
      have hblk : (grow c A).blk = Function.update A.blk A.pages (some ⟨c, true⟩) := by simp [grow, push]
      refine ⟨ht.inv, ht.blk, ht.coalesced, ?_, ?_, ?_, ?_⟩
      · intro q c'
        rw [ht.live, hblk, Function.update_apply]
        split_ifs with e
        · subst e; simp [hend]
        · exact Iff.rfl
      · intro q c' hq
        have hq' : (grow c A).blk q = some ⟨c', true⟩ := by
          rw [hblk, Function.update_of_ne]
          · exact hq
          · rintro rfl; rw [hend] at hq; cases hq
        exact ht.free hq'
      · intro c' hc'
        rw [ht.below c' hc']
        simp [grow, push, Function.update_of_ne (show c' ≠ c by omega)]
      · exact le_trans (by simp [grow, push]) ht.pages
    · exact pop_taken h hco ‹_›
  | k + 1, c, hk => by
    unfold take
    split
    · have ih := take_taken h hco (k := k) (c := c + 1) (by omega)
      have ht := split_taken ih.inv ih.blk ih.coalesced
      refine ⟨ht.inv, ht.blk, ht.coalesced, ht.live.trans ih.live, ?_, ?_, ih.pages.trans ht.pages⟩
      · intro q c' hq
        obtain ⟨c'', hq'⟩ := ih.free hq
        exact ht.free hq'
      · intro c' hc'
        rw [ht.below c' hc', ih.below c' (by omega)]
    · exact pop_taken h hco ‹_›

/-! ## Handing out and taking back -/

/-- Marking a block changes neither the tiling nor the classes. -/
theorem mark_shape {f : Bool} (h : Inv top hand A) (hb : A.blk p = some ⟨c, f⟩) (g : Bool) :
    mark p g A = A.setBlk p (some ⟨c, g⟩) ∧ (mark p g A).cls = A.cls ∧
      ∀ {q c' f'}, (mark p g A).blk q = some ⟨c', f'⟩ → c' ≤ top := by
  have hm : mark p g A = A.setBlk p (some ⟨c, g⟩) := by simp [mark, hb]
  refine ⟨hm, ?_, ?_⟩
  · rw [hm, St.cls_setBlk]
    exact Function.update_eq_self_iff.2 (St.cls_of_blk hb).symm
  · intro q c' f' hq
    rw [hm, St.setBlk_blk, Function.update_apply] at hq
    split_ifs at hq
    · injection hq with hq; injection hq with hq; subst hq; exact h.clsLe hb
    · exact h.clsLe hq

/-- The block in hand is handed out. -/
theorem mark_false (h : Inv top [p] A) (hb : A.blk p = some ⟨c, true⟩) (hco : Coalesced top [p] A) :
    Inv top [] (mark p false A) ∧ Coalesced top [] (mark p false A) := by
  obtain ⟨hm, hcls, hle⟩ := mark_shape h hb false
  refine ⟨⟨by rw [hcls, hm]; exact h.tiling, hle, by rw [hm]; exact h.pages, ?_⟩, ?_⟩
  · rw [hm]
    refine (h.lists.setBlk (List.mem_singleton_self p) _).congr_hand ?_
    rintro q ⟨c', hq⟩
    simp only [List.mem_singleton, List.not_mem_nil, iff_false]
    rintro rfl
    simp at hq
  · intro q c' hc' h1 h2
    rw [hm, St.setBlk_blk, Function.update_apply] at h1 h2
    split_ifs at h1 h2
    · cases h1
    · cases h1
    · cases h2
    · rcases hco q c' hc' h1 h2 with hq | hq <;> simp_all

/-- A handed-out block comes back in hand. -/
theorem mark_true (h : Inv top [] A) (hb : A.blk p = some ⟨c, false⟩) (hco : Coalesced top [] A) :
    Inv top [p] (mark p true A) ∧ Coalesced top [p] (mark p true A) := by
  obtain ⟨hm, hcls, hle⟩ := mark_shape h hb true
  refine ⟨⟨by rw [hcls, hm]; exact h.tiling, hle, by rw [hm]; exact h.pages, ?_⟩, ?_⟩
  · rw [hm]
    refine Lists.setBlk (h.lists.congr_hand ?_) (List.mem_singleton_self p) _
    rintro q ⟨c', hq⟩
    simp only [List.mem_singleton, List.not_mem_nil, false_iff]
    rintro rfl
    rw [hb] at hq; cases hq
  · intro q c' hc' h1 h2
    simp only [List.mem_singleton]
    by_cases e1 : q = p
    · exact .inl e1
    by_cases e2 : buddy q c' = p
    · exact .inr e2
    rw [hm, St.setBlk_blk, Function.update_of_ne e1] at h1
    rw [hm, St.setBlk_blk, Function.update_of_ne e2] at h2
    have := hco q c' hc' h1 h2
    simp at this

/-- What `alloc` does: a block of class `c`, free until now or new, is handed out; the other
allocated blocks stay. -/
structure Allocated (top c : Nat) (A : St) (r : Nat × St) : Prop where
  inv : Inv top [] r.2
  coalesced : Coalesced top [] r.2
  blk : r.2.blk r.1 = some ⟨c, false⟩
  fresh : ∀ c', A.blk r.1 ≠ some ⟨c', false⟩
  live : ∀ {q c'}, q ≠ r.1 → (r.2.blk q = some ⟨c', false⟩ ↔ A.blk q = some ⟨c', false⟩)
  pages : A.pages ≤ r.2.pages

theorem alloc_allocated (h : Inv top [] A) (hco : Coalesced top [] A) (hc : c ≤ top) :
    Allocated top c A (alloc top c A) := by
  have ht := take_taken h hco (k := top - c) (c := c) (by omega)
  obtain ⟨hinv, hco'⟩ := mark_false ht.inv ht.blk ht.coalesced
  obtain ⟨hm, -, -⟩ := mark_shape ht.inv ht.blk false
  refine ⟨hinv, hco', ?_, ?_, ?_, ?_⟩
  · simp [alloc, hm]
  · intro c' hc'
    have := ht.live.2 hc'
    simp only [alloc] at this
    rw [ht.blk] at this; cases this
  · intro q c' hq
    simp only [alloc] at hq
    simp only [alloc, hm, St.setBlk_blk, Function.update_of_ne hq]
    exact ht.live
  · simp only [alloc, hm]; exact ht.pages

/-! ## Joining buddies -/

theorem join_inv (h : Inv top [p] A) (hb : A.blk p = some ⟨c, true⟩) (hc : c < top)
    (hb' : A.blk (buddy p c) = some ⟨c, true⟩) : Inv top [lower p c] (join p c A) := by
  have hpos : 0 < 2 ^ c := by positivity
  have hd := h.dvd hb
  have hne := buddy_ne hd
  obtain ⟨hl, hcase⟩ := lower_cases hd
  have hlo : A.blk (lower p c) = some ⟨c, true⟩ := by rcases hcase with ⟨e, -⟩ | ⟨-, e⟩ <;> rw [← e] <;> assumption
  have hhi : A.blk (lower p c + 2 ^ c) = some ⟨c, true⟩ := by
    rcases hcase with ⟨-, e⟩ | ⟨e, -⟩ <;> rw [← e] <;> assumption
  refine ⟨?_, ?_, h.pages, ?_⟩
  · have : (join p c A).cls =
        Function.update (Function.update A.cls (lower p c + 2 ^ c) none) (lower p c) (some (c + 1)) := by
      simp [join]
    rw [this]
    exact h.tiling.merge hl (St.cls_of_blk hlo) (St.cls_of_blk hhi)
  · intro q c' f hq
    simp only [join, St.setBlk_blk, St.setFree_blk, Function.update_apply] at hq
    split_ifs at hq
    · injection hq with hq; injection hq with hq; omega
    · exact h.clsLe hq
  · have hmem : buddy p c ∈ A.free c := h.lists.mem.2 ⟨hb', by simpa using hne⟩
    have h1 := h.lists.erase hmem
    have h2 := (h1.setBlk (p := lower p c + 2 ^ c) (by rcases hcase with ⟨-, e⟩ | ⟨e, -⟩ <;> simp [← e]) none)
    have h3 := (h2.setBlk (p := lower p c) (by rcases hcase with ⟨e, -⟩ | ⟨-, e⟩ <;> simp [← e])
      (some ⟨c + 1, true⟩))
    refine h3.congr_hand ?_
    rintro q ⟨c', hq⟩
    have hqhi : q ≠ lower p c + 2 ^ c := by
      rintro rfl
      simp only [St.setBlk_blk] at hq
      rw [Function.update_of_ne (by omega), Function.update_self] at hq
      cases hq
    simp only [List.mem_cons, List.not_mem_nil, or_false]
    rcases hcase with ⟨e1, e2⟩ | ⟨e1, e2⟩ <;> omega

theorem join_coalesced (h : Inv top [p] A) (hb : A.blk p = some ⟨c, true⟩) (hco : Coalesced top [p] A) :
    Coalesced top [lower p c] (join p c A) := by
  obtain ⟨-, hcase⟩ := lower_cases (h.dvd hb)
  intro q c' hc' h1 h2
  simp only [join, St.setBlk_blk, St.setFree_blk, Function.update_apply] at h1 h2
  simp only [List.mem_singleton]
  split_ifs at h1 h2 with e1 e2 e3 e4 e5 e6
  any_goals tauto
  rcases hco q c' hc' h1 h2 with hq | hq <;> simp only [List.mem_singleton] at hq <;>
    rcases hcase with ⟨e, -⟩ | ⟨e, -⟩ <;> omega

theorem coalesce_join {k : Nat} (hb : A.blk p = some ⟨c, true⟩) (hc : c < top)
    (hb' : A.blk (buddy p c) = some ⟨c, true⟩) :
    coalesce top (k + 1) p A = coalesce top k (lower p c) (join p c A) := by
  rw [coalesce, hb]; exact if_pos ⟨hc, hb'⟩

theorem coalesce_stop {k : Nat} (hb : A.blk p = some ⟨c, true⟩)
    (h : ¬ (c < top ∧ A.blk (buddy p c) = some ⟨c, true⟩)) : coalesce top (k + 1) p A = (p, A) := by
  rw [coalesce, hb]; exact if_neg h

/-- A block that is free after a join was free before. -/
theorem join_free (h : Inv top [p] A) (hb : A.blk p = some ⟨c, true⟩) (hb' : A.blk (buddy p c) = some ⟨c, true⟩)
    {q c' : Nat} (hq : (join p c A).blk q = some ⟨c', true⟩) : ∃ c'', A.blk q = some ⟨c'', true⟩ := by
  obtain ⟨-, hcase⟩ := lower_cases (h.dvd hb)
  simp only [join, St.setBlk_blk, St.setFree_blk, Function.update_apply] at hq
  split_ifs at hq with e
  · rcases hcase with ⟨e1, -⟩ | ⟨-, e1⟩
    · exact ⟨c, by rw [e, ← e1]; exact hb⟩
    · exact ⟨c, by rw [e, ← e1]; exact hb'⟩
  · exact ⟨c', hq⟩

/-- What joining as far as possible does: one free block is in hand whose buddy is not free, and
every block that is still free was free before. -/
structure Joined (top : Nat) (A : St) (r : Nat × St) : Prop where
  inv : Inv top [r.1] r.2
  blk : ∃ c, r.2.blk r.1 = some ⟨c, true⟩ ∧ (c < top → r.2.blk (buddy r.1 c) ≠ some ⟨c, true⟩)
  coalesced : Coalesced top [r.1] r.2
  live : ∀ {q c'}, r.2.blk q = some ⟨c', false⟩ ↔ A.blk q = some ⟨c', false⟩
  free : ∀ {q c'}, r.2.blk q = some ⟨c', true⟩ → ∃ c'', A.blk q = some ⟨c'', true⟩
  pages : r.2.pages = A.pages

theorem coalesce_joined : ∀ {k p c A}, Inv top [p] A → A.blk p = some ⟨c, true⟩ → Coalesced top [p] A →
    top ≤ c + k → Joined top A (coalesce top k p A)
  | 0, p, c, A, h, hb, hco, hk =>
    ⟨h, ⟨c, hb, fun hc => by omega⟩, hco, Iff.rfl, fun hq => ⟨_, hq⟩, rfl⟩
  | k + 1, p, c, A, h, hb, hco, hk => by
    by_cases hcond : c < top ∧ A.blk (buddy p c) = some ⟨c, true⟩
    · obtain ⟨hc, hb'⟩ := hcond
      obtain ⟨-, hcase⟩ := lower_cases (h.dvd hb)
      have hj := coalesce_joined (k := k) (c := c + 1) (join_inv h hb hc hb') (by simp [join])
        (join_coalesced h hb hco) (by omega)
      rw [coalesce_join hb hc hb']
      refine ⟨hj.inv, hj.blk, hj.coalesced, ?_, ?_, hj.pages⟩
      · intro q c'
        rw [hj.live]
        simp only [join, St.setBlk_blk, St.setFree_blk, Function.update_apply]
        split_ifs with e1 e2
        · rcases hcase with ⟨e, -⟩ | ⟨-, e⟩ <;> rw [e1, ← e] <;> simp [hb, hb']
        · rcases hcase with ⟨-, e⟩ | ⟨e, -⟩ <;> rw [e2, ← e] <;> simp [hb, hb']
        · exact Iff.rfl
      · intro q c' hq
        obtain ⟨c'', hq'⟩ := hj.free hq
        exact join_free h hb hb' hq'
    · rw [coalesce_stop hb hcond]
      exact ⟨h, ⟨c, hb, fun hc hb' => hcond ⟨hc, hb'⟩⟩, hco, Iff.rfl, fun hq => ⟨_, hq⟩, rfl⟩

/-- What `release` does: the block is free again, alone or inside a larger block; the other
allocated blocks stay, and every free block was free before or starts at the block given back. -/
structure Released (top p : Nat) (A A' : St) : Prop where
  inv : Inv top [] A'
  coalesced : Coalesced top [] A'
  live : ∀ {q c'}, A'.blk q = some ⟨c', false⟩ ↔ A.blk q = some ⟨c', false⟩ ∧ q ≠ p
  free : ∀ {q c'}, A'.blk q = some ⟨c', true⟩ → q = p ∨ ∃ c'', A.blk q = some ⟨c'', true⟩
  pages : A'.pages = A.pages

theorem release_released (h : Inv top [] A) (hco : Coalesced top [] A) (hb : A.blk p = some ⟨c, false⟩) :
    Released top p A (release top p A) := by
  obtain ⟨hi, hc⟩ := mark_true h hb hco
  obtain ⟨hm, -, -⟩ := mark_shape h hb true
  have hblk : (mark p true A).blk = Function.update A.blk p (some ⟨c, true⟩) := by rw [hm]; rfl
  have hj := coalesce_joined (k := top) (c := c) hi (by rw [hblk]; simp) hc (by omega)
  obtain ⟨c', hb', hbud⟩ := hj.blk
  have hr : release top p A = push (coalesce top top p (mark p true A)).1 c' (coalesce top top p (mark p true A)).2 := by
    simp [release, hb']
  have hsame : (release top p A).blk = (coalesce top top p (mark p true A)).2.blk := by
    rw [hr]; simp only [push, St.setFree_blk, St.setBlk_blk]
    exact Function.update_eq_self_iff.2 hb'.symm
  refine ⟨⟨?_, ?_, ?_, ?_⟩, ?_, ?_, ?_, ?_⟩
  · have : (release top p A).cls = (coalesce top top p (mark p true A)).2.cls := by
      funext q; simp only [St.cls, hsame]
    rw [this, hr]; exact hj.inv.tiling
  · intro q c'' f hq; rw [hsame] at hq; exact hj.inv.clsLe hq
  · rw [hr]; exact hj.inv.pages
  · rw [hr]; exact push_lists hj.inv.lists (by simp)
  · -- the only pair the hand excused is the block and its buddy, which is not free
    intro q c'' hc'' h1 h2
    rw [hsame] at h1 h2
    exfalso
    rcases hj.coalesced q c'' hc'' h1 h2 with hq | hq <;> rw [List.mem_singleton] at hq
    · rw [hq, hb'] at h1
      injection h1 with h1; injection h1 with h1
      subst h1
      exact hbud hc'' (hq ▸ h2)
    · have hd := hj.inv.dvd h1
      rw [hq, hb'] at h2
      injection h2 with h2; injection h2 with h2
      subst h2
      refine hbud hc'' ?_
      rw [← hq, buddy_buddy hd]
      exact h1
  · intro q c''
    rw [hsame, hj.live, hblk, Function.update_apply]
    split_ifs with e
    · simp [e]
    · simp [e]
  · intro q c'' hq
    rw [hsame] at hq
    obtain ⟨c3, hq'⟩ := hj.free hq
    rw [hblk, Function.update_apply] at hq'
    split_ifs at hq' with e
    · exact .inl e
    · exact .inr ⟨c3, hq'⟩
  · rw [hr]; exact hj.pages.trans (by rw [hm]; rfl)

/-! ## Maximal coalescing -/

/-- An aligned range without allocated block lies inside one free block. -/
theorem free_around (h : Inv top [] A) (hco : Coalesced top [] A) : ∀ {c q}, c ≤ top → 2 ^ c ∣ q →
    q + 2 ^ c ≤ A.pages →
    (∀ p c', A.blk p = some ⟨c', false⟩ → p + 2 ^ c' ≤ q ∨ q + 2 ^ c ≤ p) →
    ∃ p c', A.blk p = some ⟨c', true⟩ ∧ p ≤ q ∧ q + 2 ^ c ≤ p + 2 ^ c'
  | 0, q, _, _, hq, hlive => by
    obtain ⟨p, c', hp, h1, h2⟩ := h.tiling.cover q (by omega)
    obtain ⟨f, hf⟩ := St.blk_of_cls hp
    cases f with
    | true => exact ⟨p, c', hf, h1, by omega⟩
    | false => have := hlive p c' hf; omega
  | c + 1, q, hc, hd, hq, hlive => by
    have h2 : 2 ^ (c + 1) = 2 ^ c + 2 ^ c := by ring
    have hpos : 0 < 2 ^ c := by positivity
    have hdc : 2 ^ c ∣ q := (pow_dvd_pow_of_le (by omega)).trans hd
    -- each half lies inside a free block; if neither block is larger, the halves are free buddies
    obtain ⟨p₁, c₁, hp₁, h3, h4⟩ := free_around h hco (c := c) (q := q) (by omega) hdc (by omega)
      fun p c' hp => by have := hlive p c' hp; omega
    obtain ⟨p₂, c₂, hp₂, h5, h6⟩ := free_around h hco (c := c) (q := q + 2 ^ c) (by omega)
      (Nat.dvd_add hdc dvd_rfl) (by omega) fun p c' hp => by have := hlive p c' hp; omega
    by_cases hsame : p₁ = p₂
    · subst hsame
      rw [hp₁] at hp₂; injection hp₂ with hp₂; injection hp₂ with hp₂; subst hp₂
      exact ⟨p₁, c₁, hp₁, h3, by omega⟩
    · exfalso
      have hlt : p₁ < p₂ := by
        rcases Nat.lt_or_ge p₁ p₂ with hlt | hge
        · exact hlt
        · have := h.tiling.disj (St.cls_of_blk hp₂) (St.cls_of_blk hp₁) (by omega)
          omega
      have hdis := h.tiling.disj (St.cls_of_blk hp₁) (St.cls_of_blk hp₂) hlt
      -- the block before the middle ends there, the one after starts there; both have class `c`
      have e2 : p₂ = q + 2 ^ c := by omega
      have e1 : p₁ + 2 ^ c₁ = q + 2 ^ c := by omega
      have hd₁ := h.dvd hp₁
      have hd₂ := h.dvd hp₂
      have hc₁ : c₁ = c := by
        by_contra hne
        have : c < c₁ := by
          by_contra hle
          have : 2 ^ c₁ < 2 ^ c := Nat.pow_lt_pow_right (by omega) (by omega)
          omega
        have hd' : 2 ^ (c + 1) ∣ q + 2 ^ c := by
          rw [← e1]; exact Nat.dvd_add ((pow_dvd_pow_of_le this).trans hd₁) (pow_dvd_pow_of_le this)
        have := Nat.le_of_dvd hpos ((Nat.dvd_add_right hd).1 hd')
        omega
      have hc₂ : c₂ = c := by
        by_contra hne
        have : c < c₂ := by
          by_contra hle
          have : 2 ^ c₂ < 2 ^ c := Nat.pow_lt_pow_right (by omega) (by omega)
          omega
        have hd' : 2 ^ (c + 1) ∣ q + 2 ^ c := by
          rw [← e2]; exact (pow_dvd_pow_of_le this).trans hd₂
        have := Nat.le_of_dvd hpos ((Nat.dvd_add_right hd).1 hd')
        omega
      subst hc₁; subst hc₂
      obtain rfl : p₁ = q := by omega
      have := hco p₁ c₂ (by omega) hp₁ (by rw [buddy_lower hd, ← e2]; exact hp₂)
      simp at this

/-- With nothing allocated, every block is free and of the top class. -/
theorem all_top (h : Inv top [] A) (hco : Coalesced top [] A) (hnone : ∀ p c, A.blk p ≠ some ⟨c, false⟩)
    {b : Blk} (hb : A.blk p = some b) : b = ⟨top, true⟩ := by
  obtain ⟨c, f⟩ := b
  cases f with
  | false => exact absurd hb (hnone p c)
  | true =>
    have hle : c ≤ top := h.clsLe hb
    have hpos : 0 < 2 ^ c := by positivity
    -- the top-class range around the block lies inside one block, which is this one
    have hd : 2 ^ top ∣ p / 2 ^ top * 2 ^ top := Nat.dvd_mul_left ..
    have h1 : p / 2 ^ top * 2 ^ top ≤ p := Nat.div_mul_le_self ..
    have h2 : p < p / 2 ^ top * 2 ^ top + 2 ^ top := Nat.lt_div_mul_add (by positivity)
    have hlt := h.lt hb
    have hroom := add_le_of_dvd_of_lt hd h.pages (by omega)
    obtain ⟨q, c', hq, h3, h4⟩ := free_around h hco le_rfl hd hroom fun p c hp => absurd hp (hnone p c)
    have e := h.tiling.start_unique (St.cls_of_blk hq) (St.cls_of_blk hb) (by omega) (by omega)
    subst e
    rw [hq] at hb; injection hb with hb; injection hb with hb; subst hb
    have hc' : c' ≤ top := h.clsLe hq
    have : top = c' := by
      by_contra hne
      have : 2 ^ c' < 2 ^ top := Nat.pow_lt_pow_right (by omega) (by omega)
      omega
    rw [this]

/-- Then the list of the top class holds one block for each `2^top` pages. -/
theorem all_top_length (h : Inv top [] A) (hco : Coalesced top [] A) (hnone : ∀ p c, A.blk p ≠ some ⟨c, false⟩) :
    (A.free top).length = A.pages / 2 ^ top := by
  have hpos : 0 < 2 ^ top := by positivity
  have hnd : ((List.range (A.pages / 2 ^ top)).map (· * 2 ^ top)).Nodup :=
    List.nodup_range.map fun _ _ e => Nat.eq_of_mul_eq_mul_right hpos e
  have hperm : (A.free top).Perm ((List.range (A.pages / 2 ^ top)).map (· * 2 ^ top)) := by
    refine (List.perm_ext_iff_of_nodup (h.lists.nodup top) hnd).2 fun q => ?_
    rw [h.lists.mem, List.mem_map]
    constructor
    · rintro ⟨hq, -⟩
      obtain ⟨i, hi⟩ := h.dvd hq
      have hlt := h.lt hq
      refine ⟨i, List.mem_range.2 ((Nat.le_div_iff_mul_le hpos).2 ?_), by rw [hi, Nat.mul_comm]⟩
      rw [Nat.succ_mul, Nat.mul_comm]; omega
    · rintro ⟨i, hi, rfl⟩
      -- the block around this point starts at a multiple of its size, which is this point
      have hi1 : (i + 1) * 2 ^ top ≤ A.pages := (Nat.le_div_iff_mul_le hpos).1 (List.mem_range.1 hi)
      obtain ⟨p, c, hp, h1, h2⟩ := h.tiling.cover (i * 2 ^ top) (by rw [Nat.succ_mul] at hi1; omega)
      obtain ⟨f, hf⟩ := St.blk_of_cls hp
      have e := all_top h hco hnone hf
      injection e with e1 e2
      subst e1; subst e2
      rw [← eq_of_dvd_of_lt (h.dvd hf) (Nat.dvd_mul_left ..) h1 h2]
      exact ⟨hf, List.not_mem_nil⟩
  rw [hperm.length_eq, List.length_map, List.length_range]

/-! ## The canonical form -/

theorem Inv.disjoint (h : Inv top hand A) {q c' : Nat} {f f' : Bool} (hp : A.blk p = some ⟨c, f⟩) (hq : A.blk q = some ⟨c', f'⟩)
    (hne : p ≠ q) : p + 2 ^ c ≤ q ∨ q + 2 ^ c' ≤ p := by
  rcases Nat.lt_or_gt_of_ne hne with hlt | hlt
  · exact .inl (h.tiling.disj (St.cls_of_blk hp) (St.cls_of_blk hq) hlt)
  · exact .inr (h.tiling.disj (St.cls_of_blk hq) (St.cls_of_blk hp) hlt)

section Canonical

variable {B : St}

/-- A free block lies inside a free block of any other system with the same allocated blocks. -/
theorem free_inside (h : Inv top [] A) (h' : Inv top [] B) (hco' : Coalesced top [] B) (hpages : A.pages = B.pages)
    (hlive : ∀ p c, B.blk p = some ⟨c, false⟩ → A.blk p = some ⟨c, false⟩) (hb : A.blk p = some ⟨c, true⟩) :
    ∃ q c', B.blk q = some ⟨c', true⟩ ∧ q ≤ p ∧ p + 2 ^ c ≤ q + 2 ^ c' := by
  refine free_around h' hco' (h.clsLe hb) (h.dvd hb) (hpages ▸ h.lt hb) fun q c' hq => ?_
  refine h.disjoint (hlive q c' hq) hb fun e => ?_
  rw [← e, hlive q c' hq] at hb
  cases hb

/-- The free blocks are determined by the allocated ones: they are the largest aligned ranges between them. -/
theorem free_of_live (h : Inv top [] A) (hco : Coalesced top [] A) (h' : Inv top [] B) (hco' : Coalesced top [] B)
    (hpages : A.pages = B.pages) (hlive : ∀ p c, A.blk p = some ⟨c, false⟩ ↔ B.blk p = some ⟨c, false⟩)
    (hb : A.blk p = some ⟨c, true⟩) : B.blk p = some ⟨c, true⟩ := by
  -- the block around it in the other system lies inside a block of this one, which can only be this block
  obtain ⟨q, c', hq, h1, h2⟩ := free_inside h h' hco' hpages (fun p c hp => (hlive p c).2 hp) hb
  obtain ⟨r, c'', hr, h3, h4⟩ := free_inside h' h hco hpages.symm (fun p c hp => (hlive p c).1 hp) hq
  have hpos : 0 < 2 ^ c := by positivity
  obtain rfl : r = p := by
    by_contra hne
    have := h.disjoint hr hb hne
    omega
  rw [hb] at hr
  injection hr with hr; injection hr with hr
  subst hr
  obtain rfl : q = r := by omega
  obtain rfl : c' = c := Nat.pow_right_injective le_rfl (show 2 ^ c' = 2 ^ c by omega)
  exact hq

theorem blk_of_live (h : Inv top [] A) (hco : Coalesced top [] A) (h' : Inv top [] B) (hco' : Coalesced top [] B)
    (hpages : A.pages = B.pages) (hlive : ∀ p c, A.blk p = some ⟨c, false⟩ ↔ B.blk p = some ⟨c, false⟩) : A.blk = B.blk := by
  funext p
  refine Option.ext fun b => ?_
  obtain ⟨c, f⟩ := b
  cases f with
  | false => exact hlive p c
  | true =>
    exact ⟨free_of_live h hco h' hco' hpages hlive, free_of_live h' hco' h hco hpages.symm fun p c => (hlive p c).symm⟩

end Canonical

/-! ## Best fit -/

/-- Where a block of class `c` is cut from: the block of class `k` at `p`, the smallest that is large enough, or a new one. -/
inductive Source (top c : Nat) (A : St) : Nat → Nat → Nat → Prop
  | listed {k p : Nat} {t : List Nat} : c ≤ k → k ≤ top → (∀ j, c ≤ j → j < k → A.free j = []) → A.free k = p :: t →
      Source top c A k p A.pages
  | grown : c ≤ top → (∀ j, c ≤ j → j ≤ top → A.free j = []) → Source top c A top A.pages (A.pages + 2 ^ top)

/-- Cutting the block of class `k` at `p` down to its last block of class `c` leaves one free block of each class between, and
no other block changes. -/
structure Carved (c k p : Nat) (A : St) (r : Nat × St) : Prop where
  start : r.1 + 2 ^ c = p + 2 ^ k
  here : r.2.blk r.1 = some ⟨c, true⟩
  pieces : ∀ j q, c ≤ j → j < k → q + 2 ^ (j + 1) = p + 2 ^ k → r.2.blk q = some ⟨j, true⟩
  only : ∀ q b, p ≤ q → q < p + 2 ^ k → r.2.blk q = some b →
    q = r.1 ∧ b = ⟨c, true⟩ ∨ ∃ j, c ≤ j ∧ j < k ∧ q + 2 ^ (j + 1) = p + 2 ^ k ∧ b = ⟨j, true⟩
  others : ∀ q, q < p ∨ p + 2 ^ k ≤ q → r.2.blk q = A.blk q

theorem pop_carved (h : Inv top [] A) {t : List Nat} (hf : A.free c = p :: t) : Carved c c p A (pop c A) := by
  have hb := h.head hf
  rw [pop_eq hf]
  refine ⟨rfl, hb, fun j q h1 h2 => by omega, fun q b h1 h2 hq => ?_, fun _ _ => rfl⟩
  simp only [St.setFree_blk] at hq
  obtain rfl : p = q := by
    by_contra hne
    rw [h.blk_none hb (by omega) h2] at hq
    cases hq
  rw [hb] at hq
  exact .inl ⟨rfl, (Option.some.inj hq).symm⟩

theorem grow_carved (h : Inv top [] A) : Carved top top A.pages A (pop top (grow top A)) := by
  have hf : (grow top A).free top = A.pages :: A.free top := by simp [grow, push]
  have hblk : (grow top A).blk = Function.update A.blk A.pages (some ⟨top, true⟩) := by simp [grow, push]
  obtain ⟨h1, h2, h3, h4, -⟩ := pop_carved (grow_inv h) hf
  refine ⟨h1, h2, h3, h4, fun q hq => ?_⟩
  have hpos : 0 < 2 ^ top := by positivity
  rw [pop_eq hf]
  simp only [St.setFree_blk, hblk]
  rw [Function.update_of_ne (by omega)]

theorem split_carved {k : Nat} {r : Nat × St} (h : Carved (c + 1) k p A r) (hk : c < k) :
    Carved c k p A (pop c (split r.1 c r.2)) := by
  have h2 : 2 ^ (c + 1) = 2 ^ c + 2 ^ c := by ring
  have hpos : 0 < 2 ^ c := by positivity
  have hle : 2 ^ (c + 1) ≤ 2 ^ k := Nat.pow_le_pow_right (by omega) hk
  have hstart := h.start
  have hf : (split r.1 c r.2).free c = (r.1 + 2 ^ c) :: r.1 :: r.2.free c := by simp [split, push]
  have hblk : (split r.1 c r.2).blk =
      Function.update (Function.update r.2.blk r.1 (some ⟨c, true⟩)) (r.1 + 2 ^ c) (some ⟨c, true⟩) := by simp [split, push]
  rw [pop_eq hf]
  refine ⟨by simp only; omega, by simp [hblk], fun j q h1 h3 h4 => ?_, fun q b h1 h3 hq => ?_, fun q hq => ?_⟩
  · rcases Nat.eq_or_lt_of_le h1 with rfl | hlt
    · -- the lower half of the block that was cut last
      obtain rfl : q = r.1 := by omega
      simp only [St.setFree_blk, hblk]
      rw [Function.update_of_ne (by omega), Function.update_self]
    · have hj : 2 ^ (c + 1 + 1) ≤ 2 ^ (j + 1) := Nat.pow_le_pow_right (by omega) (by omega)
      have h2' : 2 ^ (c + 1 + 1) = 2 ^ (c + 1) + 2 ^ (c + 1) := by ring
      simp only [St.setFree_blk, hblk]
      rw [Function.update_of_ne (by omega), Function.update_of_ne (by omega)]
      exact h.pieces j q hlt h3 h4
  · simp only [St.setFree_blk, hblk, Function.update_apply] at hq
    split_ifs at hq with e1 e2
    · exact .inl ⟨e1, (Option.some.inj hq).symm⟩
    · exact .inr ⟨c, le_rfl, hk, by omega, (Option.some.inj hq).symm⟩
    · rcases h.only q b h1 h3 hq with ⟨e, -⟩ | ⟨j, h4, h5, h6, h7⟩
      · exact absurd e e2
      · exact .inr ⟨j, by omega, h5, h6, h7⟩
  · simp only [St.setFree_blk, hblk]
    rw [Function.update_of_ne (by omega), Function.update_of_ne (by omega)]
    exact h.others q hq

/-- Getting a block cuts it out of the smallest block there is for it. -/
theorem take_carved (h : Inv top [] A) : ∀ {n c}, c + n = top →
    ∃ k p, Source top c A k p (take top n c A).2.pages ∧ Carved c k p A (take top n c A)
  | 0, c, hn => by
    obtain rfl : c = top := by omega
    cases hf : A.free c with
    | nil =>
      rw [take_grow hf]
      exact ⟨c, A.pages, .grown le_rfl fun j h1 h2 => (le_antisymm h2 h1) ▸ hf, grow_carved h⟩
    | cons p t =>
      rw [take_pop (by rw [hf]; exact List.cons_ne_nil _ _)]
      exact ⟨c, p, .listed le_rfl le_rfl (fun j h1 h2 => by omega) hf, pop_carved h hf⟩
  | n + 1, c, hn => by
    cases hf : A.free c with
    | nil =>
      obtain ⟨k, p, hs, hc⟩ := take_carved h (n := n) (c := c + 1) (by omega)
      rw [take_split hf]
      have hempty : ∀ m, (∀ j, c + 1 ≤ j → j < m → A.free j = []) → ∀ j, c ≤ j → j < m → A.free j = [] := by
        intro m hm j h1 h2
        rcases Nat.eq_or_lt_of_le h1 with rfl | hlt
        · exact hf
        · exact hm j hlt h2
      generalize hr : take top n (c + 1) A = r at hs hc
      have hpages : (pop c (split r.1 c r.2)).2.pages = r.2.pages := rfl
      rw [hpages]
      generalize r.2.pages = m at hs
      cases hs with
      | listed h1 h2 h3 h4 => exact ⟨k, p, .listed (by omega) h2 (hempty k h3) h4, split_carved hc (by omega)⟩
      | grown h1 h2 =>
        refine ⟨top, A.pages, .grown (by omega) fun j h3 h4 => ?_, split_carved hc (by omega)⟩
        exact hempty (top + 1) (fun j h5 h6 => h2 j h5 (by omega)) j h3 (by omega)
    | cons p t =>
      rw [take_pop (by rw [hf]; exact List.cons_ne_nil _ _)]
      exact ⟨c, p, .listed le_rfl (by omega) (fun j h1 h2 => by omega) hf, pop_carved h hf⟩

theorem Source.le {k pages : Nat} (h : Source top c A k p pages) : c ≤ k ∧ k ≤ top := by
  cases h with
  | listed h1 h2 => exact ⟨h1, h2⟩
  | grown h1 => exact ⟨h1, le_rfl⟩

/-- No other block starts in the range that is cut. -/
theorem Source.outside {k q pages : Nat} (h : Source top c A k p pages) (hi : Inv top [] A) {b : Blk}
    (hq : A.blk q = some b) (hne : q ≠ p) : q < p ∨ p + 2 ^ k ≤ q := by
  cases h with
  | listed h1 h2 h3 h4 =>
    have hpos : 0 < 2 ^ b.cls := by positivity
    rcases hi.disjoint (hi.head h4) hq hne.symm with h | h <;> omega
  | grown h1 h2 =>
    have hpos : 0 < 2 ^ b.cls := by positivity
    have := hi.lt hq
    omega

/-- The free blocks once a block was cut off and handed out. -/
theorem alloc_free_iff {k j q : Nat} (hi : Inv top [] A) (hs : Source top c A k p (alloc top c A).2.pages)
    (hcv : Carved c k p A (take top (top - c) c A)) : (alloc top c A).2.blk q = some ⟨j, true⟩ ↔
      A.blk q = some ⟨j, true⟩ ∧ q ≠ p ∨ c ≤ j ∧ j < k ∧ q + 2 ^ (j + 1) = p + 2 ^ k := by
  have hstart := hcv.start
  have hck : 2 ^ c ≤ 2 ^ k := Nat.pow_le_pow_right (by omega) hs.le.1
  have hpos : 0 < 2 ^ c := by positivity
  have hblk : (alloc top c A).2.blk = Function.update (take top (top - c) c A).2.blk (take top (top - c) c A).1
      (some ⟨c, false⟩) := by
    unfold alloc mark
    rw [hcv.here]
    rfl
  rw [hblk]
  constructor
  · intro hq
    have hne : q ≠ (take top (top - c) c A).1 := by
      rintro rfl
      rw [Function.update_self] at hq
      cases hq
    rw [Function.update_of_ne hne] at hq
    by_cases hin : p ≤ q ∧ q < p + 2 ^ k
    · rcases hcv.only q _ hin.1 hin.2 hq with ⟨e, -⟩ | ⟨j', h1, h2, h3, h4⟩
      · exact absurd e hne
      · injection h4 with h4
        subst h4
        exact .inr ⟨h1, h2, h3⟩
    · rw [hcv.others q (by omega)] at hq
      exact .inl ⟨hq, fun e => hin (by omega)⟩
  · rintro (⟨hq, hne⟩ | ⟨h1, h2, h3⟩)
    · have hout := hs.outside hi hq hne
      rw [Function.update_of_ne (by omega), hcv.others q hout]
      exact hq
    · have hlt : 2 ^ c < 2 ^ (j + 1) := Nat.pow_lt_pow_right (by omega) (by omega)
      rw [Function.update_of_ne (by omega)]
      exact hcv.pieces j q h1 h2 h3

/-! ## Giving back at once -/

/-- Joins the block in hand as far as possible and puts it on its list. -/
def giveBack (top k : Nat) (r : Nat × St) : St :=
  let r := coalesce top k r.1 r.2
  match r.2.blk r.1 with
  | some b => push r.1 b.cls r.2
  | none => r.2

/-- The head of a list goes back where it came from: its buddy is not free. -/
theorem giveBack_pop (h : Inv top [] A) (hco : Coalesced top [] A) {t : List Nat} (hf : A.free c = p :: t) (k : Nat) :
    giveBack top k (pop c A) = A := by
  have hb : (A.setFree c t).blk p = some ⟨c, true⟩ := h.head hf
  have hstop : coalesce top k p (A.setFree c t) = (p, A.setFree c t) := by
    cases k with
    | zero => rfl
    | succ k =>
      refine coalesce_stop hb fun ⟨hc, hb'⟩ => ?_
      have := hco p c hc (h.head hf) hb'
      simp at this
  have hblk : Function.update A.blk p (some ⟨c, true⟩) = A.blk := Function.update_eq_self_iff.2 (h.head hf).symm
  have hfree : Function.update A.free c (p :: t) = A.free := Function.update_eq_self_iff.2 hf.symm
  rw [pop_eq hf, giveBack, hstop]
  simp only [hb]
  unfold push St.setBlk St.setFree
  simp only [Function.update_self, Function.update_idem, hblk, hfree]

/-- Joining the upper half of a block that was just cut undoes the cut. -/
theorem join_split {r : Nat × St} (h : Inv top [r.1] r.2) (hb : r.2.blk r.1 = some ⟨c + 1, true⟩) (hf : r.2.free c = []) :
    join (r.1 + 2 ^ c) c ((split r.1 c r.2).setFree c [r.1]) = r.2 := by
  have hpos : 0 < 2 ^ c := by positivity
  have hd := h.dvd hb
  have hhi : r.2.blk (r.1 + 2 ^ c) = none := h.blk_none hb (by omega) (by rw [pow_succ]; omega)
  have hfree : Function.update r.2.free c [] = r.2.free := Function.update_eq_self_iff.2 hf.symm
  obtain ⟨q, ⟨pages, blk, free⟩⟩ := r
  simp only [join, split, push, St.setFree, St.setBlk, buddy_upper hd, (lower_unique hd).2, Function.update_self,
    Function.update_idem, List.erase_cons_head, St.mk.injEq, true_and]
  refine ⟨funext fun x => ?_, hfree⟩
  simp only [Function.update_apply]
  split_ifs with h1 h2
  · rw [h1]; exact hb.symm
  · rw [h2]; exact hhi.symm
  · rfl

/-- Giving a block back at once restores the state, except that a heap that had to grow has its new block on the list. -/
theorem giveBack_take (h : Inv top [] A) (hco : Coalesced top [] A) : ∀ {n c : Nat} (k : Nat), c + n = top → n ≤ k →
    giveBack top k (take top n c A) = A ∧ (take top n c A).2.pages = A.pages ∨
      giveBack top k (take top n c A) = grow top A ∧ (take top n c A).2.pages = A.pages + 2 ^ top ∧ A.free top = []
  | 0, c, k, hn, _ => by
    obtain rfl : c = top := by omega
    cases hf : A.free c with
    | nil =>
      have hf' : (grow c A).free c = [A.pages] := by simp [grow, push, hf]
      rw [take_grow hf]
      exact .inr ⟨giveBack_pop (grow_inv h) (grow_coalesced h hco) hf' k, rfl, rfl⟩
    | cons p t =>
      rw [take_pop (by rw [hf]; exact List.cons_ne_nil _ _)]
      exact .inl ⟨giveBack_pop h hco hf k, rfl⟩
  | n + 1, c, k, hn, hk => by
    cases hf : A.free c with
    | nil =>
      obtain ⟨k, rfl⟩ : ∃ k', k = k' + 1 := ⟨k - 1, by omega⟩
      have ht := take_taken h hco (k := n) (c := c + 1) (by omega)
      have ih := giveBack_take h hco (n := n) (c := c + 1) k (by omega) (by omega)
      have hbelow := (ht.below c (by omega)).trans hf
      rw [take_split hf]
      generalize take top n (c + 1) A = r at ht ih hbelow
      have hpos : 0 < 2 ^ c := by positivity
      have hd := ht.inv.dvd ht.blk
      have hlist : (split r.1 c r.2).free c = [r.1 + 2 ^ c, r.1] := by simp [split, push, hbelow]
      have hblk : (split r.1 c r.2).blk =
          Function.update (Function.update r.2.blk r.1 (some ⟨c, true⟩)) (r.1 + 2 ^ c) (some ⟨c, true⟩) := by simp [split, push]
      have hstep : giveBack top (k + 1) (pop c (split r.1 c r.2)) = giveBack top k r := by
        rw [pop_eq hlist, giveBack, coalesce_join (c := c) (by simp [hblk]) (by omega), join_split ht.inv ht.blk hbelow,
          (lower_unique hd).2]
        · rfl
        · rw [buddy_upper hd]
          simp only [St.setFree_blk, hblk]
          rw [Function.update_of_ne (by omega), Function.update_self]
      rw [hstep, pop_eq hlist]
      exact ih
    | cons p t =>
      rw [take_pop (by rw [hf]; exact List.cons_ne_nil _ _)]
      exact .inl ⟨giveBack_pop h hco hf k, rfl⟩

theorem release_alloc (h : Inv top [] A) (hco : Coalesced top [] A) (hc : c ≤ top) :
    release top (alloc top c A).1 (alloc top c A).2 = A ∧ (alloc top c A).2.pages = A.pages ∨
      release top (alloc top c A).1 (alloc top c A).2 = grow top A ∧ (alloc top c A).2.pages = A.pages + 2 ^ top ∧
        A.free top = [] := by
  have ht := take_taken h hco (k := top - c) (c := c) (by omega)
  -- the block is marked free again
  have hmark : mark (alloc top c A).1 true (alloc top c A).2 = (take top (top - c) c A).2 := by
    unfold alloc mark St.setBlk
    simp only [ht.blk, Option.map_some, Function.update_self, Function.update_idem]
    rw [Function.update_eq_self_iff.2 ht.blk.symm]
  have hrel : release top (alloc top c A).1 (alloc top c A).2 = giveBack top top (take top (top - c) c A) := by
    unfold release giveBack
    rw [hmark]
    rfl
  rw [hrel]
  exact giveBack_take h hco top (by omega) (by omega)

end Buddy
