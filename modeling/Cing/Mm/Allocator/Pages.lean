/-
What the allocators do with the layers below the heap: whatever holds of these and of the end of the heap, and still holds
after `_expand_heap`, holds after every call.
-/
import Cing.Mm.Allocator.Model
import Cing.Mm.Heap.Pages

namespace Cing.Allocator

open Exec (Maintains)
open Heap (expandHeapLoop)

section Pages

variable {σ : Type} {dbg : Bool} {pg : Paging σ} {Q : σ → Nat → Prop}

/-- What holds of the layers below and the end of the heap holds when the heap has grown. -/
def Grows (dbg : Bool) (pg : Paging σ) (Q : σ → Nat → Prop) : Prop :=
  ∀ t t' e, Q t e → expandHeapLoop dbg pg e (2 ^ 15) 0 t = .ok () t' → Q t' (u64 (e + 2 ^ 27))

/-- `Q` for the state of the allocators. -/
def OfPages (Q : σ → Nat → Prop) (s : AllState σ) : Prop := Q s.heap.pg s.heap.heapEnd

/-! ## The heap -/

theorem onHeap_alloc {len : Nat} (hQ : Grows dbg pg Q) (hlen : len < 2 ^ 64) :
    Maintains (OfPages Q) (onHeap (Heap.mmHeapAlloc dbg pg len)) := by
  intro s a s' h hrun
  obtain ⟨t, halloc, rfl⟩ := Exec.zoom_eq_ok.1 hrun
  obtain ⟨len', hadm, -, hrun'⟩ := Heap.admissible_length halloc hlen
  show Q t.pg t.heapEnd
  rcases Heap.mmHeapAlloc_pages hrun' hadm.1 with ⟨hpg, hend⟩ | ⟨-, hexp⟩
  · rw [hpg, hend]
    exact h
  · rw [hexp.heapEnd]
    exact hQ _ _ _ h hexp.loop

theorem onHeap_free {a : Nat} : Maintains (OfPages Q) (onHeap (Heap.mmHeapFree dbg a)) := by
  intro s u s' h hrun
  obtain ⟨t, hfree, rfl⟩ := Exec.zoom_eq_ok.1 hrun
  obtain ⟨hpg, hend⟩ := Heap.mmHeapFree_samePages hfree
  show Q t.pg t.heapEnd
  rw [hpg, hend]
  exact h

/-! ## The allocators -/

theorem kernelAssert_maintains {P : AllState σ → Prop} {p : Prop} [Decidable p] {expr : String} :
    Maintains P (kernelAssert p expr : AllM σ Unit) := .ite (.pure _) (.throw _)

theorem kernelAssertD_maintains {P : AllState σ → Prop} {p : Prop} [Decidable p] {expr : String} :
    Maintains P (kernelAssertD dbg p expr : AllM σ Unit) := .ite kernelAssert_maintains (.pure _)

theorem mmAlignUp_maintains {P : AllState σ → Prop} {p align : Nat} : Maintains P (mmAlignUp p align : AllM σ Nat) :=
  .bind kernelAssert_maintains fun _ => .bind kernelAssert_maintains fun _ => .pure _

theorem poke_maintains {a v : Nat} : Maintains (OfPages Q) (poke a v) := .modify fun _ h => h

theorem carveLoop_maintains {heap heapLen : Nat} : ∀ {n all : Nat}, Maintains (OfPages Q) (carveLoop (σ := σ) heap heapLen n all)
  | 0, _ => .throw _
  | _ + 1, _ => .ite (.get fun _ => .bind poke_maintains fun _ => .bind (.modify fun _ h => h) fun _ =>
      .bind mmAlignUp_maintains fun _ =>
      carveLoop_maintains) (.pure _)

theorem takeFree_maintains {all : Nat} : Maintains (OfPages Q) (takeFree (σ := σ) dbg all) :=
  .bind kernelAssertD_maintains fun _ => .bind (.modify fun _ h => h) fun _ => .bind poke_maintains fun _ =>
    .bind poke_maintains fun _ => .pure _

/-- `mm_allocator_new`. -/
theorem mmAllocatorNew_maintains (hQ : Grows dbg pg Q) : Maintains (OfPages Q) (mmAllocatorNew dbg pg) :=
  .get fun _ => .ite (.bind (onHeap_alloc hQ (by decide)) fun _ => .bind mmAlignUp_maintains fun _ =>
      .bind kernelAssertD_maintains fun _ =>
    .bind carveLoop_maintains fun _ => .get fun _ => takeFree_maintains) takeFree_maintains

theorem allocatorNewArea_maintains (hQ : Grows dbg pg Q) {all blockMin : Nat} :
    Maintains (OfPages Q) (allocatorNewArea dbg pg all blockMin) :=
  .bind (onHeap_alloc hQ (Nat.mod_lt _ (by norm_num))) fun _ => .bind poke_maintains fun _ => .bind kernelAssert_maintains fun _ =>
      .bind poke_maintains fun _ =>
    .get fun _ => .bind poke_maintains fun _ => .get fun _ => .bind kernelAssert_maintains fun _ => .bind poke_maintains fun _ =>
      .get fun _ => .bind poke_maintains fun _ => .bind poke_maintains fun _ => .pure _

theorem areaFreeStart_maintains {P : AllState σ → Prop} {a : Nat} : Maintains P (areaFreeStart dbg a) :=
  .get fun _ => .bind kernelAssertD_maintains fun _ => .pure _

theorem cutRegion_maintains {area size align : Nat} : Maintains (OfPages Q) (cutRegion (σ := σ) dbg area size align) :=
  .bind areaFreeStart_maintains fun _ => .get fun _ => .bind kernelAssertD_maintains fun _ =>
      .bind poke_maintains fun _ => .get fun _ =>
    .bind kernelAssertD_maintains fun _ => .bind kernelAssertD_maintains fun _ => .pure _

theorem areaFor_maintains (hQ : Grows dbg pg Q) {all area size align : Nat} :
    Maintains (OfPages Q) (areaFor dbg pg all area size align) :=
  .bind areaFreeStart_maintains fun _ => .get fun _ => .ite (.bind (allocatorNewArea_maintains hQ) fun _ => .get fun _ =>
    .bind kernelAssertD_maintains fun _ => .bind kernelAssertD_maintains fun _ => .pure _) (.pure _)

/-- `mm_allocate`. -/
theorem mmAllocate_maintains (hQ : Grows dbg pg Q) {all size align : Nat} :
    Maintains (OfPages Q) (mmAllocate dbg pg all size align) :=
  .get fun _ => .ite (.bind (allocatorNewArea_maintains hQ) fun _ => .get fun _ => .bind kernelAssertD_maintains fun _ =>
    .bind (areaFor_maintains hQ) fun _ => cutRegion_maintains) (.bind (areaFor_maintains hQ) fun _ => cutRegion_maintains)

theorem freeAreasLoop_maintains {all : Nat} : ∀ {n a : Nat}, Maintains (OfPages Q) (freeAreasLoop (σ := σ) dbg all n a)
  | 0, _ => .throw _
  | _ + 1, _ => .ite (.pure _) (.get fun _ => .bind kernelAssertD_maintains fun _ => .bind kernelAssertD_maintains fun _ =>
      .bind onHeap_free fun _ => freeAreasLoop_maintains)

/-- `mm_allocator_free`. -/
theorem mmAllocatorFree_maintains {all : Nat} : Maintains (OfPages Q) (mmAllocatorFree (σ := σ) dbg all) :=
  .get fun _ => .bind freeAreasLoop_maintains fun _ => .bind poke_maintains fun _ => .get fun _ => .bind poke_maintains fun _ =>
    .modify fun _ h => h

end Pages

end Cing.Allocator
