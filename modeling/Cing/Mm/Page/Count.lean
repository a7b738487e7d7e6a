/-
How many frames a range of pages takes: one for each page and one for each table that is missing on the way of
any of them. Mapping the first page of the range provides its own tables, so the rest takes that many less.
-/
import Cing.Mm.Page.Fails

namespace Cing.Page

open Linked

variable {im : Image} {s s' : PageState} {F : List Nat} {va pa n : Nat}

/-- The places of the tables on the way of `va`, below the root. -/
def way (va : Nat) : Finset (List (Fin 512)) := Finset.image (Radix.path (key va)) {1, 2, 3}

/-- The places of the tables that are missing for the `n` pages from `va` on. -/
def missingRange (im : Image) (m : Words) (va n : Nat) : Finset (List (Fin 512)) :=
  ((Finset.range n).biUnion fun i => way (va + pageSize4K * i)).filter fun q => node im m q = none

theorem mem_way {q : List (Fin 512)} : q ∈ way va ↔ ∃ d, 1 ≤ d ∧ d ≤ 3 ∧ Radix.path (key va) d = q := by
  unfold way
  simp only [Finset.mem_image, Finset.mem_insert, Finset.mem_singleton]
  constructor
  · rintro ⟨d, hd, rfl⟩
    exact ⟨d, by omega, by omega, rfl⟩
  · rintro ⟨d, h1, h3, rfl⟩
    exact ⟨d, by omega, rfl⟩

theorem mem_missingRange {m : Words} {q : List (Fin 512)} :
    q ∈ missingRange im m va n ↔ (∃ i < n, q ∈ way (va + pageSize4K * i)) ∧ node im m q = none := by
  unfold missingRange
  simp only [Finset.mem_filter, Finset.mem_biUnion, Finset.mem_range]

/-- The tables missing for one page. -/
theorem card_way (m : Words) (va : Nat) : ((way va).filter fun q => node im m q = none).card = missingTables im m va 3 := by
  have hinj : Function.Injective (Radix.path (key va)) := by
    intro d e h
    have := congrArg List.length h
    rwa [Radix.path_length, Radix.path_length] at this
  unfold way
  rw [Finset.filter_image, Finset.card_image_of_injective _ hinj, missingTables_eq]
  by_cases h1 : node im m (Radix.path (key va) 1) = none <;> by_cases h2 : node im m (Radix.path (key va) 2) = none <;>
    by_cases h3 : node im m (Radix.path (key va) 3) = none <;> simp [Finset.filter_insert, Finset.filter_singleton, h1, h2, h3]

/-- After the first page of a range is mapped, the tables that were missing for it are there. -/
theorem Mapped.missing {N F' : List Nat} (hm : Mapped im va pa s s' N) (h' : Inv im s' F') (n : Nat) :
    missingTables im s.mem va 3 + (missingRange im s'.mem (va + pageSize4K) n).card ≤ (missingRange im s.mem va (n + 1)).card := by
  have hway : ∀ q ∈ way va, node im s'.mem q ≠ none := by
    intro q hq
    obtain ⟨d, -, hd, rfl⟩ := mem_way.1 hq
    obtain ⟨t, ht⟩ := h'.node_of_lookup (hm.here va rfl) (n := d) hd
    rw [ht]
    simp
  have hold : ∀ q, node im s'.mem q = none → node im s.mem q = none := by
    intro q hq
    refine Option.eq_none_iff_forall_ne_some.2 fun t ht => ?_
    rw [hm.old ht] at hq
    cases hq
  have hdisj : Disjoint ((way va).filter fun q => node im s.mem q = none) (missingRange im s'.mem (va + pageSize4K) n) := by
    refine Finset.disjoint_left.2 fun q hq hq' => ?_
    exact hway q (Finset.mem_filter.1 hq).1 (mem_missingRange.1 hq').2
  rw [← card_way, ← Finset.card_union_of_disjoint hdisj]
  refine Finset.card_le_card fun q hq => mem_missingRange.2 ?_
  rcases Finset.mem_union.1 hq with hq | hq
  · exact ⟨⟨0, by omega, (Finset.mem_filter.1 hq).1⟩, (Finset.mem_filter.1 hq).2⟩
  · obtain ⟨⟨i, hi, hq⟩, hnone⟩ := mem_missingRange.1 hq
    refine ⟨⟨i + 1, by omega, ?_⟩, hold q hnone⟩
    rwa [show va + pageSize4K * (i + 1) = va + pageSize4K + pageSize4K * i by rw [Nat.mul_add]; omega]

theorem missingTables_le_card (im : Image) (m : Words) (va n : Nat) :
    missingTables im m va 3 ≤ (missingRange im m va (n + 1)).card := by
  rw [← card_way]
  refine Finset.card_le_card fun q hq => mem_missingRange.2 ?_
  exact ⟨⟨0, by omega, (Finset.mem_filter.1 hq).1⟩, (Finset.mem_filter.1 hq).2⟩

/-- A page has three tables on its way. -/
theorem missingRange_card_le (im : Image) (m : Words) (va n : Nat) : (missingRange im m va n).card ≤ n * 3 := by
  have hway : ∀ i ∈ Finset.range n, (way (va + pageSize4K * i)).card ≤ 3 := fun i _ => Finset.card_image_le
  have hcard := Finset.card_biUnion_le_card_mul (Finset.range n) (fun i => way (va + pageSize4K * i)) 3 hway
  rw [Finset.card_range] at hcard
  exact (Finset.card_filter_le _ _).trans hcard

/-- The frames on the free list are enough to map the `n` pages from `va` on, one after the other. The last page
counts twice: `mm_page_map` takes a frame even when no table is missing, and gives it back. -/
def Enough (im : Image) (s : PageState) (va n : Nat) : Prop :=
  n + (missingRange im s.mem va n).card ≤ mmFrameFreeCount s ∧
    (0 < n → n + 1 + (missingRange im s.mem va (n - 1)).card ≤ mmFrameFreeCount s)

/-- With a frame for each table that is missing, and one at least, a call that returns has mapped the page. -/
theorem mmPageMap_enough (h : Inv im s F) (hal : va % 4096 = 0) (hva : ¬ SamePage va directVadd)
    (hnone : lookup s.mem im.tab4 va = none) (hpa : IsPage pa) {ok : Bool} (hs : mmPageMap im va pa s = .ok ok s')
    (hlen : max 1 (missingTables im s.mem va 3) ≤ F.length) :
    ok = true ∧ ∃ F' N, Inv im s' F' ∧ Mapped im va pa s s' N ∧ F = N ++ F' ∧
      F.length ≤ F'.length + missingTables im s.mem va 3 := by
  rcases mmPageMap_run h hal hva hnone hpa with ⟨ok', s₁, hrun, ⟨F', N, h', hF, -, hok⟩, hcount⟩ | ⟨⟨e, s₁, hrun⟩, -⟩
  · rw [hs] at hrun
    cases hrun
    cases ok with
    | true => exact ⟨rfl, F', N, h', hok rfl, hF, by rw [h.count, h'.count] at hcount; exact hcount⟩
    | false =>
      obtain ⟨t, f, hloop⟩ := (mmPageMap_false h hal hnone hpa.1).1 hs
      have hfail := (mapLoop_fails va (n := 3) (d := 0) rfl h rfl hnone (.inl rfl)).1 ⟨t, f, s', hloop⟩
      rw [hand_zero, List.nil_append] at hfail
      omega
  · rw [hs] at hrun
    cases hrun

end Cing.Page
