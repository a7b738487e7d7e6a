/-
`_init_direct_access`: it links the three static tables of the window below `_tab_4`, one into the
other, each zeroed. What was there before stays: the tables of the early stage, the translations and
the free list.
-/
import Cing.Mm.Page.Frame

namespace Cing.Page

open Linked

variable {im : Image} {s s' : PageState} {F : List Nat} {t : Nat}

/-- The state `_init_direct_access` starts from: the tables form a tree without those of the window, none of
them is on the free list, and the linker put the static tables where entries can point to them. -/
structure Early (im : Image) (s : PageState) (F : List Nat) : Prop where
  tables : Tables im s.mem
  slot : s.mem (im.tab4 + tabEntryLen * key directVadd 0) = 0
  stage : s.isEarlyStage = false
  chain : Chain 0 s.mem s.freeHead F
  nodup : F.Nodup
  count : s.freeCount = F.length
  frames : ∀ f ∈ F, IsFrame f
  notTable : ∀ f ∈ F, ∀ q, node im s.mem q ≠ some f
  array : im.directTabArray % pageSize4K = 0
  low : ∀ i < 3, LowFrame (directTab im i)
  fresh : ∀ i < 3, ∀ q, node im s.mem q ≠ some (directTab im i)
  notFree : ∀ i < 3, directTab im i ∉ F

theorem directTab_inj {i j : Nat} (h : directTab im i = directTab im j) : i = j := by
  unfold directTab pageSize4K tabEntryLen at h
  omega

theorem initDirectTab_run (s : PageState) : ∀ n, initDirectTab im n s = .ok () s
  | 0 => rfl
  | n + 1 => by
    have hal : mmAlignCheck (directTab im n) pageSize4K = true := by
      have := im.space_align
      unfold mmAlignCheck directTab tabEntryLen pageSize4K at *
      simp only [decide_eq_true_eq]
      omega
    rw [initDirectTab, Exec.bind_ok (initDirectTab_run s n)]
    exact kernelAssert_pos hal _ s

/-- A round of the second loop. -/
theorem initDirectLoop_step {lv d : Nat} (hd : lv + d = 2) (h : Tables im s.mem)
    (ht : node im s.mem (Radix.path (key directVadd) d) = some t) (hz : s.mem (t + tabEntryLen * key directVadd d) = 0)
    (hc : LowFrame (directTab im lv)) (hfresh : ∀ q, node im s.mem q ≠ some (directTab im lv)) :
    ∃ m, initDirectLoop im (lv + 2) t s = initDirectLoop im (lv + 1) (directTab im lv) { s with mem := m } ∧
      m = linked s.mem (t + tabEntryLen * key directVadd d) (directTab im lv) ∧ Tables im m ∧
      (node im m (Radix.path (key directVadd) (d + 1)) = some (directTab im lv) ∧
        ∀ q, q ≠ Radix.path (key directVadd) (d + 1) → node im m q = node im s.mem q) ∧
      ∀ va, lookup m im.tab4 va = lookup s.mem im.tab4 va := by
  have hkey : tabIndex directVadd (lv + 2) = key directVadd d := by rw [key, show 4 - d = lv + 2 by omega]
  obtain ⟨h1, h2, h3⟩ := h.link (i := key directVadd d) ht (by rw [Radix.path_length]; omega) hz hc hfresh
  refine ⟨_, ?_, rfl, h2, h1, h3⟩
  have hidx : vaddTabIndex directVadd (lv + 2) s = .ok (key directVadd d) s := by
    unfold vaddTabIndex
    rw [Exec.bind_ok (kernelAssert_pos (by omega) _ s), hkey]
    rfl
  rw [initDirectLoop, Exec.bind_ok hidx, Exec.bind_ok (Exec.get_run s), hz,
    Exec.bind_ok (kernelAssert_pos (by decide) _ s), Exec.bind_ok (kernelAssert_pos rfl _ s),
    Exec.bind_ok (tabEntryInit_run (by omega) hc.1 s)]
  rfl

/-- The links to the window, from the tables on its way. -/
theorem Direct.of_node {m : Words} (h1 : Page.node im m (Radix.path (key directVadd) 1) = some (directTab im 2))
    (h2 : Page.node im m (Radix.path (key directVadd) 2) = some (directTab im 1))
    (h3 : Page.node im m (Radix.path (key directVadd) 3) = some (directTab im 0)) : Direct im m := by
  refine ⟨?_, ?_, ?_⟩
  · obtain ⟨t, ht, hdec⟩ := Radix.node_cons.1 h1
    cases ht
    exact hdec
  · obtain ⟨t, ht, hdec⟩ := Radix.node_cons.1 h2
    obtain rfl : directTab im 2 = t := Option.some.inj (h1.symm.trans ht)
    exact hdec
  · obtain ⟨t, ht, hdec⟩ := Radix.node_cons.1 h3
    obtain rfl : directTab im 1 = t := Option.some.inj (h2.symm.trans ht)
    exact hdec

/-- What the second loop leaves, with `n` tables of the window to link. -/
structure WindowLinked (im : Image) (n : Nat) (s : PageState) (m : Words) : Prop where
  tables : Tables im m
  path : ∀ i < n, node im m (Radix.path (key directVadd) (3 - i)) = some (directTab im i)
  old : ∀ {q x}, node im s.mem q = some x → node im m q = some x
  new : ∀ {q x}, node im m q = some x → node im s.mem q = some x ∨ ∃ i < n, x = directTab im i
  lookup : ∀ va, lookup m im.tab4 va = lookup s.mem im.tab4 va
  window : 0 < n → m (directTabEntry im) = 0
  frames : ∀ f, f % 4096 = 0 → (∀ q, node im s.mem q ≠ some f) → (∀ i < n, f ≠ directTab im i) → m f = s.mem f

theorem initDirectLoop_run : ∀ {n d : Nat} {s : PageState} {t : Nat}, n + d = 3 → Tables im s.mem →
    node im s.mem (Radix.path (key directVadd) d) = some t → s.mem (t + tabEntryLen * key directVadd d) = 0 →
    (∀ i < n, LowFrame (directTab im i)) → (∀ i < n, ∀ q, node im s.mem q ≠ some (directTab im i)) →
    ∃ m, initDirectLoop im (n + 1) t s = .ok () { s with mem := m } ∧ WindowLinked im n s m := by
  intro n
  induction n with
  | zero =>
    intro d s t _ h _ _ _ _
    exact ⟨s.mem, rfl, h, nofun, id, .inl, fun _ => rfl, fun h => absurd h (Nat.lt_irrefl 0), fun _ _ _ _ => rfl⟩
  | succ n ih =>
    intro d s t hd h ht hz hlow hfresh
    have hc := hlow n (Nat.lt_succ_self n)
    have hcal := hc.1.bounds.1
    obtain ⟨m₁, hrun, hm₁, h₁, ⟨hn1, hn2⟩, hlook⟩ := initDirectLoop_step (by omega) h ht hz hc (hfresh n (Nat.lt_succ_self n))
    have hempty : ∀ j : Fin 512, m₁ (directTab im n + tabEntryLen * j) = 0 := by rw [hm₁]; exact linked_table _ _ _
    -- a table before the round is at another path
    have hold : ∀ {q x}, node im s.mem q = some x → q ≠ Radix.path (key directVadd) (d + 1) := by
      rintro q x hq rfl
      rw [node_eq_none ht hz] at hq
      cases hq
    have hnew : ∀ {q x}, node im m₁ q = some x → node im s.mem q = some x ∨ x = directTab im n := by
      intro q x hq
      by_cases e : q = Radix.path (key directVadd) (d + 1)
      · rw [e, hn1] at hq
        exact .inr (Option.some.inj hq).symm
      · exact .inl ((hn2 q e).symm.trans hq)
    obtain ⟨m, hrun', h'⟩ := ih (d := d + 1) (s := { s with mem := m₁ }) (by omega) h₁ hn1 (hempty _)
      (fun i hi => hlow i (by omega)) fun i hi q hq => by
        rcases hnew hq with hq | hq
        · exact hfresh i (by omega) q hq
        · exact absurd (directTab_inj hq) (by omega)
    refine ⟨m, hrun.trans hrun', h'.tables, fun i hi => ?_, fun hq => h'.old ((hn2 _ (hold hq)).trans hq), fun hq => ?_,
      fun va => (h'.lookup va).trans (hlook va), fun _ => ?_, fun f hf hnot hne => ?_⟩
    · rcases Nat.lt_succ_iff_lt_or_eq.1 hi with hi | rfl
      · exact h'.path i hi
      · rw [show 3 - i = d + 1 by omega]
        exact h'.old hn1
    · rcases h'.new hq with hq | ⟨i, hi, rfl⟩
      · exact (hnew hq).imp_right fun e => ⟨n, Nat.lt_succ_self n, e⟩
      · exact .inr ⟨i, by omega, rfl⟩
    · cases n with
      | zero =>
        obtain rfl : m = m₁ := by
          cases hrun'
          rfl
        exact hempty _
      | succ n => exact h'.window (Nat.succ_pos n)
    · have hfc : f ≠ directTab im n := hne n (Nat.lt_succ_self n)
      have hnot' : ∀ q, node im m₁ q ≠ some f := fun q hq => (hnew hq).elim (hnot q) hfc
      refine (h'.frames f hf hnot' fun i hi => hne i (by omega)).trans ?_
      show m₁ f = s.mem f
      have hw := linked_word (x := t + tabEntryLen * key directVadd d) (m := s.mem) hf hcal hfc 0
      rw [Fin.val_zero, Nat.mul_zero, Nat.add_zero, ← hm₁] at hw
      rw [hw]
      exact Function.update_of_ne (h.frame_ne_start hf hnot ht _).symm _ _

/-- `_init_direct_access` establishes the invariant. -/
theorem initDirectAccess_run (h : Early im s F) : ∃ m, initDirectAccess im s = .ok () { s with mem := m } ∧
    Inv im { s with mem := m } F ∧ WindowLinked im 3 s m := by
  have hal : mmAlignCheck im.directTabArray pageSize4K = true := mmAlignCheck_iff.2 h.array
  obtain ⟨m, hrun, hl⟩ := initDirectLoop_run (n := 3) (d := 0) rfl h.tables rfl h.slot h.low h.fresh
  have hsame : Function.update m (directTabEntry im) 0 = m := by
    rw [← hl.window (by omega), Function.update_eq_self]
  have hdirect : Direct im m := .of_node (hl.path 2 (by omega)) (hl.path 1 (by omega)) (hl.path 0 (by omega))
  refine ⟨m, ?_, ⟨⟨hl.tables, hdirect⟩, hl.window (by omega), h.stage, h.chain.congr fun f hf => ?_, h.nodup, h.count, h.frames,
    fun f hf q hq => ?_⟩, hl⟩
  · unfold initDirectAccess
    rw [Exec.bind_ok (kernelAssert_pos hal _ s), Exec.bind_ok (initDirectTab_run s 3), Exec.bind_ok hrun]
    show EStateM.Result.ok () { s with mem := Function.update m (directTabEntry im) 0 } = _
    rw [hsame]
  · exact hl.frames f (h.frames f hf).align (h.notTable f hf) fun i hi e => h.notFree i hi (e ▸ hf)
  · rcases hl.new hq with hq | ⟨i, hi, rfl⟩
    · exact h.notTable f hf q hq
    · exact h.notFree i hi hf

end Cing.Page
