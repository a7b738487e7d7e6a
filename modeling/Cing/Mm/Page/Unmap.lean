/-
`_unmap` under the invariant. The walk down reads the tables on the way of the page. On the way up an
entry is cleared and its table freed if nothing else is in it, so in between the entry above still
points to a table that is already free; the invariant holds of the memory in which that entry is
cleared, and this is what the loop carries. A table on the way of the window is never empty: it has
the entry of the next one, and the last one the entry of the window, which is set while it is read.
-/
import Cing.Mm.Page.Map

namespace Cing.Page

open Linked

variable {im : Image} {s s' : PageState} {F : List Nat} {f t c va : Nat} {p : List (Fin 512)} {i : Fin 512}

/-! ## The way up -/

/-- The tables on the way of the window. -/
def Static (q : List (Fin 512)) : Prop := q <:+ Radix.path (key directVadd) 3

/-- Every table other than those of the window has an entry. -/
def NoEmpty (im : Image) (m : Words) : Prop :=
  ∀ q t, node im m q = some t → ¬ Static q → ∃ i : Fin 512, m (t + tabEntryLen * i) ≠ 0

/-- From `s` to `s'` the tables `R` were unlinked, and no translation changed. -/
structure Shrunk (im : Image) (s s' : PageState) (R : List Nat) : Prop where
  lookup : ∀ va, lookup s'.mem im.tab4 va = lookup s.mem im.tab4 va
  node : ∀ {q t}, node im s'.mem q = some t ↔ node im s.mem q = some t ∧ t ∉ R
  tables : ∀ t ∈ R, ∃ q, Page.node im s.mem q = some t

theorem static_iff {q : List (Fin 512)} : Static q ↔ q.length ≤ 3 ∧ q = Radix.path (key directVadd) q.length := by
  constructor
  · intro h
    have hlen : q.length ≤ 3 := by simpa using h.length_le
    have hs := Radix.path_suffix (key directVadd) hlen
    exact ⟨hlen, List.IsSuffix.eq_of_length ((List.suffix_of_suffix_length_le h hs (by simp))) (by simp)⟩
  · rintro ⟨hlen, h⟩
    rw [h]
    exact Radix.path_suffix _ hlen

/-- A table on the way of the window, other than the last, has an entry. -/
theorem Direct.not_empty {m : Words} (h : Direct im m) {d : Nat} (hd : d < 3)
    (ht : Page.node im m (Radix.path (key directVadd) d) = some t) : m (t + tabEntryLen * key directVadd d) ≠ 0 := by
  obtain ⟨c, hc⟩ := Radix.node_suffix (Radix.path_suffix (key directVadd) (Nat.succ_le_of_lt hd)) h.node.2.2
  obtain ⟨t', ht', hdec⟩ := Radix.node_cons.1 hc
  obtain rfl : t = t' := Option.some.inj (ht.symm.trans ht')
  intro e
  unfold entries at hdec
  rw [e, decode_zero] at hdec
  cases hdec

theorem tabIsZeroLoop_run
    (hread : ∀ j : Fin 512, readVa im (directVadd + tabEntryLen * j) s = .ok (s.mem (t + tabEntryLen * j)) s) :
    ∀ {n i : Nat}, i + n = 512 → ∃ b, tabIsZeroLoop im directVadd n i s = .ok b s ∧
      (b = true ↔ ∀ j : Fin 512, i ≤ j → s.mem (t + tabEntryLen * j) = 0)
  | 0, i, h => ⟨true, rfl, by
      simp only [true_iff]
      intro j hj
      have := j.isLt
      omega⟩
  | n + 1, i, h => by
    have hr := hread ⟨i, by omega⟩
    simp only at hr
    by_cases hz : s.mem (t + tabEntryLen * i) = 0
    · obtain ⟨b, hb, hiff⟩ := tabIsZeroLoop_run hread (n := n) (i := i + 1) (by omega)
      refine ⟨b, ?_, hiff.trans ⟨fun h1 j hj => ?_, fun h1 j hj => h1 j (by omega)⟩⟩
      · rw [tabIsZeroLoop, Exec.bind_ok hr, if_pos hz, hb]
      · rcases Nat.eq_or_lt_of_le hj with e | hlt
        · rw [← e]; exact hz
        · exact h1 j hlt
    · refine ⟨false, ?_, ?_⟩
      · rw [tabIsZeroLoop, Exec.bind_ok hr, if_neg hz]
        rfl
      · simp only [Bool.false_eq_true, false_iff]
        exact fun h1 => hz (h1 ⟨i, by omega⟩ le_rfl)

/-- Testing a table through the window: the entry of the window counts as set. -/
theorem tabIsZero_run (h : Inv im s F) (hp : node im s.mem p = some t) :
    ∃ b, tabIsZero im directVadd (withWindow im s t) = .ok b (withWindow im s t) ∧
      (b = true ↔ t ≠ directTab im 0 ∧ ∀ j : Fin 512, s.mem (t + tabEntryLen * j) = 0) := by
  have hpage := (h.tree.frame hp).1
  have hread : ∀ j : Fin 512, readVa im (directVadd + tabEntryLen * j) (withWindow im s t) =
      .ok ((withWindow im s t).mem (t + tabEntryLen * j)) (withWindow im s t) := fun j =>
    readVa_run (translate_entry (Direct.withWindow h.tree hpage) hpage (withWindow_entry im s t) j)
  obtain ⟨b, hb, hiff⟩ := tabIsZeroLoop_run hread (n := 512) (i := 0) rfl
  refine ⟨b, ?_, hiff.trans ⟨fun h1 => ?_, fun h1 j _ => ?_⟩⟩
  · unfold tabIsZero
    rw [Exec.bind_ok (kernelAssert_pos (show mmAlignCheck directVadd pageSize4K = true from rfl) _ _)]
    exact hb
  · have hne : t ≠ directTab im 0 := by
      rintro rfl
      have h2 := h1 (key directVadd 3) (Nat.zero_le _)
      rw [← directTabEntry_eq, withWindow_entry] at h2
      omega
    refine ⟨hne, fun j => ?_⟩
    rw [← h1 j (Nat.zero_le _), withWindow_word]
    intro e
    exact hne (word_inj (h.tree.align hp) (h.tree.align h.tree.direct.node.2.2) e).1
  · rw [withWindow_word]
    · exact h1.2 j
    · intro e
      exact h1.1 (word_inj (h.tree.align hp) (h.tree.align h.tree.direct.node.2.2) e).1

/-- The entries on the way of the window do not lead to an empty table. -/
theorem Inv.empty_not_static (h : Inv im s F) (hp : node im s.mem p = some t) (ht : t ≠ directTab im 0)
    (hz : ∀ j : Fin 512, s.mem (t + tabEntryLen * j) = 0) : ¬ Static p := by
  intro hs
  obtain ⟨hlen, he⟩ := static_iff.1 hs
  rcases Nat.lt_or_eq_of_le hlen with hlt | hlt
  · rw [he] at hp
    exact h.tree.direct.not_empty hlt hp (hz _)
  · rw [he, hlt, h.tree.direct.node.2.2] at hp
    exact ht (Option.some.inj hp).symm

/-- An empty table is freed: the entry above, once cleared, gives the invariant back. -/
theorem Inv.detach (h : Inv im s F) (hp : node im s.mem p = some t) (hc : node im s.mem (i :: p) = some c)
    (hne : c ≠ directTab im 0) (hz : ∀ j : Fin 512, s.mem (c + tabEntryLen * j) = 0) :
    Inv im (withWord (pushFrame s c) (t + tabEntryLen * i) 0) (c :: F) ∧
      Shrunk im s (withWord (pushFrame s c) (t + tabEntryLen * i) 0) [c] ∧
      ∀ q x, node im s.mem q = some x → x ≠ c → ∀ j : Fin 512, j :: q ≠ i :: p →
        (withWord (pushFrame s c) (t + tabEntryLen * i) 0).mem (x + tabEntryLen * j) = s.mem (x + tabEntryLen * j) := by
  have hcf := h.tree.frame hc
  have hcal := hcf.1.bounds.1
  have htal := h.tree.align hp
  have hstat := h.empty_not_static hc hne hz
  have hct : c ≠ t := fun e => by
    have := h.tree.inj hc (e ▸ hp)
    exact absurd (congrArg List.length this) (by simp)
  have hcw : ∀ j : Fin 512, t + tabEntryLen * j ≠ c := fun j e => by
    have hj := j.isLt
    unfold tabEntryLen at e
    exact hct (by omega)
  generalize hm' : (withWord (pushFrame s c) (t + tabEntryLen * i) 0).mem = m'
  have hmem : ∀ x, x ≠ c → x ≠ t + tabEntryLen * i → m' x = s.mem x := by
    intro x h1 h2
    rw [← hm']
    exact (Function.update_of_ne h2 _ _).trans (Function.update_of_ne h1 _ _)
  -- the words of the other tables
  have hword : ∀ q x (j : Fin 512), node im s.mem q = some x → x ≠ c → x + tabEntryLen * j ≠ t + tabEntryLen * i →
      m' (x + tabEntryLen * j) = s.mem (x + tabEntryLen * j) := by
    intro q x j hq hxc hne'
    refine hmem _ (fun e => hxc ?_) hne'
    have hx := h.tree.align hq
    have hj := j.isLt
    unfold tabEntryLen at e
    omega
  have hself : m' (t + tabEntryLen * i) = 0 := by rw [← hm']; exact Function.update_self ..
  have hdirect : Direct im m' := by
    refine h.tree.direct.congr fun d hd x hx hdec => ?_
    have hnz := h.tree.direct.not_empty hd hx
    refine hword _ x _ hx (fun e => hnz (by rw [e]; exact hz _)) fun e => ?_
    have hpath := h.tree.word_eq hp hx e
    refine hstat ?_
    rw [← hpath]
    exact Radix.path_suffix (key directVadd) (show d + 1 ≤ 3 by omega)
  obtain ⟨⟨hn1, hn2⟩, htree, hlook⟩ := h.tree.detach m' hp hc hz hdirect hself hword
  have hnode : ∀ {q x}, node im m' q = some x ↔ node im s.mem q = some x ∧ x ≠ c := by
    intro q x
    by_cases e : q = i :: p
    · subst e
      rw [hn1]
      refine ⟨nofun, fun ⟨h1, h2⟩ => absurd (Option.some.inj (h1.symm.trans hc)) h2⟩
    · rw [hn2 q e]
      exact ⟨fun hx => ⟨hx, fun e' => e (h.tree.inj hx (e' ▸ hc))⟩, And.left⟩
  have hnew : ∀ x ∈ F, x ≠ c := fun x hx e => h.notTable x hx _ (e ▸ hc)
  have hwin : m' (directTabEntry im) = 0 := by
    rw [directTabEntry_eq, hword _ _ _ h.tree.direct.node.2.2 hne.symm fun e => ?_, ← directTabEntry_eq]
    · exact h.window
    · have hlen := congrArg List.length (h.tree.word_eq hp h.tree.direct.node.2.2 e)
      have hlt := h.tree.length_lt hc
      rw [List.length_cons, Radix.path_length, List.length_cons] at hlen
      rw [List.length_cons] at hlt
      omega
  have hchain : Chain 0 m' c (c :: F) := by
    refine ⟨rfl, hcf.2.ne', ?_⟩
    have hnext : m' c = s.freeHead := by
      rw [← hm']
      exact (Function.update_of_ne (hcw i).symm _ _).trans (Function.update_self ..)
    rw [hnext]
    refine h.chain.congr fun x hx => hmem x (hnew x hx) ?_
    exact (h.tree.frame_ne_start (h.frames x hx).align (h.notTable x hx) hp i).symm
  refine ⟨⟨by rw [hm']; exact htree, by rw [hm']; exact hwin, h.stage, by rw [hm']; exact hchain,
    List.nodup_cons.2 ⟨fun hx => hnew c hx rfl, h.nodup⟩, ?_, ?_, ?_⟩, ⟨by rw [hm']; exact hlook, ?_, ?_⟩,
    fun q x hq hxc j hj => ?_⟩
  · show s.freeCount + 1 = _
    rw [h.count, List.length_cons]
  · rintro x (_ | ⟨_, hx⟩)
    · exact hcf.isFrame
    · exact h.frames x hx
  · rintro x hx q hq
    rw [hm'] at hq
    obtain ⟨hq, hxc⟩ := hnode.1 hq
    exact h.notTable x ((List.mem_cons.1 hx).resolve_left hxc) q hq
  · intro q x
    rw [hm', hnode, List.mem_singleton]
  · intro x hx
    rw [List.mem_singleton.1 hx]
    exact ⟨_, hc⟩
  · exact hword q x j hq hxc (h.tree.word_ne hp hq hj)

theorem Shrunk.refl (im : Image) (s : PageState) : Shrunk im s s [] :=
  ⟨fun _ => rfl, ⟨fun h => ⟨h, List.not_mem_nil⟩, And.left⟩, nofun⟩

theorem Shrunk.trans {s'' : PageState} {R R' : List Nat} (h : Shrunk im s s' R) (h' : Shrunk im s' s'' R') :
    Shrunk im s s'' (R' ++ R) := by
  refine ⟨fun va => (h'.lookup va).trans (h.lookup va), fun {q x} => ?_, fun x hx => ?_⟩
  · rw [h'.node, h.node, List.mem_append]
    tauto
  · rcases List.mem_append.1 hx with hx | hx
    · obtain ⟨q, hq⟩ := h'.tables x hx
      exact ⟨q, (h.node.1 hq).1⟩
    · exact h.tables x hx

/-- The entry at hand is not on the way of the window, so the window works before it is cleared. -/
theorem Inv.before_clear (h : Inv im (withWord s (t + tabEntryLen * i) 0) F)
    (hp : node im (withWord s (t + tabEntryLen * i) 0).mem p = some t) (hne : t + tabEntryLen * i ≠ directTabEntry im) :
    s.mem (directTabEntry im) = 0 ∧ Direct im (withWindow im s t).mem ∧
      writeVa im (directVadd + tabEntryLen * i) 0 (withWindow im s t) =
        .ok () (withWindow im (withWord s (t + tabEntryLen * i) 0) t) := by
  have hpage := (h.tree.frame hp).1
  have hself : (withWord s (t + tabEntryLen * i) 0).mem (t + tabEntryLen * i) = 0 := Function.update_self ..
  have hw : s.mem (directTabEntry im) = 0 := by
    rw [← h.window]
    exact (Function.update_of_ne hne.symm _ _).symm
  have hds : Direct im (withWindow im s t).mem := by
    refine (Direct.withWindow h.tree hpage).congr fun e _ x _ hx => ?_
    have hxe : x + tabEntryLen * key directVadd e ≠ t + tabEntryLen * i := by
      intro e'
      obtain ⟨c, hc⟩ := hx
      rw [e', withWindow_word hne, hself, decode_zero] at hc
      cases hc
    unfold withWindow withWord
    simp only [Function.update_apply, if_neg hxe]
  refine ⟨hw, hds, ?_⟩
  rw [writeVa_run 0 (translate_entry hds hpage (withWindow_entry im s t) _)]
  unfold withWindow withWord
  rw [Function.update_comm hne]

/-- An empty table is not the one of the window. -/
theorem Inv.empty_ne_window (h : Inv im s F) (hp : node im s.mem p = some t) (hne : t ≠ directTab im 0) :
    t ≠ directTabEntry im := by
  intro e
  have h0 : t + tabEntryLen * (0 : Fin 512) = directTab im 0 + tabEntryLen * key directVadd 3 := e
  exact hne (word_inj (h.tree.align hp) (h.tree.align h.tree.direct.node.2.2) h0).1

/-- A round of the last loop: the entry is cleared, and the table freed if nothing else is in it. -/
theorem unmapUp_round {tabPa : Nat → Nat} {n d : Nat} (hd : d ≤ 3)
    (h : Inv im (withWord s (tabPa (4 - d) + tabEntryLen * key va d) 0) F)
    (hp : node im (withWord s (tabPa (4 - d) + tabEntryLen * key va d) 0).mem p = some (tabPa (4 - d)))
    (hne : tabPa (4 - d) + tabEntryLen * key va d ≠ directTabEntry im) :
    ∃ b, (b = true ↔ tabPa (4 - d) ≠ directTab im 0 ∧
        ∀ j : Fin 512, (withWord s (tabPa (4 - d) + tabEntryLen * key va d) 0).mem (tabPa (4 - d) + tabEntryLen * j) = 0) ∧
      unmapUp im va tabPa (n + 1) (4 - d) s = if b = true then
          unmapUp im va tabPa n (4 - d + 1) (pushFrame (withWord s (tabPa (4 - d) + tabEntryLen * key va d) 0) (tabPa (4 - d)))
        else .ok () (withWord s (tabPa (4 - d) + tabEntryLen * key va d) 0) := by
  have hkey : tabIndex va (4 - d) = key va d := rfl
  obtain ⟨hw, -, hwrite⟩ := h.before_clear hp hne
  generalize ht : tabPa (4 - d) = t at *
  generalize hz : withWord s (t + tabEntryLen * key va d) 0 = z at *
  have hpage := (h.tree.frame hp).1
  obtain ⟨b, hb, hiff⟩ := tabIsZero_run h hp
  refine ⟨b, hiff, ?_⟩
  rw [unmapUp, Exec.bind_ok (vaddTabIndex_run (by omega) va s), ht, hkey, Exec.bind_ok (setup_run hpage hw),
    Exec.bind_ok hwrite, Exec.bind_ok hb]
  cases b with
  | false =>
    rw [if_neg (by decide), Exec.bind_ok (Exec.pure_run () _), Exec.bind_ok (closeWindow_run h.window hpage)]
    rfl
  | true =>
    obtain ⟨s', hfree, hreset⟩ :=
      windowFree_run (Direct.withWindow h.tree hpage) hpage (h.empty_ne_window hp (hiff.1 rfl).1) h.window
    rw [if_pos rfl, Exec.bind_ok hfree, Exec.bind_ok hreset]
    rfl

theorem Inv.way_ne_window (h : Inv im s F) (hva : ¬ SamePage va directVadd) {d : Nat} (hd : d < 4)
    (hp : node im s.mem (Radix.path (key va) d) = some t) : t + tabEntryLen * key va d ≠ directTabEntry im := by
  refine h.word_ne_window hp fun e => ?_
  have hlen : d + 1 = 4 := by simpa using congrArg List.length e
  obtain rfl : d = 3 := by omega
  exact hva (samePage_path.2 e)

/-- The tables above one that was freed are still there. -/
theorem Shrunk.way {d e : Nat} (hshr : Shrunk im s s' [c]) (h : Inv im s F)
    (hc : Page.node im s.mem (Radix.path (key va) (d + 1)) = some c) (he : e ≤ d)
    (hp : Page.node im s.mem (Radix.path (key va) e) = some t) : Page.node im s'.mem (Radix.path (key va) e) = some t := by
  refine hshr.node.2 ⟨hp, fun hm => ?_⟩
  rw [List.mem_singleton.1 hm] at hp
  have hlen := congrArg List.length (h.tree.inj hp hc)
  rw [Radix.path_length, Radix.path_length] at hlen
  omega

/-- The last loop of `_unmap`. The invariant holds of the memory with the entry at hand cleared. -/
theorem unmapUp_run (hva : ¬ SamePage va directVadd) (tabPa : Nat → Nat) : ∀ {d : Nat} {s : PageState} {F : List Nat},
    d ≤ 3 → Inv im (withWord s (tabPa (4 - d) + tabEntryLen * key va d) 0) F →
    (∀ e ≤ d, node im (withWord s (tabPa (4 - d) + tabEntryLen * key va d) 0).mem (Radix.path (key va) e) =
      some (tabPa (4 - e))) →
    ∃ s' R, unmapUp im va tabPa (d + 1) (4 - d) s = .ok () s' ∧ Inv im s' (R ++ F) ∧
      Shrunk im (withWord s (tabPa (4 - d) + tabEntryLen * key va d) 0) s' R ∧
      ((∀ q x, node im (withWord s (tabPa (4 - d) + tabEntryLen * key va d) 0).mem q = some x → ¬ Static q →
          q ≠ Radix.path (key va) d → ∃ j : Fin 512,
            (withWord s (tabPa (4 - d) + tabEntryLen * key va d) 0).mem (x + tabEntryLen * j) ≠ 0) →
        NoEmpty im s'.mem) := by
  intro d
  induction d with
  | zero =>
    intro s F hd h hp
    have hroot := hp 0 le_rfl
    obtain ⟨b, hb, hrun⟩ := unmapUp_round (n := 0) hd h hroot (h.short_ne_window hroot (by simp) _)
    have hb' : ¬ b = true := fun e => h.empty_not_static hroot (hb.1 e).1 (hb.1 e).2 (List.nil_suffix)
    rw [if_neg hb'] at hrun
    refine ⟨_, [], hrun, h, .refl im _, fun hne q x hx hs => hne q x hx hs ?_⟩
    rintro rfl
    exact hs List.nil_suffix
  | succ d ih =>
    intro s F hd h hp
    have ht := hp (d + 1) le_rfl
    have hpar := hp d (by omega)
    obtain ⟨b, hb, hrun⟩ := unmapUp_round (n := d + 1) hd h ht (h.way_ne_window hva (by omega) ht)
    generalize withWord s (tabPa (4 - (d + 1)) + tabEntryLen * key va (d + 1)) 0 = z at *
    cases b with
    | false =>
      rw [if_neg (by decide)] at hrun
      refine ⟨_, [], hrun, h, .refl im _, fun hne q x hx hs => ?_⟩
      by_cases e : q = Radix.path (key va) (d + 1)
      · -- the table at hand has an entry left, or it is the one of the window
        rw [e] at hx hs
        obtain rfl : tabPa (4 - (d + 1)) = x := Option.some.inj (ht.symm.trans hx)
        by_contra hn
        push Not at hn
        refine absurd (hb.2 ⟨fun e' => hs ?_, hn⟩) (by decide)
        have h0 := h.tree.direct.node.2.2
        rw [← e'] at h0
        rw [h.tree.inj hx h0]
        exact List.suffix_rfl
      · exact hne q x hx hs e
    | true =>
      obtain ⟨hnd, hzero⟩ := hb.1 rfl
      rw [if_pos rfl, show 4 - (d + 1) + 1 = 4 - d by omega] at hrun
      obtain ⟨h', hshr, hwords⟩ := h.detach hpar ht hnd hzero
      obtain ⟨s', R, hrun', hinv', hshr', hne'⟩ := ih (by omega) h' fun e he => hshr.way h ht he (hp e (by omega))
      refine ⟨s', R ++ [tabPa (4 - (d + 1))], hrun.trans hrun', by rw [List.append_assoc]; exact hinv', hshr.trans hshr',
        fun hne => hne' fun q x hx hs hq => ?_⟩
      obtain ⟨hx, hxc⟩ := hshr.node.1 hx
      rw [List.mem_singleton] at hxc
      have hqt : q ≠ Radix.path (key va) (d + 1) := fun e => hxc (Option.some.inj ((e ▸ hx).symm.trans ht))
      obtain ⟨j, hj⟩ := hne q x hx hs hqt
      refine ⟨j, ?_⟩
      rw [hwords q x hx hxc j fun e => hq (List.cons.inj e).2]
      exact hj

/-! ## The way down -/

/-- The entry of the window is no leaf, so an address with a translation is not in it. -/
theorem Inv.not_window (h : Inv im s F) {l : Leaf} (hl : lookup s.mem im.tab4 va = some l) : ¬ SamePage va directVadd := by
  intro hs
  rw [lookup_samePage hs] at hl
  obtain ⟨d, hd, t, ht, hdec⟩ := Radix.walk_eq_some.1 hl
  have hd3 := Radix.depth_le_of_leaf ht hdec h.tree.direct.node.2.2
  obtain rfl : d = 3 := by omega
  obtain rfl : directTab im 0 = t := Option.some.inj (h.tree.direct.node.2.2.symm.trans ht)
  have hz : decode 3 (s.mem (directTabEntry im)) = .leaf l := hdec
  rw [h.window, decode_zero] at hz
  cases hz

/-- The first loop of `_unmap` collects the tables on the way of the page. -/
theorem unmapDown_run (h : Inv im s F) (hva : ¬ SamePage va directVadd) {D : Nat} {l : Leaf} (hD : D < 4)
    (hp : node im s.mem (Radix.path (key va) D) = some t)
    (hl : decode D (s.mem (t + tabEntryLen * key va D)) = .leaf l) : ∀ {n d : Nat} {tabPa : Nat → Nat}, n + d = 4 → d ≤ D →
    (∀ e ≤ d, node im s.mem (Radix.path (key va) e) = some (tabPa (4 - e))) →
    ∃ tabPa', unmapDown im va n tabPa s = .ok (3 - D, l.huge, tabPa') s ∧
      (∀ e ≤ D, node im s.mem (Radix.path (key va) e) = some (tabPa' (4 - e))) ∧ tabPa' (3 - D) = l.base := by
  intro n
  induction n with
  | zero => intro d tabPa hn hd _; omega
  | succ n ih =>
    intro d tabPa hn hd htabs
    have hkey : tabIndex va (n + 1) = key va d := by rw [key, show 4 - d = n + 1 by omega]
    have htab := htabs d le_rfl
    rw [show 4 - d = n + 1 by omega] at htab
    have hpage := (h.tree.frame htab).1
    have hne := h.way_ne_window hva (by omega) htab
    have hok := h.tree.entry htab (key va d)
    rw [Radix.path_length] at hok
    -- the array after this round
    have hstep : ∀ c, ∀ e ≤ d, node im s.mem (Radix.path (key va) e) = some (Function.update tabPa n c (4 - e)) := by
      intro c e he
      rw [Function.update_of_ne (by omega)]
      exact htabs e he
    rw [unmapDown, Exec.bind_ok (vaddTabIndex_run (by omega) va s), hkey, Exec.bind_ok (setup_run hpage h.window),
      Exec.bind_ok (readEntry_run h htab hne)]
    rcases Nat.lt_or_eq_of_le hd with hlt | rfl
    · obtain ⟨c, hc⟩ := Radix.node_suffix (Radix.path_suffix (key va) (Nat.succ_le_of_lt hlt)) hp
      obtain ⟨-, hpres, hhuge, hpadd⟩ := h.tree.entry_of_table htab hc
      rw [Exec.bind_ok (kernelAssert_pos hpres _ _), hhuge, if_neg (by decide), Exec.bind_ok (Exec.pure_run () _),
        Exec.bind_ok (closeWindow_run h.window hpage), if_neg (by decide), hpadd]
      refine ih (by omega) hlt fun e he => ?_
      rcases Nat.lt_or_eq_of_le he with he | rfl
      · exact hstep c e (by omega)
      · rw [show 4 - (d + 1) = n by omega, Function.update_self]
        exact hc
    · obtain rfl : tabPa (n + 1) = t := Option.some.inj (htab.symm.trans hp)
      obtain ⟨hpres, hhuge, hpadd, -, -, h2m, h4k⟩ := decode_eq_leaf hok hl
      rw [Exec.bind_ok (kernelAssert_pos hpres _ _), hhuge, hpadd]
      cases hl' : l.huge with
      | true =>
        have hn2 : n + 1 = 2 := by have := (h2m hl').1; omega
        rw [if_pos rfl, Exec.bind_ok (kernelAssert_pos hn2 _ _), Exec.bind_ok (closeWindow_run h.window hpage), if_pos rfl]
        refine ⟨Function.update tabPa n l.base, ?_, hstep _, ?_⟩
        · rw [show 3 - d = n by omega]
          rfl
        · rw [show 3 - d = n by omega, Function.update_self]
      | false =>
        have hd3 := h4k hl'
        obtain rfl : n = 0 := by omega
        rw [if_neg (by decide), Exec.bind_ok (Exec.pure_run () _), Exec.bind_ok (closeWindow_run h.window hpage),
          if_neg (by decide)]
        refine ⟨Function.update tabPa 0 l.base, ?_, hstep _, ?_⟩
        · rw [show 3 - d = 0 by omega]
          rfl
        · rw [show 3 - d = 0 by omega, Function.update_self]

/-- `_unmap` stops on a page without translation. -/
theorem unmapDown_none (h : Inv im s F) (hva : ¬ SamePage va directVadd) (hnone : lookup s.mem im.tab4 va = none) :
    ∀ {n d : Nat} {tabPa : Nat → Nat}, n + d = 4 → node im s.mem (Radix.path (key va) d) = some (tabPa n) →
    ∃ e s', unmapDown im va n tabPa s = .error e s' := by
  intro n
  induction n with
  | zero =>
    intro d tabPa hn htab
    have := h.tree.length_lt htab
    rw [Radix.path_length] at this
    omega
  | succ n ih =>
    intro d tabPa hn htab
    have hkey : tabIndex va (n + 1) = key va d := by rw [key, show 4 - d = n + 1 by omega]
    have hpage := (h.tree.frame htab).1
    have hne := h.way_ne_window hva (by omega) htab
    rw [unmapDown, Exec.bind_ok (vaddTabIndex_run (by omega) va s), hkey, Exec.bind_ok (setup_run hpage h.window),
      Exec.bind_ok (readEntry_run h htab hne)]
    rcases h.tree.table_or_zero hnone (by omega) htab with hz | ⟨c, hc⟩
    · rw [hz, Exec.bind_error (kernelAssert_neg (by decide) _ _)]
      exact ⟨_, _, rfl⟩
    · obtain ⟨-, hpres, hhuge, hpadd⟩ := h.tree.entry_of_table htab hc
      rw [Exec.bind_ok (kernelAssert_pos hpres _ _), hhuge, if_neg (by decide), Exec.bind_ok (Exec.pure_run () _),
        Exec.bind_ok (closeWindow_run h.window hpage), if_neg (by decide), hpadd]
      refine ih (by omega) (hc.trans ?_)
      rw [Function.update_self]

theorem unmap_none (h : Inv im s F) (hva : ¬ SamePage va directVadd) (hnone : lookup s.mem im.tab4 va = none) (size : Nat)
    (free : Bool) : ∃ e s', unmap im va size free s = .error e s' := by
  have hroot : node im s.mem (Radix.path (key va) 0) = some (Function.update (fun _ => 0) 4 im.tab4 4) := by
    rw [Function.update_self]
    rfl
  obtain ⟨e, s', hdown⟩ := unmapDown_none h hva hnone (n := 4) rfl hroot
  unfold unmap
  by_cases hal : mmAlignCheck va size = true
  · rw [Exec.bind_ok (kernelAssert_pos hal _ s), Exec.bind_error hdown]
    exact ⟨_, _, rfl⟩
  · rw [Exec.bind_error (kernelAssert_neg hal _ s)]
    exact ⟨_, _, rfl⟩

/-! ## The page itself -/

/-- Clearing a leaf. -/
theorem Inv.clear (h : Inv im s F) (hva : ¬ SamePage va directVadd) {D : Nat} {l : Leaf} (hD : D < 4)
    (hp : node im s.mem (Radix.path (key va) D) = some t)
    (hl : decode D (s.mem (t + tabEntryLen * key va D)) = .leaf l) :
    Inv im (withWord s (t + tabEntryLen * key va D) 0) F ∧
      (∀ q, node im (withWord s (t + tabEntryLen * key va D) 0).mem q = node im s.mem q) ∧
      (∀ va', Radix.path (key va') (D + 1) ≠ Radix.path (key va) (D + 1) →
        lookup (withWord s (t + tabEntryLen * key va D) 0).mem im.tab4 va' = lookup s.mem im.tab4 va') ∧
      ∀ va', Radix.path (key va') (D + 1) = Radix.path (key va) (D + 1) →
        lookup (withWord s (t + tabEntryLen * key va D) 0).mem im.tab4 va' = none := by
  have hself : (withWord s (t + tabEntryLen * key va D) 0).mem (t + tabEntryLen * key va D) = 0 := Function.update_self ..
  obtain ⟨hnode, htree, hlook⟩ := h.tree.set (withWord s (t + tabEntryLen * key va D) 0).mem hp
    (by rw [Radix.path_length, hl]; simp) (by rw [hself, decode_zero]; simp) (by rw [hself]; exact .zero _)
    fun q x j _ hx => Function.update_of_ne hx _ _
  rw [Radix.path_length] at hlook
  refine ⟨⟨htree, ?_, h.stage, h.chain.congr fun x hx => ?_, h.nodup, h.count, h.frames, fun x hx q hq => ?_⟩, hnode,
    hlook, fun va' hs => ?_⟩
  · exact (Function.update_of_ne (h.way_ne_window hva hD hp).symm _ _).trans h.window
  · exact Function.update_of_ne (h.tree.frame_ne_start (h.frames x hx).align (h.notTable x hx) hp _).symm _ _
  · exact h.notTable x hx q ((hnode q).symm.trans hq)
  · obtain ⟨hk, hpath⟩ := List.cons.inj hs
    have hp' : Radix.node (entries (withWord s (t + tabEntryLen * key va D) 0).mem) im.tab4 (Radix.path (key va') D) = some t := by
      rw [hpath]
      exact (hnode _).trans hp
    unfold lookup
    rw [show 4 = D + (3 - D + 1) by omega, Radix.walk_of_node _ hp', Radix.walk]
    unfold entries
    rw [hk, hself, decode_zero]

/-! ## _unmap -/

/-- What `_unmap` does: the translations through the leaf are gone and no other changed, the tables `R`
were freed, and no table became empty. -/
structure Unmapped (im : Image) (va d : Nat) (s s' : PageState) (R : List Nat) : Prop where
  here : ∀ va', Radix.path (key va') (d + 1) = Radix.path (key va) (d + 1) → lookup s'.mem im.tab4 va' = none
  elsewhere : ∀ va', Radix.path (key va') (d + 1) ≠ Radix.path (key va) (d + 1) →
    lookup s'.mem im.tab4 va' = lookup s.mem im.tab4 va'
  node : ∀ {q t}, node im s'.mem q = some t ↔ node im s.mem q = some t ∧ t ∉ R
  tables : ∀ t ∈ R, ∃ q, Page.node im s.mem q = some t
  noEmpty : NoEmpty im s.mem → NoEmpty im s'.mem

/-- A change of memory that the tables do not see. -/
structure SameTables (im : Image) (s s' : PageState) : Prop where
  node : ∀ q, node im s'.mem q = node im s.mem q
  lookup : ∀ va, lookup s'.mem im.tab4 va = lookup s.mem im.tab4 va
  words : ∀ q t, Page.node im s.mem q = some t → ∀ i : Fin 512, s'.mem (t + tabEntryLen * i) = s.mem (t + tabEntryLen * i)

theorem SameTables.refl (im : Image) (s : PageState) : SameTables im s s := ⟨fun _ => rfl, fun _ => rfl, fun _ _ _ _ => rfl⟩

theorem SameTables.trans {s'' : PageState} (h : SameTables im s s') (h' : SameTables im s' s'') : SameTables im s s'' :=
  ⟨fun q => (h'.node q).trans (h.node q), fun va => (h'.lookup va).trans (h.lookup va), fun q t ht i => by
    rw [h'.words q t ((h.node q).trans ht) i, h.words q t ht i]⟩

theorem SameTables.push (h : Inv im s F) (hu : Unused im s F f) : SameTables im s (pushFrame s f) := by
  obtain ⟨-, h2, h3⟩ := h.push hu
  refine ⟨h2, h3, fun q t ht i => ?_⟩
  exact Function.update_of_ne (h.tree.frame_ne_start hu.frame.align hu.notTable ht i) _ _

theorem vaddPageOffset_run {l : Leaf} (hal : va % l.size = 0) (s : PageState) :
    vaddPageOffset va (4 - l.depth) s = .ok 0 s := by
  unfold vaddPageOffset
  unfold Leaf.size pageSize2M pageSize4K at hal
  unfold Leaf.depth
  cases hl : l.huge with
  | true =>
    rw [hl, if_pos rfl] at hal
    rw [if_pos rfl, if_neg (by decide), if_pos rfl, show (0x1fffff : Nat) = 2 ^ 21 - 1 by norm_num,
      Nat.and_two_pow_sub_one_eq_mod, show 2 ^ 21 = 2 * 1024 * 1024 by norm_num, hal]
    rfl
  | false =>
    rw [hl, if_neg (by decide)] at hal
    rw [if_pos (by decide), show (0xfff : Nat) = 2 ^ 12 - 1 by norm_num, Nat.and_two_pow_sub_one_eq_mod,
      show 2 ^ 12 = 4096 by norm_num, hal]
    rfl

/-! ## The frames of the page -/

/-- The frames of the page a leaf maps. -/
def Leaf.frames (l : Leaf) : List Nat :=
  if l.huge then (List.range 512).map fun k => l.base + 4096 * k else [l.base]

/-- The start of a 4K page is translated to the start of its frame. -/
theorem translate_base {m : Words} {l : Leaf} (hl : lookup m im.tab4 va = some l) (hh : l.huge = false)
    (hal : va % pageSize4K = 0) : translate m im.tab4 va = some l.base := by
  unfold translate
  rw [hl]
  simp [hh, hal]

/-- All 4K pages of a 2M page have its leaf. -/
theorem Inv.lookup_inside (h : Inv im s F) {l : Leaf} (hl : lookup s.mem im.tab4 va = some l) (hh : l.huge = true)
    (hal : va % 2097152 = 0) {k : Nat} (hk : k < 512) : translate s.mem im.tab4 (va + 4096 * k) = some (l.base + 4096 * k) := by
  have hdepth : l.depth = 2 := by unfold Leaf.depth; rw [if_pos hh]
  have hkey : ∀ d < 3, key (va + 4096 * k) d = key va d := by
    intro d hd
    refine Fin.ext ?_
    rw [key_val (by omega), key_val (by omega)]
    interval_cases d <;> norm_num <;> omega
  have hl' : lookup s.mem im.tab4 (va + 4096 * k) = some l :=
    h.tree.lookup_of_path hl (by rw [hdepth]; exact Radix.path_congr hkey)
  unfold translate
  rw [hl']
  simp only [Option.map_some, hh, if_true]
  unfold pageSize2M
  rw [show (va + 4096 * k) % (2 * 1024 * 1024) = 4096 * k by omega]

theorem u64_step (x : Nat) : u64 (u64 x + pageSize4K) = u64 (x + pageSize4K) := by
  unfold u64; omega

/-- The frames of a 2M page go to the list one by one. -/
theorem freeFramesLoop_run {l : Leaf} (hh : l.huge = true) (hal : va % 2097152 = 0) (h64 : va < 2 ^ 64) : ∀ {n j : Nat}
    {s : PageState} {F : List Nat}, j + n = 512 → Inv im s F → lookup s.mem im.tab4 va = some l →
    (∀ k, j ≤ k → k < 512 → Unused im s F (l.base + 4096 * k)) →
    ∃ s' F', freeFramesLoop im n (u64 (va + 4096 * j)) (u64 (l.base + 4096 * j)) s = .ok () s' ∧ Inv im s' F' ∧
      SameTables im s s' ∧ ∀ x, x ∈ F' ↔ x ∈ F ∨ ∃ k, j ≤ k ∧ k < 512 ∧ x = l.base + 4096 * k := by
  intro n
  induction n with
  | zero =>
    intro j s F hj h _ _
    refine ⟨s, F, rfl, h, .refl im s, fun x => ⟨.inl, ?_⟩⟩
    rintro (hx | ⟨k, h1, h2, -⟩)
    · exact hx
    · omega
  | succ n ih =>
    intro j s F hj h hl hu
    obtain ⟨-, -, -, -, hb, -⟩ := h.tree.leaf_spec hl
    have huj := hu j le_rfl (by omega)
    obtain ⟨hinv, -, hlook⟩ := h.push huj
    have hsame := SameTables.push h huj
    obtain ⟨s', F', hrun, hinv', hsame', hmem⟩ := ih (j := j + 1) (by omega) hinv ((hlook va).trans hl) fun k h1 h2 =>
      h.unused_push huj (hu k (by omega) h2) (by omega)
    have hnext : ∀ x, x + 4096 * (j + 1) = x + 4096 * j + pageSize4K := by intro x; unfold pageSize4K; omega
    rw [hnext, hnext] at hrun
    refine ⟨s', F', ?_, hinv', hsame.trans hsame', fun x => ?_⟩
    · rw [freeFramesLoop, u64_step, u64_step, u64_of_lt (n := va + 4096 * j) (by omega),
        u64_of_lt (n := l.base + 4096 * j) (by omega),
        Exec.bind_ok (mmFrameFree_run _ (h.lookup_inside hl hh hal (by omega)))]
      exact hrun
    · rw [hmem x, List.mem_cons]
      constructor
      · rintro ((hx | hx) | ⟨k, h1, h2, hx⟩)
        · exact .inr ⟨j, le_rfl, by omega, hx⟩
        · exact .inl hx
        · exact .inr ⟨k, by omega, h2, hx⟩
      · rintro (hx | ⟨k, h1, h2, hx⟩)
        · exact .inl (.inr hx)
        · rcases Nat.eq_or_lt_of_le h1 with rfl | h1
          · exact .inl (.inl hx)
          · exact .inr ⟨k, h1, h2, hx⟩

/-- The middle of `_unmap` puts the frames of the page on the list, if asked to. -/
theorem unmapFree_run (h : Inv im s F) {l : Leaf} (hl : lookup s.mem im.tab4 va = some l) (hal : va % l.size = 0)
    (h64 : va < 2 ^ 64) {free : Bool} (hfree : free = true → ∀ f ∈ l.frames, Unused im s F f) :
    ∃ s₁ F₁, unmapFree im va l.size (4 - l.depth) l.base l.huge free s = .ok () s₁ ∧ Inv im s₁ F₁ ∧ SameTables im s s₁ ∧
      (l.huge = false → F₁ = (if free = true then [l.base] else []) ++ F) ∧
      (l.huge = true → ∀ x, x ∈ F₁ ↔ x ∈ F ∨ free = true ∧ ∃ k < 512, x = l.base + 4096 * k) := by
  obtain ⟨-, -, -, hb4, hb, hb2⟩ := h.tree.leaf_spec hl
  unfold unmapFree
  unfold Leaf.size Leaf.depth at *
  unfold Leaf.frames at hfree
  cases hh : l.huge with
  | false =>
    rw [hh, if_neg (by decide)] at hal hfree
    have hb' : mmAlignCheck l.base pageSize4K = true := mmAlignCheck_iff.2 hb4
    have htr := translate_base hl hh hal
    rw [if_pos (by decide), if_neg (by decide), Exec.bind_ok (kernelAssert_pos rfl _ _),
      Exec.bind_ok (kernelAssert_pos rfl _ _), Exec.bind_ok (kernelAssert_pos hb' _ _)]
    cases free with
    | false => exact ⟨s, F, rfl, h, .refl im s, fun _ => rfl, nofun⟩
    | true =>
      have hu := hfree rfl l.base (List.mem_singleton_self _)
      exact ⟨pushFrame s l.base, l.base :: F, mmFrameFree_run _ htr, (h.push hu).1, .push h hu, fun _ => rfl, nofun⟩
  | true =>
    rw [hh, if_pos rfl] at hal hfree
    have hb' : mmAlignCheck l.base pageSize2M = true := mmAlignCheck_iff.2 (hb2 hh)
    unfold pageSize2M at hal
    rw [if_neg (by decide), if_pos (by decide), if_pos rfl, Exec.bind_ok (kernelAssert_pos rfl _ _),
      Exec.bind_ok (kernelAssert_pos rfl _ _), Exec.bind_ok (kernelAssert_pos hb' _ _)]
    cases free with
    | false => exact ⟨s, F, rfl, h, .refl im s, nofun, fun _ x => by simp⟩
    | true =>
      obtain ⟨s', F', hrun, hinv, hsame, hmem⟩ := freeFramesLoop_run hh hal h64 (n := 512) (j := 0) rfl h hl fun k _ hk =>
        hfree rfl _ (List.mem_map.2 ⟨k, List.mem_range.2 hk, rfl⟩)
      rw [Nat.mul_zero, Nat.add_zero, Nat.add_zero, u64_of_lt h64, u64_of_lt (by omega)] at hrun
      exact ⟨s', F', hrun, hinv, hsame, nofun, fun _ x => by rw [hmem x]; simp⟩

/-- The list after the frames were given back. -/
theorem unmapFree_frames (h : Inv im s F) {l : Leaf} (hl : lookup s.mem im.tab4 va = some l) (hal : va % l.size = 0)
    (h64 : va < 2 ^ 64) {free : Bool} (hfree : free = true → ∀ f ∈ l.frames, Unused im s F f) :
    ∃ s₁ F₁, unmapFree im va l.size (4 - l.depth) l.base l.huge free s = .ok () s₁ ∧ Inv im s₁ F₁ ∧ SameTables im s s₁ ∧
      ∀ x ∈ F₁, x ∈ F ∨ free = true ∧ x ∈ l.frames := by
  obtain ⟨s₁, F₁, hrun, h₁, hsame, hF, hF2⟩ := unmapFree_run h hl hal h64 hfree
  refine ⟨s₁, F₁, hrun, h₁, hsame, fun x hx => ?_⟩
  unfold Leaf.frames
  cases hh : l.huge with
  | false =>
    rw [hF hh] at hx
    rcases List.mem_append.1 hx with hx | hx
    · by_cases hfr : free = true
      · rw [if_pos hfr] at hx
        exact .inr ⟨hfr, by simpa using hx⟩
      · rw [if_neg hfr] at hx
        cases hx
    · exact .inl hx
  | true =>
    refine ((hF2 hh x).1 hx).imp_right fun ⟨hfr, k, hk, he⟩ => ⟨hfr, ?_⟩
    rw [if_pos rfl]
    exact List.mem_map.2 ⟨k, List.mem_range.2 hk, he.symm⟩

/-- The first loop of `_unmap` for a mapped page: the tables on the way to it, and its base below them. -/
theorem Inv.unmapDown_leaf (h : Inv im s F) {l : Leaf} (hl : lookup s.mem im.tab4 va = some l) :
    ∃ tabPa, unmapDown im va 4 (Function.update (fun _ => 0) 4 im.tab4) s = .ok (3 - l.depth, l.huge, tabPa) s ∧
      (∀ e ≤ l.depth, node im s.mem (Radix.path (key va) e) = some (tabPa (4 - e))) ∧ tabPa (3 - l.depth) = l.base ∧
      decode l.depth (s.mem (tabPa (4 - l.depth) + tabEntryLen * key va l.depth)) = .leaf l := by
  obtain ⟨t, ht, hdec, -⟩ := h.tree.leaf_spec hl
  have hd := l.depth_cases
  have hroot : ∀ e ≤ 0, node im s.mem (Radix.path (key va) e) = some (Function.update (fun _ => 0) 4 im.tab4 (4 - e)) := by
    intro e he
    rw [Nat.le_zero.1 he, Function.update_self]
    rfl
  obtain ⟨tabPa, hdown, htabs, hbase⟩ := unmapDown_run h (h.not_window hl) (by omega) ht hdec (n := 4) rfl (by omega) hroot
  obtain rfl : t = tabPa (4 - l.depth) := Option.some.inj (ht.symm.trans (htabs _ le_rfl))
  exact ⟨tabPa, hdown, htabs, hbase, hdec⟩

/-- `_unmap` of a mapped page, once its frames were given back. -/
theorem unmap_run (h : Inv im s F) {l : Leaf} (hl : lookup s.mem im.tab4 va = some l) (hal : va % l.size = 0)
    {free : Bool} {s₁ : PageState} {F₁ : List Nat}
    (hfree : unmapFree im va l.size (4 - l.depth) l.base l.huge free s = .ok () s₁) (h₁ : Inv im s₁ F₁)
    (hsame : SameTables im s s₁) :
    ∃ s' R, unmap im va l.size free s = .ok l.base s' ∧ Inv im s' (R ++ F₁) ∧ Unmapped im va l.depth s s' R := by
  have hva := h.not_window hl
  obtain ⟨-, -, -, -, hb, -⟩ := h.tree.leaf_spec hl
  have hd := l.depth_cases
  have halign : mmAlignCheck va l.size = true := mmAlignCheck_iff.2 hal
  obtain ⟨tabPa, hdown, htabs, hbase, hdec⟩ := h.unmapDown_leaf hl
  have hlev : 3 - l.depth + 1 = 4 - l.depth := by omega
  -- the leaf, cleared in the memory in which the frames are free
  have ht := htabs _ le_rfl
  have ht₁ := (hsame.node _).trans ht
  have hdec₁ : decode l.depth (s₁.mem (tabPa (4 - l.depth) + tabEntryLen * key va l.depth)) = .leaf l := by
    rw [hsame.words _ _ ht]; exact hdec
  obtain ⟨hz, hznode, hzelse, hzhere⟩ := h₁.clear hva (by omega) ht₁ hdec₁
  obtain ⟨s', R, hup, hinv, hshr, hne⟩ := unmapUp_run hva tabPa (d := l.depth) (s := s₁) (by omega) hz fun e he => by
    rw [hznode, hsame.node]
    exact htabs e he
  have hnode : ∀ {q x}, node im s'.mem q = some x ↔ node im s.mem q = some x ∧ x ∉ R := by
    intro q x
    rw [hshr.node, hznode, hsame.node]
  refine ⟨s', R, ?_, hinv, ⟨fun va' hs => (hshr.lookup va').trans (hzhere va' hs),
    fun va' hs => ((hshr.lookup va').trans (hzelse va' hs)).trans (hsame.lookup va'), hnode, fun x hx => ?_, fun hn => hne ?_⟩⟩
  · have hpa : u64 (tabPa (3 - l.depth + 1 - 1) + 0) = l.base := by
      rw [Nat.add_sub_cancel, hbase, Nat.add_zero, u64_of_lt (by omega)]
    unfold unmap
    rw [Exec.bind_ok (kernelAssert_pos halign _ s), Exec.bind_ok hdown]
    show (kernelAssert (3 - l.depth + 1 = 1 ∨ 3 - l.depth + 1 = 2) _ >>= fun _ => _) s = _
    rw [Exec.bind_ok (kernelAssert_pos (by omega) _ s)]
    show (vaddPageOffset va (3 - l.depth + 1) >>= fun off => _) s = _
    rw [hlev, Exec.bind_ok (vaddPageOffset_run hal s)]
    show (unmapFree im va l.size (4 - l.depth) (u64 (tabPa (4 - l.depth - 1) + 0)) l.huge free >>= fun _ => _) s = _
    rw [← hlev, hpa, hlev, Exec.bind_ok hfree, show 5 - (4 - l.depth) = l.depth + 1 by omega, Exec.bind_ok hup]
    rfl
  · obtain ⟨q, hq⟩ := hshr.tables x hx
    exact ⟨q, (hsame.node q).symm.trans ((hznode q).symm.trans hq)⟩
  · intro q x hx hs hq
    have hx₁ := (hznode q).symm.trans hx
    have hx₀ := (hsame.node q).symm.trans hx₁
    obtain ⟨j, hj⟩ := hn q x hx₀ hs
    refine ⟨j, ?_⟩
    have hword : x + tabEntryLen * j ≠ tabPa (4 - l.depth) + tabEntryLen * key va l.depth :=
      h₁.tree.word_ne ht₁ hx₁ fun e => hq (List.cons.inj e).2
    show Function.update s₁.mem _ _ _ ≠ 0
    rw [Function.update_of_ne hword, hsame.words q x hx₀]
    exact hj

end Cing.Page
