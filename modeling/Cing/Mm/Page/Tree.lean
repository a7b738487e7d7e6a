/-
The tree of page tables below `_tab_4`: which memory is one, and how it changes. Its tables are frames,
each at one path; an entry is zero or present. Four changes are all that the code makes: memory outside
the tables, a leaf, an empty table linked, an empty table unlinked.
-/
import Cing.Mm.Page.Model

namespace Cing.Page

open Radix (Entry)

/-! ## Pages, frames, entries -/

/-- A page an entry can point to. -/
def IsPage (p : Nat) : Prop := p % pageSize4K = 0 ∧ p ≤ va48LowEnd

/-- A frame: a 4K page of physical memory, which has 52 bits of address, that is not the null frame. -/
def IsFrame (f : Nat) : Prop := f % pageSize4K = 0 ∧ 0 < f ∧ f < 2 ^ 52

/-- A frame an entry can point to. -/
def LowFrame (f : Nat) : Prop := IsPage f ∧ 0 < f

/-- An entry of a table at depth `d` is zero or present, and of a 2M page at depth 2 only. -/
def EntryOk (d e : Nat) : Prop :=
  e = 0 ∨ tabEntryIsPresent e = true ∧ e < 2 ^ 52 ∧ (tabEntryIsHuge e = true → d = 2 ∧ e / 4096 % 512 = 0)

theorem IsPage.bounds {p : Nat} (h : IsPage p) : p % 4096 = 0 ∧ p < 2 ^ 47 := by
  obtain ⟨h1, h2⟩ := h
  unfold pageSize4K at h1
  unfold va48LowEnd at h2
  exact ⟨h1, by omega⟩

theorem LowFrame.isFrame {f : Nat} (h : LowFrame f) : IsFrame f :=
  ⟨h.1.1, h.2, by have := h.1.bounds; omega⟩

theorem IsFrame.align {f : Nat} (h : IsFrame f) : f % 4096 = 0 := h.1

/-- Two words of tables are the same only if the tables and the indices are. -/
theorem word_inj {t t' : Nat} {i j : Fin 512} (ht : t % 4096 = 0) (ht' : t' % 4096 = 0)
    (h : t + tabEntryLen * i = t' + tabEntryLen * j) : t = t' ∧ i = j := by
  have hi := i.isLt
  have hj := j.isLt
  unfold tabEntryLen at h
  refine ⟨by omega, Fin.ext (by omega)⟩

section Entries

variable {d e p : Nat}

theorem decode_zero (d : Nat) : decode d 0 = .absent := by
  unfold decode tabEntryIsPresent
  rw [Nat.zero_testBit, if_neg (by decide)]

/-- The last level links to no table. -/
theorem decode_last (e c : Nat) : decode 3 e ≠ .table c := by
  unfold decode
  rw [if_pos le_rfl]
  split_ifs <;> simp

theorem EntryOk.zero (d : Nat) : EntryOk d 0 := .inl rfl

/-- An entry is absent exactly if it is zero. -/
theorem EntryOk.absent_iff (h : EntryOk d e) : decode d e = .absent ↔ e = 0 := by
  constructor
  · intro hd
    rcases h with h | ⟨h, -⟩
    · exact h
    · unfold decode at hd
      rw [if_pos h] at hd
      split_ifs at hd
  · rintro rfl; exact decode_zero d

theorem decode_eq_table {c : Nat} (h : EntryOk d e) (hd : decode d e = .table c) :
    d < 3 ∧ tabEntryIsPresent e = true ∧ tabEntryIsHuge e = false ∧ tabEntryGetPadd e = c := by
  rcases h with rfl | ⟨h1, h2, h3⟩
  · rw [decode_zero] at hd; cases hd
  · unfold decode at hd
    rw [if_pos h1] at hd
    split_ifs at hd with h4 h5
    cases hd
    refine ⟨by omega, h1, ?_, by rw [tabEntryGetPadd_eq h2, hwPadd_eq h2]⟩
    cases hh : tabEntryIsHuge e with
    | false => rfl
    | true => exact absurd ⟨(h3 hh).1, hh⟩ h5

theorem decode_eq_leaf {l : Leaf} (h : EntryOk d e) (hd : decode d e = .leaf l) :
    tabEntryIsPresent e = true ∧ tabEntryIsHuge e = l.huge ∧ tabEntryGetPadd e = l.base ∧ l.base % 4096 = 0 ∧
      l.base < 2 ^ 52 ∧ (l.huge = true → d = 2 ∧ l.base % 2097152 = 0) ∧ (l.huge = false → 3 ≤ d) := by
  rcases h with rfl | ⟨h1, h2, h3⟩
  · rw [decode_zero] at hd; cases hd
  · have hpadd : tabEntryGetPadd e = hwPadd e := by rw [tabEntryGetPadd_eq h2, hwPadd_eq h2]
    have hb := hwPadd_eq h2
    unfold decode at hd
    rw [if_pos h1] at hd
    split_ifs at hd with h4 h5
    · cases hd
      refine ⟨h1, ?_, hpadd, by simp only; omega, by simp only; omega, nofun, fun _ => h4⟩
      cases hh : tabEntryIsHuge e with
      | false => rfl
      | true => exact absurd (h3 hh).1 (by omega)
    · cases hd
      have h6 := (h3 h5.2).2
      exact ⟨h1, h5.2, hpadd, by simp only; omega, by simp only; omega, fun _ => ⟨h5.1, by simp only; omega⟩, nofun⟩

/-- The entry the code writes for a page of 4K. -/
theorem entry_value (hp : p % 4096 = 0) : p ||| 1 ||| 2 ||| 0 = p + 3 := by
  obtain ⟨a, rfl⟩ := Nat.dvd_of_mod_eq_zero hp
  rw [Nat.or_zero, Nat.or_assoc, show (1 ||| 2 : Nat) = 3 by decide, show 4096 * a = 2 ^ 12 * a by norm_num,
    ← Nat.two_pow_add_eq_or_of_lt (by norm_num)]

theorem tabEntryInit_run {level : Nat} (h : 1 ≤ level ∧ level ≤ 4) (hp : IsPage p) (s : PageState) :
    tabEntryInit level true true p pageSize4K s = .ok (p + 3) s := by
  obtain ⟨h1, h2⟩ := hp.bounds
  have hal : mmAlignCheck p pageSize4K = true := mmAlignCheck_iff.2 hp.1
  have hlevel : tabEntryCheck level pageSize4K s = .ok () s := by
    unfold tabEntryCheck
    split_ifs with h3 h4 h5
    · exact kernelAssert_pos rfl _ s
    · exact kernelAssert_pos (.inl rfl) _ s
    · exact kernelAssert_pos (.inl rfl) _ s
    · omega
  unfold tabEntryInit
  rw [Exec.bind_ok hlevel, Exec.bind_ok (kernelAssert_pos hal _ s), Exec.bind_ok (kernelAssert_pos (.inl hp.2) _ s),
    ← entry_value h1]
  rfl

theorem present_value (hp : IsPage p) : tabEntryIsPresent (p + 3) = true ∧ tabEntryIsHuge (p + 3) = false ∧
    tabEntryIsWritable (p + 3) = true ∧ hwPadd (p + 3) = p := by
  obtain ⟨h1, h2⟩ := hp.bounds
  unfold tabEntryIsPresent tabEntryIsHuge tabEntryIsWritable
  rw [Nat.testBit_eq_decide_div_mod_eq, Nat.testBit_eq_decide_div_mod_eq, Nat.testBit_eq_decide_div_mod_eq,
    hwPadd_eq (by omega)]
  refine ⟨decide_eq_true (by omega), decide_eq_false (by omega), decide_eq_true (by omega), by omega⟩

theorem EntryOk.value (d : Nat) (hp : IsPage p) : EntryOk d (p + 3) := by
  obtain ⟨h1, h2, -⟩ := present_value hp
  obtain ⟨-, h3⟩ := hp.bounds
  exact .inr ⟨h1, by omega, fun hh => absurd hh (by rw [h2]; decide)⟩

theorem decode_value_table (hd : d < 3) (hp : IsPage p) : decode d (p + 3) = .table p := by
  obtain ⟨h1, h2, -, h3⟩ := present_value hp
  unfold decode
  rw [if_pos h1, if_neg (by omega), if_neg (by rw [h2]; simp), h3]

theorem decode_value_leaf (hd : 3 ≤ d) (hp : IsPage p) : decode d (p + 3) = .leaf ⟨p, true, false⟩ := by
  obtain ⟨h1, h2, h3, h4⟩ := present_value hp
  unfold decode
  rw [if_pos h1, if_pos hd, h3, h4]

end Entries

/-! ## The tree -/

/-- The table at a path below `_tab_4`. -/
abbrev node (im : Image) (m : Words) : List (Fin 512) → Option Nat := Radix.node (entries m) im.tab4

/-- The links from `_tab_4` to the table of the window, as `_init_direct_access` makes them. -/
structure Direct (im : Image) (m : Words) : Prop where
  l4 : decode 0 (m (im.tab4 + tabEntryLen * key directVadd 0)) = .table (directTab im 2)
  l3 : decode 1 (m (directTab im 2 + tabEntryLen * key directVadd 1)) = .table (directTab im 1)
  l2 : decode 2 (m (directTab im 1 + tabEntryLen * key directVadd 2)) = .table (directTab im 0)

/-- The tables below `_tab_4` form a tree. -/
structure Tables (im : Image) (m : Words) : Prop where
  inj : ∀ {p q t}, node im m p = some t → node im m q = some t → p = q
  frame : ∀ {p t}, node im m p = some t → LowFrame t
  entry : ∀ {p t}, node im m p = some t → ∀ i : Fin 512, EntryOk p.length (m (t + tabEntryLen * i))

/-- The tables form a tree, with those of the window in it. -/
structure Tree (im : Image) (m : Words) : Prop extends Tables im m where
  direct : Direct im m

section Tree

variable {im : Image} {m m' : Words} {p q : List (Fin 512)} {t c : Nat} {i : Fin 512}

theorem Direct.node (h : Direct im m) : node im m (Radix.path (key directVadd) 1) = some (directTab im 2) ∧
    Page.node im m (Radix.path (key directVadd) 2) = some (directTab im 1) ∧
    Page.node im m (Radix.path (key directVadd) 3) = some (directTab im 0) := by
  have h1 : Page.node im m (Radix.path (key directVadd) 1) = some (directTab im 2) := Radix.node_cons.2 ⟨_, rfl, h.l4⟩
  have h2 : Page.node im m (Radix.path (key directVadd) 2) = some (directTab im 1) := Radix.node_cons.2 ⟨_, h1, h.l3⟩
  exact ⟨h1, h2, Radix.node_cons.2 ⟨_, h2, h.l2⟩⟩

/-- Only the entries on the way to the window matter. -/
theorem Direct.congr (h : Direct im m) (hm : ∀ d < 3, ∀ t, Page.node im m (Radix.path (key directVadd) d) = some t →
    (∃ c, decode d (m (t + tabEntryLen * key directVadd d)) = .table c) →
      m' (t + tabEntryLen * key directVadd d) = m (t + tabEntryLen * key directVadd d)) : Direct im m' := by
  obtain ⟨h1, h2, -⟩ := h.node
  refine ⟨?_, ?_, ?_⟩
  · rw [hm 0 (by omega) im.tab4 rfl ⟨_, h.l4⟩]; exact h.l4
  · rw [hm 1 (by omega) _ h1 ⟨_, h.l3⟩]; exact h.l3
  · rw [hm 2 (by omega) _ h2 ⟨_, h.l2⟩]; exact h.l2

/-- A zero entry leads to no table. -/
theorem node_eq_none {m : Words} {d : Nat} {k : Nat → Fin 512} (ht : node im m (Radix.path k d) = some t)
    (hz : m (t + tabEntryLen * k d) = 0) : node im m (Radix.path k (d + 1)) = none := by
  refine Option.eq_none_iff_forall_ne_some.2 fun x hx => ?_
  obtain ⟨t', ht', hdec⟩ := Radix.node_cons.1 hx
  obtain rfl : t = t' := Option.some.inj (ht.symm.trans ht')
  unfold entries at hdec
  rw [hz, decode_zero] at hdec
  cases hdec

/-- The entry through which a table is reached. -/
theorem Tables.entry_of_table {c : Nat} {i : Fin 512} (h : Tables im m) (hp : node im m p = some t)
    (hc : node im m (i :: p) = some c) : p.length < 3 ∧ tabEntryIsPresent (m (t + tabEntryLen * i)) = true ∧
      tabEntryIsHuge (m (t + tabEntryLen * i)) = false ∧ tabEntryGetPadd (m (t + tabEntryLen * i)) = c := by
  obtain ⟨t', ht', hdec⟩ := Radix.node_cons.1 hc
  obtain rfl : t = t' := Option.some.inj (hp.symm.trans ht')
  exact decode_eq_table (h.entry hp i) hdec

theorem Tables.length_lt (h : Tables im m) (hp : node im m p = some t) : p.length < 4 := by
  cases p with
  | nil => simp
  | cons i q =>
    obtain ⟨t', ht', -⟩ := Radix.node_cons.1 hp
    have := (h.entry_of_table ht' hp).1
    rw [List.length_cons]
    omega

theorem Tables.align (h : Tables im m) (hp : node im m p = some t) : t % 4096 = 0 := (h.frame hp).1.bounds.1

/-- A word of a table belongs to one entry of the tree. -/
theorem Tables.word_eq (h : Tables im m) {t' : Nat} {j : Fin 512} (hp : node im m p = some t) (hq : node im m q = some t')
    (he : t' + tabEntryLen * j = t + tabEntryLen * i) : j :: q = i :: p := by
  obtain ⟨rfl, rfl⟩ := word_inj (h.align hq) (h.align hp) he
  rw [h.inj hp hq]

theorem Tables.word_ne (h : Tables im m) {t' : Nat} {j : Fin 512} (hp : node im m p = some t) (hq : node im m q = some t')
    (he : j :: q ≠ i :: p) : t' + tabEntryLen * j ≠ t + tabEntryLen * i := fun e => he (h.word_eq hp hq e)

/-- On the way of an address without translation there is a table or nothing. -/
theorem Tables.table_or_zero {va : Nat} (h : Tables im m) (hnone : lookup m im.tab4 va = none) {d : Nat} (hd : d < 4)
    (hp : node im m (Radix.path (key va) d) = some t) :
    m (t + tabEntryLen * key va d) = 0 ∨ ∃ c, node im m (Radix.path (key va) (d + 1)) = some c := by
  have hok := h.entry hp (key va d)
  rw [Radix.path_length] at hok
  cases hdec : decode d (m (t + tabEntryLen * key va d)) with
  | absent => exact .inl (hok.absent_iff.1 hdec)
  | leaf l =>
    have : lookup m im.tab4 va = some l := Radix.walk_eq_some.2 ⟨d, hd, t, hp, hdec⟩
    rw [hnone] at this
    cases this
  | table c => exact .inr ⟨c, Radix.node_cons.2 ⟨t, hp, by rw [Radix.path_length]; exact hdec⟩⟩

/-- The size of the page a leaf maps. -/
def Leaf.size (l : Leaf) : Nat := if l.huge then pageSize2M else pageSize4K

/-- The depth of the table a leaf is in. -/
def Leaf.depth (l : Leaf) : Nat := if l.huge then 2 else 3

theorem Leaf.depth_cases (l : Leaf) : l.depth = 2 ∨ l.depth = 3 := by
  unfold Leaf.depth
  split
  · exact .inl rfl
  · exact .inr rfl

theorem Tables.leaf_spec {va : Nat} (h : Tables im m) {l : Leaf} (hl : lookup m im.tab4 va = some l) : ∃ t,
    node im m (Radix.path (key va) l.depth) = some t ∧ decode l.depth (m (t + tabEntryLen * key va l.depth)) = .leaf l ∧
      l.base % 4096 = 0 ∧ l.base < 2 ^ 52 ∧ (l.huge = true → l.base % 2097152 = 0) := by
  obtain ⟨d, hd, t, ht, hdec⟩ := Radix.walk_eq_some.1 hl
  have hok := h.entry ht (key va d)
  rw [Radix.path_length] at hok
  obtain ⟨-, -, -, h1, h2, h3, h4⟩ := decode_eq_leaf hok hdec
  have hdepth : l.depth = d := by
    unfold Leaf.depth
    cases hh : l.huge with
    | true => exact (h3 hh).1.symm
    | false => have := h4 hh; rw [if_neg (by decide)]; omega
  rw [hdepth]
  exact ⟨t, ht, hdec, h1, h2, fun hh => (h3 hh).2⟩

/-- An address on the way of a leaf has the leaf. -/
theorem Tables.lookup_of_path {va va' : Nat} (h : Tables im m) {l : Leaf} (hl : lookup m im.tab4 va = some l)
    (hp : Radix.path (key va') (l.depth + 1) = Radix.path (key va) (l.depth + 1)) : lookup m im.tab4 va' = some l := by
  obtain ⟨t, ht, hdec, -⟩ := h.leaf_spec hl
  obtain ⟨hkey, hpath⟩ := List.cons.inj hp
  have hd := l.depth_cases
  refine Radix.walk_eq_some.2 ⟨l.depth, by omega, t, ?_, ?_⟩
  · rw [hpath]
    exact ht
  · unfold entries
    rw [hkey]
    exact hdec

/-- A root without entries is a tree by itself. -/
theorem Tables.root (hroot : LowFrame im.tab4) (hz : ∀ i : Fin 512, m (im.tab4 + tabEntryLen * i) = 0) :
    Tables im m ∧ ∀ {q t}, node im m q = some t → q = [] ∧ t = im.tab4 := by
  have hnode : ∀ {q t}, node im m q = some t → q = [] ∧ t = im.tab4 := by
    intro q
    induction q with
    | nil => intro t ht; exact ⟨rfl, (Option.some.inj ht).symm⟩
    | cons i q ih =>
      intro t ht
      obtain ⟨t', ht', hdec⟩ := Radix.node_cons.1 ht
      obtain ⟨-, rfl⟩ := ih ht'
      unfold entries at hdec
      rw [hz, decode_zero] at hdec
      cases hdec
  refine ⟨⟨fun hp hq => ?_, fun hp => ?_, fun hp i => ?_⟩, hnode⟩
  · rw [(hnode hp).1, (hnode hq).1]
  · rw [(hnode hp).2]; exact hroot
  · rw [(hnode hp).2, hz]; exact .zero _

/-! ## Four changes -/

/-- Memory outside the tables. -/
theorem Tables.congr (h : Tables im m) (m' : Words)
    (hm : ∀ q t, node im m q = some t → ∀ i : Fin 512, m' (t + tabEntryLen * i) = m (t + tabEntryLen * i)) :
    (∀ q, node im m' q = node im m q) ∧ Tables im m' ∧ ∀ va, lookup m' im.tab4 va = lookup m im.tab4 va := by
  have hent : ∀ q t, node im m q = some t → ∀ i, entries m' q.length t i = entries m q.length t i := by
    intro q t ht i
    unfold entries
    rw [hm q t ht i]
  have hnode : ∀ q, node im m' q = node im m q := Radix.node_congr fun q t ht i c => by rw [hent q t ht i]
  refine ⟨hnode, ⟨?_, ?_, ?_⟩, fun va => ?_⟩
  · intro p q t hp hq; rw [hnode] at hp hq; exact h.inj hp hq
  · intro p t hp; rw [hnode] at hp; exact h.frame hp
  · intro p t hp i; rw [hnode] at hp; rw [hm p t hp i]; exact h.entry hp i
  · refine Radix.walk_congr fun d _ l => ?_
    rw [show Radix.node (entries m') im.tab4 _ = Radix.node (entries m) im.tab4 _ from hnode _]
    refine exists_congr fun t => and_congr_right fun ht => ?_
    have := hent _ t ht (key va d)
    rw [Radix.path_length] at this
    rw [this]

theorem Tree.congr (h : Tree im m) (m' : Words)
    (hm : ∀ q t, node im m q = some t → ∀ i : Fin 512, m' (t + tabEntryLen * i) = m (t + tabEntryLen * i)) :
    (∀ q, node im m' q = node im m q) ∧ Tree im m' ∧ ∀ va, lookup m' im.tab4 va = lookup m im.tab4 va := by
  obtain ⟨h1, h2, h3⟩ := h.toTables.congr m' hm
  exact ⟨h1, ⟨h2, h.direct.congr fun d _ t ht _ => hm _ t ht _⟩, h3⟩

/-- An entry that links to no table, before and after. -/
theorem Tables.set (h : Tables im m) (m' : Words) (hp : node im m p = some t)
    (hold : ∀ c, decode p.length (m (t + tabEntryLen * i)) ≠ .table c)
    (hnew : ∀ c, decode p.length (m' (t + tabEntryLen * i)) ≠ .table c)
    (hok : EntryOk p.length (m' (t + tabEntryLen * i)))
    (hm : ∀ q t' (j : Fin 512), node im m q = some t' → t' + tabEntryLen * j ≠ t + tabEntryLen * i →
      m' (t' + tabEntryLen * j) = m (t' + tabEntryLen * j)) :
    (∀ q, node im m' q = node im m q) ∧ Tables im m' ∧
      ∀ va, Radix.path (key va) (p.length + 1) ≠ i :: p → lookup m' im.tab4 va = lookup m im.tab4 va := by
  have hent : ∀ q t' j, node im m q = some t' → j :: q ≠ i :: p → entries m' q.length t' j = entries m q.length t' j := by
    intro q t' j hq hne
    unfold entries
    rw [hm q t' j hq (h.word_ne hp hq hne)]
  have hnode : ∀ q, node im m' q = node im m q := by
    refine Radix.node_congr fun q t' hq j c => ?_
    by_cases hne : j :: q = i :: p
    · obtain ⟨rfl, rfl⟩ := List.cons.inj hne
      obtain rfl : t = t' := Option.some.inj (hp.symm.trans hq)
      exact ⟨fun e => absurd e (hnew c), fun e => absurd e (hold c)⟩
    · rw [hent q t' j hq hne]
  refine ⟨hnode, ⟨?_, ?_, ?_⟩, fun va hva => Radix.walk_set hent hnode hva 4⟩
  · intro p q t hp hq; rw [hnode] at hp hq; exact h.inj hp hq
  · intro p t hp; rw [hnode] at hp; exact h.frame hp
  · intro q t' hq j
    rw [hnode] at hq
    by_cases he : t' + tabEntryLen * j = t + tabEntryLen * i
    · obtain ⟨rfl, rfl⟩ := List.cons.inj (h.word_eq hp hq he)
      rw [he]
      exact hok
    · rw [hm q t' j hq he]; exact h.entry hq j

theorem Tree.set (h : Tree im m) (m' : Words) (hp : node im m p = some t)
    (hold : ∀ c, decode p.length (m (t + tabEntryLen * i)) ≠ .table c)
    (hnew : ∀ c, decode p.length (m' (t + tabEntryLen * i)) ≠ .table c)
    (hok : EntryOk p.length (m' (t + tabEntryLen * i)))
    (hm : ∀ q t' (j : Fin 512), node im m q = some t' → t' + tabEntryLen * j ≠ t + tabEntryLen * i →
      m' (t' + tabEntryLen * j) = m (t' + tabEntryLen * j)) :
    (∀ q, node im m' q = node im m q) ∧ Tree im m' ∧
      ∀ va, Radix.path (key va) (p.length + 1) ≠ i :: p → lookup m' im.tab4 va = lookup m im.tab4 va := by
  obtain ⟨h1, h2, h3⟩ := h.toTables.set m' hp hold hnew hok hm
  refine ⟨h1, ⟨h2, h.direct.congr fun d _ t' hq hj => hm _ t' _ hq fun he => ?_⟩, h3⟩
  obtain ⟨c, hc⟩ := hj
  have hlen : d = p.length := by simpa using congrArg List.length (h.word_eq hp hq he)
  rw [he, hlen] at hc
  exact hold c hc

/-- An empty table is linked. -/
theorem Tables.attach (h : Tables im m) (m' : Words) (hp : node im m p = some t) (hlen : p.length < 3)
    (hold : m (t + tabEntryLen * i) = 0) (hc : LowFrame c) (hfresh : ∀ q, node im m q ≠ some c)
    (hnew : m' (t + tabEntryLen * i) = c + 3) (hempty : ∀ j : Fin 512, m' (c + tabEntryLen * j) = 0)
    (hm : ∀ q t' (j : Fin 512), node im m q = some t' → t' + tabEntryLen * j ≠ t + tabEntryLen * i →
      m' (t' + tabEntryLen * j) = m (t' + tabEntryLen * j)) :
    (node im m' (i :: p) = some c ∧ ∀ q, q ≠ i :: p → node im m' q = node im m q) ∧ Tables im m' ∧
      ∀ va, lookup m' im.tab4 va = lookup m im.tab4 va := by
  have hent : ∀ q t' j, node im m q = some t' → j :: q ≠ i :: p → entries m' q.length t' j = entries m q.length t' j := by
    intro q t' j hq hne
    unfold entries
    rw [hm q t' j hq (h.word_ne hp hq hne)]
  have hold' : entries m p.length t i = .absent := by unfold entries; rw [hold, decode_zero]
  have hnew' : entries m' p.length t i = .table c := by unfold entries; rw [hnew, decode_value_table hlen hc.1]
  have hempty' : ∀ d j, entries m' d c j = .absent := by intro d j; unfold entries; rw [hempty, decode_zero]
  have hnode := Radix.node_attach hp (by rw [hold']; simp) hnew' (by simp [hempty']) hent
  have hcase : ∀ {q x}, node im m' q = some x → (q = i :: p ∧ x = c) ∨ (q ≠ i :: p ∧ node im m q = some x) :=
    Radix.node_attach_cases hnode
  refine ⟨⟨(hnode _).1 rfl, fun q => (hnode q).2⟩, ⟨Radix.node_attach_inj hnode hfresh h.inj, ?_, ?_⟩,
    fun va => Radix.walk_attach hp hold' hnew' (hempty' _) hent _ 4⟩
  · intro q x hq
    rcases hcase hq with ⟨-, rfl⟩ | ⟨-, hq⟩
    · exact hc
    · exact h.frame hq
  · intro q x hq j
    rcases hcase hq with ⟨-, rfl⟩ | ⟨-, hq⟩
    · rw [hempty]; exact .zero _
    · by_cases he : x + tabEntryLen * j = t + tabEntryLen * i
      · rw [he, hnew]; exact .value _ hc.1
      · rw [hm q x j hq he]; exact h.entry hq j

theorem Tree.attach (h : Tree im m) (m' : Words) (hp : node im m p = some t) (hlen : p.length < 3)
    (hold : m (t + tabEntryLen * i) = 0) (hc : LowFrame c) (hfresh : ∀ q, node im m q ≠ some c)
    (hnew : m' (t + tabEntryLen * i) = c + 3) (hempty : ∀ j : Fin 512, m' (c + tabEntryLen * j) = 0)
    (hm : ∀ q t' (j : Fin 512), node im m q = some t' → t' + tabEntryLen * j ≠ t + tabEntryLen * i →
      m' (t' + tabEntryLen * j) = m (t' + tabEntryLen * j)) :
    (node im m' (i :: p) = some c ∧ ∀ q, q ≠ i :: p → node im m' q = node im m q) ∧ Tree im m' ∧
      ∀ va, lookup m' im.tab4 va = lookup m im.tab4 va := by
  obtain ⟨h1, h2, h3⟩ := h.toTables.attach m' hp hlen hold hc hfresh hnew hempty hm
  refine ⟨h1, ⟨h2, h.direct.congr fun d _ t' hq hj => hm _ t' _ hq fun he => ?_⟩, h3⟩
  obtain ⟨x, hx⟩ := hj
  rw [he, hold, decode_zero] at hx
  cases hx

/-- The memory after a table was linked and then zeroed. -/
def linked (m : Words) (x c : Nat) : Words :=
  fun y => if c ≤ y ∧ y < c + tabEntryLen * tabEntryCount then 0 else Function.update m x (c + 3) y

theorem linked_table (m : Words) (x c : Nat) (j : Fin 512) : linked m x c (c + tabEntryLen * j) = 0 := by
  have hj := j.isLt
  exact if_pos (by unfold tabEntryLen tabEntryCount; omega)

theorem linked_word {m : Words} {x c : Nat} {t' : Nat} (ht : t' % 4096 = 0) (hc : c % 4096 = 0) (hne : t' ≠ c) (j : Fin 512) :
    linked m x c (t' + tabEntryLen * j) = Function.update m x (c + 3) (t' + tabEntryLen * j) := by
  have hj := j.isLt
  exact if_neg (by unfold tabEntryLen tabEntryCount; omega)

/-- A table is linked and zeroed. -/
theorem Tables.link (h : Tables im m) (hp : node im m p = some t) (hlen : p.length < 3) (hz : m (t + tabEntryLen * i) = 0)
    (hc : LowFrame c) (hfresh : ∀ q, node im m q ≠ some c) :
    (node im (linked m (t + tabEntryLen * i) c) (i :: p) = some c ∧
      ∀ q, q ≠ i :: p → node im (linked m (t + tabEntryLen * i) c) q = node im m q) ∧
    Tables im (linked m (t + tabEntryLen * i) c) ∧
    ∀ va, lookup (linked m (t + tabEntryLen * i) c) im.tab4 va = lookup m im.tab4 va := by
  have hcal := hc.1.bounds.1
  refine h.attach (linked m (t + tabEntryLen * i) c) hp hlen hz hc hfresh ?_ (linked_table _ _ _) fun q t' j hq hne => ?_
  · rw [linked_word (h.align hp) hcal fun e => hfresh p (e ▸ hp), Function.update_self]
  · rw [linked_word (h.align hq) hcal fun e => hfresh q (e ▸ hq), Function.update_of_ne hne]

/-- An empty table is unlinked. -/
theorem Tree.detach (h : Tree im m) (m' : Words) (hp : node im m p = some t) (hc : node im m (i :: p) = some c)
    (hempty : ∀ j : Fin 512, m (c + tabEntryLen * j) = 0) (hdirect : Direct im m')
    (hnew : m' (t + tabEntryLen * i) = 0)
    (hm : ∀ q t' (j : Fin 512), node im m q = some t' → t' ≠ c → t' + tabEntryLen * j ≠ t + tabEntryLen * i →
      m' (t' + tabEntryLen * j) = m (t' + tabEntryLen * j)) :
    (node im m' (i :: p) = none ∧ ∀ q, q ≠ i :: p → node im m' q = node im m q) ∧ Tree im m' ∧
      ∀ va, lookup m' im.tab4 va = lookup m im.tab4 va := by
  have hent : ∀ q t' j, node im m q = some t' → q ≠ i :: p → j :: q ≠ i :: p →
      entries m' q.length t' j = entries m q.length t' j := by
    intro q t' j hq hqc hne
    unfold entries
    rw [hm q t' j hq (fun e => hqc (h.inj hq (e ▸ hc))) (h.word_ne hp hq hne)]
  have hold : entries m p.length t i = .table c := by
    obtain ⟨t', ht', he⟩ := Radix.node_cons.1 hc
    obtain rfl : t = t' := Option.some.inj (hp.symm.trans ht')
    exact he
  have hnew' : entries m' p.length t i = .absent := by unfold entries; rw [hnew, decode_zero]
  have hempty' : ∀ d j, entries m d c j = .absent := by intro d j; unfold entries; rw [hempty, decode_zero]
  have hnode := Radix.node_detach hp hold (by simp [hempty']) (by rw [hnew']; simp) hent
  have hcase : ∀ {q x}, node im m' q = some x → q ≠ i :: p ∧ node im m q = some x := by
    intro q x hq
    have e : q ≠ i :: p := fun e => by cases hq.symm.trans ((hnode q).1 e)
    exact ⟨e, ((hnode q).2 e).symm.trans hq⟩
  refine ⟨⟨(hnode _).1 rfl, fun q => (hnode q).2⟩, ⟨⟨?_, ?_, ?_⟩, hdirect⟩,
    fun va => Radix.walk_detach hp hold (hempty' _) hnew' hent _ 4⟩
  · intro q q' x hq hq'; exact h.inj (hcase hq).2 (hcase hq').2
  · intro q x hq; exact h.frame (hcase hq).2
  · intro q x hq j
    obtain ⟨e, hq⟩ := hcase hq
    by_cases he : x + tabEntryLen * j = t + tabEntryLen * i
    · rw [he, hnew]; exact .zero _
    · rw [hm q x j hq (fun e' => e (h.inj hq (e' ▸ hc))) he]; exact h.entry hq j

end Tree

end Cing.Page
