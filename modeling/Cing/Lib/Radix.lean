/-
Radix trees of tables. A key gives one index for each depth; the entry of a table at an index is
absent, a leaf, or the table of the next depth. A table is found by the path that leads to it, the
deepest index first. Linking an empty table and unlinking one change the tables at one path and no
leaf, so that a structure built of such changes is described by its paths alone.
-/
import Mathlib.Tactic

namespace Radix

/-- What an entry of a table says. -/
inductive Entry (T L : Type) where
  | absent
  | leaf (l : L)
  | table (t : T)

variable {T I L : Type}

/-- The table at a path from the root; `m d t i` is the entry `i` of the table `t` at depth `d`. -/
def node (m : Nat → T → I → Entry T L) (root : T) : List I → Option T
  | [] => some root
  | i :: p =>
    match node m root p with
    | none => none
    | some t =>
      match m p.length t i with
      | .table c => some c
      | _ => none

/-- The first `d` indices of a key. -/
def path (k : Nat → I) : Nat → List I
  | 0 => []
  | d + 1 => k d :: path k d

/-- The walk for a key, at most `n` tables long. -/
def walk (m : Nat → T → I → Entry T L) (k : Nat → I) : Nat → Nat → T → Option L
  | 0, _, _ => none
  | n + 1, d, t =>
    match m d t (k d) with
    | .absent => none
    | .leaf l => some l
    | .table c => walk m k n (d + 1) c

/-! ## Keys and paths -/

@[simp] theorem path_length (k : Nat → I) : ∀ d, (path k d).length = d
  | 0 => rfl
  | d + 1 => by rw [path, List.length_cons, path_length k d]

theorem path_congr {k k' : Nat → I} : ∀ {d : Nat}, (∀ e < d, k e = k' e) → path k d = path k' d
  | 0, _ => rfl
  | d + 1, h => by
    rw [path, path, h d (Nat.lt_succ_self d), path_congr fun e he => h e (Nat.lt_succ_of_lt he)]

theorem path_inj {k k' : Nat → I} : ∀ {d : Nat}, path k d = path k' d → ∀ e < d, k e = k' e
  | 0, _, _, he => absurd he (Nat.not_lt_zero _)
  | d + 1, h, e, he => by
    rw [path, path, List.cons.injEq] at h
    rcases Nat.lt_succ_iff_lt_or_eq.1 he with he | rfl
    · exact path_inj h.2 e he
    · exact h.1

theorem exists_key (i₀ : I) : ∀ q : List I, ∃ k : Nat → I, path k q.length = q
  | [] => ⟨fun _ => i₀, rfl⟩
  | i :: q => by
    obtain ⟨k, hk⟩ := exists_key i₀ q
    refine ⟨Function.update k q.length i, ?_⟩
    rw [List.length_cons, path, Function.update_self, path_congr fun e he => Function.update_of_ne he.ne _ _, hk]

/-- A shorter path of a key is part of a longer one. -/
theorem path_suffix (k : Nat → I) : ∀ {d e : Nat}, d ≤ e → path k d <:+ path k e
  | d, 0, h => by rw [Nat.le_zero.1 h]
  | d, e + 1, h => by
    rcases Nat.le_succ_iff.1 h with h | rfl
    · exact (path_suffix k h).trans (List.suffix_cons _ _)
    · exact List.suffix_rfl

/-- A walk reads the key at the depths it goes through. -/
theorem walk_key {m : Nat → T → I → Entry T L} {k k' : Nat → I} : ∀ {n d : Nat} {t : T},
    (∀ e < d + n, k e = k' e) → walk m k n d t = walk m k' n d t
  | 0, _, _, _ => rfl
  | n + 1, d, t, h => by
    rw [walk, walk, h d (by omega)]
    cases m d t (k' d) with
    | absent => rfl
    | leaf l => rfl
    | table c => exact walk_key fun e he => h e (by omega)

section Tree

variable {m m' : Nat → T → I → Entry T L} {root : T}

/-! ## Tables -/

@[simp] theorem node_nil : node m root [] = some root := rfl

theorem node_cons {i : I} {p : List I} {c : T} :
    node m root (i :: p) = some c ↔ ∃ t, node m root p = some t ∧ m p.length t i = .table c := by
  rw [node]
  cases node m root p with
  | none => simp
  | some t =>
    cases h : m p.length t i with
    | absent => simp [h]
    | leaf l => simp [h]
    | table c' => simp [h]

theorem node_suffix : ∀ {p q : List I} {c : T}, q <:+ p → node m root p = some c → ∃ t, node m root q = some t
  | [], q, c, hs, _ => by rw [List.suffix_nil.1 hs]; exact ⟨root, rfl⟩
  | i :: p, q, c, hs, h => by
    rcases List.suffix_cons_iff.1 hs with rfl | hs
    · exact ⟨c, h⟩
    · obtain ⟨t, ht, -⟩ := node_cons.1 h
      exact node_suffix hs ht

/-- The tables depend on the links between them only. -/
theorem node_congr (h : ∀ q t, node m root q = some t → ∀ i c, m' q.length t i = .table c ↔ m q.length t i = .table c) :
    ∀ q, node m' root q = node m root q
  | [] => rfl
  | i :: q => by
    refine Option.ext fun c => ?_
    rw [node_cons, node_cons, node_congr h q]
    constructor
    · rintro ⟨t, ht, hc⟩; exact ⟨t, ht, (h q t ht i c).1 hc⟩
    · rintro ⟨t, ht, hc⟩; exact ⟨t, ht, (h q t ht i c).2 hc⟩

/-- Linking an empty table where there was none adds it to the tables. -/
theorem node_attach {p : List I} {i : I} {t c : T} (hp : node m root p = some t)
    (hold : ∀ x, m p.length t i ≠ .table x) (hnew : m' p.length t i = .table c)
    (hempty : ∀ j x, m' (p.length + 1) c j ≠ .table x)
    (hm : ∀ q t' j, node m root q = some t' → j :: q ≠ i :: p → m' q.length t' j = m q.length t' j) :
    ∀ q, (q = i :: p → node m' root q = some c) ∧ (q ≠ i :: p → node m' root q = node m root q)
  | [] => ⟨fun h => absurd h (by simp), fun _ => rfl⟩
  | j :: q => by
    obtain ⟨ih1, ih2⟩ := node_attach hp hold hnew hempty hm q
    constructor
    · intro h
      obtain ⟨rfl, rfl⟩ := List.cons.inj h
      rw [node_cons, ih2 (List.ne_cons_self)]
      exact ⟨t, hp, hnew⟩
    · intro h
      refine Option.ext fun x => ?_
      rw [node_cons, node_cons]
      by_cases hq : q = i :: p
      · -- below the new table there is nothing, before or after
        rw [ih1 hq, hq]
        constructor
        · rintro ⟨t', ht', hx⟩
          cases ht'
          exact absurd hx (hempty j x)
        · rintro ⟨t', ht', -⟩
          obtain ⟨t'', h1, h2⟩ := node_cons.1 ht'
          rw [hp] at h1
          cases h1
          exact absurd h2 (hold t')
      · rw [ih2 hq]
        constructor
        · rintro ⟨t', ht', hx⟩; exact ⟨t', ht', by rw [← hm q t' j ht' h]; exact hx⟩
        · rintro ⟨t', ht', hx⟩; exact ⟨t', ht', by rw [hm q t' j ht' h]; exact hx⟩

/-- A table after that is the new one or was there before. -/
theorem node_attach_cases {p : List I} {i : I} {c : T}
    (h : ∀ q, (q = i :: p → node m' root q = some c) ∧ (q ≠ i :: p → node m' root q = node m root q)) {q : List I} {x : T}
    (hq : node m' root q = some x) : q = i :: p ∧ x = c ∨ q ≠ i :: p ∧ node m root q = some x := by
  by_cases e : q = i :: p
  · exact .inl ⟨e, Option.some.inj (hq.symm.trans ((h q).1 e))⟩
  · exact .inr ⟨e, ((h q).2 e).symm.trans hq⟩

/-- A table that was at no path before is at one path after, and so are the others. -/
theorem node_attach_inj {p : List I} {i : I} {c : T}
    (h : ∀ q, (q = i :: p → node m' root q = some c) ∧ (q ≠ i :: p → node m' root q = node m root q))
    (hfresh : ∀ q, node m root q ≠ some c) (hinj : ∀ {q q' x}, node m root q = some x → node m root q' = some x → q = q')
    {q q' : List I} {x : T} (hq : node m' root q = some x) (hq' : node m' root q' = some x) : q = q' := by
  rcases node_attach_cases h hq with ⟨rfl, rfl⟩ | ⟨-, hq⟩ <;> rcases node_attach_cases h hq' with ⟨rfl, e⟩ | ⟨-, hq'⟩
  · rfl
  · exact absurd hq' (hfresh _)
  · exact absurd (e ▸ hq) (hfresh _)
  · exact hinj hq hq'

/-- Unlinking an empty table takes it from the tables. -/
theorem node_detach {p : List I} {i : I} {t c : T} (hp : node m root p = some t)
    (hold : m p.length t i = .table c) (hempty : ∀ j x, m (p.length + 1) c j ≠ .table x)
    (hnew : ∀ x, m' p.length t i ≠ .table x)
    (hm : ∀ q t' j, node m root q = some t' → q ≠ i :: p → j :: q ≠ i :: p → m' q.length t' j = m q.length t' j) :
    ∀ q, (q = i :: p → node m' root q = none) ∧ (q ≠ i :: p → node m' root q = node m root q)
  | [] => ⟨fun h => absurd h (by simp), fun _ => rfl⟩
  | j :: q => by
    obtain ⟨ih1, ih2⟩ := node_detach hp hold hempty hnew hm q
    constructor
    · intro h
      obtain ⟨rfl, rfl⟩ := List.cons.inj h
      refine Option.eq_none_iff_forall_ne_some.2 fun x hx => ?_
      rw [node_cons, ih2 (List.ne_cons_self)] at hx
      obtain ⟨t', ht', hx⟩ := hx
      rw [hp] at ht'
      cases ht'
      exact hnew x hx
    · intro h
      refine Option.ext fun x => ?_
      rw [node_cons, node_cons]
      by_cases hq : q = i :: p
      · rw [ih1 hq, hq]
        constructor
        · rintro ⟨t', ht', -⟩; cases ht'
        · rintro ⟨t', ht', hx⟩
          rw [node_cons.2 ⟨t, hp, hold⟩] at ht'
          cases ht'
          exact absurd hx (hempty j x)
      · rw [ih2 hq]
        constructor
        · rintro ⟨t', ht', hx⟩; exact ⟨t', ht', by rw [← hm q t' j ht' hq h]; exact hx⟩
        · rintro ⟨t', ht', hx⟩; exact ⟨t', ht', by rw [hm q t' j ht' hq h]; exact hx⟩

/-! ## Walks -/

/-- The table at a path of the key is where the walk is after that many steps. -/
theorem walk_of_node {k : Nat → I} (n : Nat) : ∀ {d : Nat} {t : T}, node m root (path k d) = some t →
    walk m k (d + n) 0 root = walk m k n d t := by
  intro d
  induction d generalizing n with
  | zero =>
    intro t h
    cases h
    rw [Nat.zero_add]
  | succ d ih =>
    intro t h
    obtain ⟨t', ht', hc⟩ := node_cons.1 h
    rw [path_length] at hc
    rw [show d + 1 + n = d + (n + 1) by omega, ih (n + 1) ht', walk, hc]

theorem exists_leaf_of_walk {k : Nat → I} {l : L} : ∀ {n d : Nat} {t : T}, node m root (path k d) = some t →
    walk m k n d t = some l → ∃ e < d + n, ∃ t', node m root (path k e) = some t' ∧ m e t' (k e) = .leaf l
  | 0, d, t, _, h => by cases h
  | n + 1, d, t, ht, h => by
    rw [walk] at h
    cases hm : m d t (k d) with
    | absent => rw [hm] at h; cases h
    | leaf l' =>
      rw [hm] at h
      cases h
      exact ⟨d, by omega, t, ht, hm⟩
    | table c =>
      rw [hm] at h
      have hc : node m root (path k (d + 1)) = some c := node_cons.2 ⟨t, ht, by rw [path_length]; exact hm⟩
      obtain ⟨e, he, ht'⟩ := exists_leaf_of_walk hc h
      exact ⟨e, by omega, ht'⟩

/-- The walk for a key returns a leaf exactly if one of the tables at its paths has it. -/
theorem walk_eq_some {k : Nat → I} {n : Nat} {l : L} : walk m k n 0 root = some l ↔
    ∃ d < n, ∃ t, node m root (path k d) = some t ∧ m d t (k d) = .leaf l := by
  constructor
  · intro h
    obtain ⟨d, hd, ht⟩ := exists_leaf_of_walk (d := 0) rfl h
    exact ⟨d, by omega, ht⟩
  · rintro ⟨d, hd, t, ht, hl⟩
    obtain ⟨e, rfl⟩ := Nat.exists_eq_add_of_lt hd
    rw [show d + e + 1 = d + (e + 1) by omega, walk_of_node _ ht, walk, hl]

/-- Two trees with the same leaves along a key. -/
theorem walk_congr {k : Nat → I} {n : Nat} (h : ∀ d < n, ∀ l, (∃ t, node m' root (path k d) = some t ∧ m' d t (k d) = .leaf l) ↔
    ∃ t, node m root (path k d) = some t ∧ m d t (k d) = .leaf l) : walk m' k n 0 root = walk m k n 0 root := by
  refine Option.ext fun l => ?_
  rw [walk_eq_some, walk_eq_some]
  constructor
  · rintro ⟨d, hd, hl⟩; exact ⟨d, hd, (h d hd l).1 hl⟩
  · rintro ⟨d, hd, hl⟩; exact ⟨d, hd, (h d hd l).2 hl⟩

/-- Where one entry changed that is no leaf before and after, the others have the leaves they had. -/
theorem leaf_same {p : List I} {i : I} {t t' : T} {k : Nat → I} {d : Nat} {l : L} (hp : node m root p = some t)
    (hold : ∀ l, m p.length t i ≠ .leaf l) (hnew : ∀ l, m' p.length t i ≠ .leaf l) (ht' : node m root (path k d) = some t')
    (hm : k d :: path k d ≠ i :: p → m' (path k d).length t' (k d) = m (path k d).length t' (k d)) :
    m' d t' (k d) = .leaf l ↔ m d t' (k d) = .leaf l := by
  rw [path_length] at hm
  by_cases he : k d :: path k d = i :: p
  · obtain ⟨h1, rfl⟩ := List.cons.inj he
    obtain rfl : t = t' := Option.some.inj (hp.symm.trans ht')
    rw [path_length] at hold hnew
    rw [h1]
    exact iff_of_false (hnew l) (hold l)
  · rw [hm he]

/-- Linking an empty table changes no walk. -/
theorem walk_attach {p : List I} {i : I} {t c : T} (hp : node m root p = some t)
    (hold : m p.length t i = .absent) (hnew : m' p.length t i = .table c) (hempty : ∀ j, m' (p.length + 1) c j = .absent)
    (hm : ∀ q t' j, node m root q = some t' → j :: q ≠ i :: p → m' q.length t' j = m q.length t' j) (k : Nat → I) (n : Nat) :
    walk m' k n 0 root = walk m k n 0 root := by
  have hnode := node_attach hp (by simp [hold]) hnew (by simp [hempty]) hm
  refine walk_congr fun d _ l => ?_
  by_cases hd : path k d = i :: p
  · have hlen : d = p.length + 1 := by rw [← path_length k d, hd, List.length_cons]
    rw [(hnode _).1 hd, hd]
    constructor
    · rintro ⟨t', ht', hl⟩
      cases ht'
      rw [hlen, hempty] at hl
      cases hl
    · rintro ⟨t', ht', -⟩
      obtain ⟨t'', h1, h2⟩ := node_cons.1 ht'
      rw [hp] at h1
      cases h1
      rw [hold] at h2
      cases h2
  · rw [(hnode _).2 hd]
    exact exists_congr fun t' => and_congr_right fun ht' => leaf_same hp (by simp [hold]) (by simp [hnew]) ht' (hm _ t' _ ht')

/-- Unlinking an empty table changes no walk. -/
theorem walk_detach {p : List I} {i : I} {t c : T} (hp : node m root p = some t)
    (hold : m p.length t i = .table c) (hempty : ∀ j, m (p.length + 1) c j = .absent) (hnew : m' p.length t i = .absent)
    (hm : ∀ q t' j, node m root q = some t' → q ≠ i :: p → j :: q ≠ i :: p → m' q.length t' j = m q.length t' j)
    (k : Nat → I) (n : Nat) : walk m' k n 0 root = walk m k n 0 root := by
  have hnode := node_detach hp hold (by simp [hempty]) (by simp [hnew]) hm
  refine walk_congr fun d _ l => ?_
  by_cases hd : path k d = i :: p
  · have hlen : d = p.length + 1 := by rw [← path_length k d, hd, List.length_cons]
    rw [(hnode _).1 hd, hd, node_cons.2 ⟨t, hp, hold⟩]
    constructor
    · rintro ⟨t', ht', -⟩; cases ht'
    · rintro ⟨t', ht', hl⟩
      cases ht'
      rw [hlen, hempty] at hl
      cases hl
  · rw [(hnode _).2 hd]
    exact exists_congr fun t' => and_congr_right fun ht' => leaf_same hp (by simp [hold]) (by simp [hnew]) ht' (hm _ t' _ ht' hd)

/-- Changing an entry that links to no table, before and after, changes the walks of its keys only. -/
theorem walk_set {p : List I} {i : I} (hp : ∀ q t j, node m root q = some t → j :: q ≠ i :: p → m' q.length t j = m q.length t j)
    (hnode : ∀ q, node m' root q = node m root q) {k : Nat → I} (hk : path k (p.length + 1) ≠ i :: p) (n : Nat) :
    walk m' k n 0 root = walk m k n 0 root := by
  refine walk_congr fun d _ l => ?_
  rw [hnode]
  refine exists_congr fun t => and_congr_right fun ht => ?_
  have hne : k d :: path k d ≠ i :: p := by
    intro he
    have hlen : d = p.length := by simpa using congrArg List.length he
    exact hk (by rw [← hlen]; exact he)
  have := hp _ t (k d) ht hne
  rw [path_length] at this
  rw [this]

/-- The leaf on the way of a key is the only one, and no table lies below it. -/
theorem depth_le_of_leaf {k : Nat → I} {d e : Nat} {t t' : T} {l : L} (ht : node m root (path k d) = some t)
    (hl : m d t (k d) = .leaf l) (ht' : node m root (path k e) = some t') : e ≤ d := by
  by_contra hlt
  obtain ⟨c, hc⟩ := node_suffix (path_suffix k (by omega : d + 1 ≤ e)) ht'
  obtain ⟨t'', h1, h2⟩ := node_cons.1 hc
  rw [ht] at h1
  cases h1
  rw [path_length, hl] at h2
  cases h2

/-- Where every table of a kind has an entry, and the tables it links to are of that kind, each table of
the kind has a leaf below it. -/
theorem exists_leaf_below (i₀ : I) {n : Nat} {Q : List I → Prop} (hn : ∀ p t, node m root p = some t → p.length < n)
    (hQ : ∀ p t, node m root p = some t → Q p → ∃ i, m p.length t i ≠ .absent ∧ ∀ c, m p.length t i = .table c → Q (i :: p)) :
    ∀ {p : List I} {t : T}, node m root p = some t → Q p →
      ∃ k d t' l, path k p.length = p ∧ p.length ≤ d ∧ d < n ∧ node m root (path k d) = some t' ∧ m d t' (k d) = .leaf l := by
  intro p
  induction hd : n - p.length generalizing p with
  | zero =>
    intro t ht
    have := hn p t ht
    omega
  | succ r ih =>
    intro t ht hp
    obtain ⟨i, hne, hc⟩ := hQ p t ht hp
    cases hm : m p.length t i with
    | absent => exact absurd hm hne
    | leaf l =>
      obtain ⟨k, hk⟩ := exists_key i₀ (i :: p)
      rw [List.length_cons, path, List.cons.injEq] at hk
      exact ⟨k, p.length, t, l, hk.2, le_rfl, hn p t ht, by rw [hk.2]; exact ht, by rw [hk.1]; exact hm⟩
    | table c =>
      obtain ⟨k, d, t', l, hk, hle, hlt, ht', hl⟩ := ih (by rw [List.length_cons]; omega)
        (node_cons.2 ⟨t, ht, hm⟩) (hc c hm)
      rw [List.length_cons, path, List.cons.injEq] at hk
      rw [List.length_cons] at hle
      exact ⟨k, d, t', l, hk.2, by omega, hlt, ht', hl⟩

end Tree

end Radix
