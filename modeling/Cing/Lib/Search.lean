/-
Searching a list for a pattern with one counter: how many characters of the pattern were read last. A character that does not
continue the pattern sets the counter to zero, and is not looked at again as the start of another. What the counter finds is there;
but it is at zero in front of the pattern only if the part before it splits into pieces, each a start of the pattern and one
character that breaks it off.
-/
import Mathlib.Tactic

namespace Search

variable {α : Type}

/-- The pattern is in the list, `u` before it and `v` behind it, and nowhere earlier. -/
def FirstAt (pat l u v : List α) : Prop := l = u ++ pat ++ v ∧ ∀ u' v', l = u' ++ pat ++ v' → u.length ≤ u'.length

/-- Starts of the pattern, empty ones too, each with a character behind it that does not continue it. -/
inductive Broken (pat : List α) : List α → Prop
  | nil : Broken pat []
  | piece {k : Nat} {c : α} {u : List α} : k < pat.length → pat[k]? ≠ some c → Broken pat u → Broken pat (pat.take k ++ c :: u)

variable {pat l u v w r : List α} {k : Nat} {c : α}

theorem take_succ_of_get (h : pat[k]? = some c) : pat.take (k + 1) = pat.take k ++ [c] := by
  rw [List.take_add_one, h]
  rfl

namespace FirstAt

theorem unique {u' v' : List α} (h : FirstAt pat l u v) (h' : FirstAt pat l u' v') : u = u' ∧ v = v' := by
  have hlen : u.length = u'.length := le_antisymm (h.2 _ _ h'.1) (h'.2 _ _ h.1)
  have he := h.1.symm.trans h'.1
  rw [List.append_assoc, List.append_assoc] at he
  obtain ⟨rfl, hrest⟩ := List.append_inj he hlen
  exact ⟨rfl, List.append_cancel_left hrest⟩

/-- Before the end of its first place the pattern is not there. -/
theorem absent (h : FirstAt pat l u v) (hw : w <+: l) (hlen : w.length < u.length + pat.length) : ¬ pat <:+: w := by
  rintro ⟨a, b, rfl⟩
  obtain ⟨t, ht⟩ := hw
  have hle := h.2 a (b ++ t) (by rw [← ht, List.append_assoc])
  rw [List.length_append, List.length_append] at hlen
  omega

theorem of_absent (hpat : pat ≠ []) (h : ¬ pat <:+: u ++ pat.dropLast) (v : List α) : FirstAt pat (u ++ pat ++ v) u v := by
  refine ⟨rfl, fun u' v' he => ?_⟩
  by_contra hlt
  refine h (List.IsInfix.trans ⟨u', [], List.append_nil _⟩ (List.IsPrefix.isInfix ?_))
  -- both are starts of the list, and the earlier place ends before the last character of the pattern
  have hpos := List.length_pos_iff.2 hpat
  have hstart : u' ++ pat <+: u ++ pat ++ v := ⟨v', he.symm⟩
  refine List.prefix_of_prefix_length_le hstart ?_ ?_
  · rw [List.append_assoc]
    exact (List.prefix_append_right_inj u).2 ((List.dropLast_prefix pat).trans (List.prefix_append pat v))
  · rw [List.length_append, List.length_append, List.length_dropLast]
    omega

end FirstAt

section Counter

variable [DecidableEq α] (pat : List α)

/-- The counter after a character. At the end of the pattern it stays. -/
def next (k : Nat) (c : α) : Nat := if k = pat.length then k else if pat[k]? = some c then k + 1 else 0

def count (k : Nat) (l : List α) : Nat := l.foldl (next pat) k

end Counter

variable [DecidableEq α]

@[simp] theorem count_nil : count pat k [] = k := rfl

@[simp] theorem count_cons : count pat k (c :: l) = count pat (next pat k c) l := rfl

@[simp] theorem count_append : count pat k (u ++ v) = count pat (count pat k u) v := List.foldl_append ..

theorem next_full : next pat pat.length c = pat.length := if_pos rfl

theorem next_hit (h : pat[k]? = some c) : next pat k c = k + 1 := by
  obtain ⟨hk, -⟩ := List.getElem?_eq_some_iff.1 h
  rw [next, if_neg hk.ne, if_pos h]

theorem next_miss (hk : k < pat.length) (h : pat[k]? ≠ some c) : next pat k c = 0 := by
  rw [next, if_neg hk.ne, if_neg h]

theorem next_le (hk : k ≤ pat.length) : next pat k c ≤ pat.length := by
  rcases hk.lt_or_eq with hk | rfl
  · by_cases h : pat[k]? = some c
    · rw [next_hit h]
      exact hk
    · rw [next_miss hk h]
      exact Nat.zero_le _
  · rw [next_full]

theorem count_le (hk : k ≤ pat.length) : count pat k l ≤ pat.length := by
  induction l generalizing k with
  | nil => exact hk
  | cons c l ih => exact ih (next_le hk)

theorem count_full : count pat pat.length l = pat.length := by
  induction l with
  | nil => rfl
  | cons c l ih => rw [count_cons, next_full, ih]

/-- Reading the next characters of the pattern. -/
theorem count_take (hk : k ≤ pat.length) : count pat 0 (pat.take k) = k := by
  induction k with
  | zero => rfl
  | succ k ih =>
    have hget : pat[k]? = some pat[k] := List.getElem?_eq_getElem hk
    rw [List.take_add_one, hget, count_append, ih (by omega)]
    exact next_hit hget

/-- A counter at its end has seen the pattern. -/
theorem infix_of_count (hk : k ≤ pat.length) (hr : pat.take k <:+ r) (h : count pat k l = pat.length) : pat <:+: r ++ l := by
  induction l generalizing k r with
  | nil =>
    obtain rfl : k = pat.length := h
    rw [List.take_length] at hr
    rw [List.append_nil]
    exact hr.isInfix
  | cons c l ih =>
    rcases hk.lt_or_eq with hlt | rfl
    · have hstep : pat.take (next pat k c) <:+ r ++ [c] := by
        by_cases hc : pat[k]? = some c
        · rw [next_hit hc, take_succ_of_get hc]
          exact (List.suffix_append_inj_of_length_eq rfl).2 ⟨hr, rfl⟩
        · rw [next_miss hlt hc]
          exact List.nil_suffix
      have hin := ih (next_le hk) hstep h
      rwa [List.append_assoc] at hin
    · rw [List.take_length] at hr
      exact hr.isInfix.trans (List.infix_append' [] r (c :: l))

theorem count_lt (h : ¬ pat <:+: l) : count pat 0 l < pat.length := by
  refine (count_le (Nat.zero_le _)).lt_of_ne fun he => h ?_
  have hin := infix_of_count (Nat.zero_le _) (List.nil_suffix : pat.take 0 <:+ []) he
  exact hin

/-- The counter before its end, at zero: all starts of the pattern were broken off. -/
theorem broken_of_count (hk : k < pat.length) (h : count pat k u = 0) : Broken pat (pat.take k ++ u) := by
  induction u generalizing k with
  | nil =>
    obtain rfl : k = 0 := h
    exact .nil
  | cons c u ih =>
    by_cases hc : pat[k]? = some c
    · have hk' : k + 1 < pat.length := by
        by_contra hend
        have he : k + 1 = pat.length := by omega
        rw [count_cons, next_hit hc, he, count_full] at h
        omega
      rw [count_cons, next_hit hc] at h
      have hb := ih hk' h
      rwa [take_succ_of_get hc, List.append_assoc] at hb
    · rw [count_cons, next_miss hk hc] at h
      exact .piece hk hc (ih (by omega) h)

theorem Broken.count (h : Broken pat u) : count pat 0 u = 0 := by
  induction h with
  | nil => rfl
  | piece hk hc _ ih => rw [count_append, count_take hk.le, count_cons, next_miss hk hc, ih]

theorem broken_iff (hpat : 0 < pat.length) : Broken pat u ↔ Search.count pat 0 u = 0 :=
  ⟨Broken.count, fun h => broken_of_count hpat h⟩

theorem FirstAt.count_lt (h : FirstAt pat l u v) (hw : w <+: l) (hlen : w.length < u.length + pat.length) :
    Search.count pat 0 w < pat.length := Search.count_lt (h.absent hw hlen)

end Search
