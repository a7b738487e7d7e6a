/-
Singly linked lists: a head pointer, a null pointer and a `next` function spell a list of nodes.
The node list is determined by the pointers, and taking a node out of the middle is one change of
`next`.
-/
import Mathlib.Tactic

namespace Linked

variable {α : Type}

/-- From the pointer `h`, following `next` until `null` visits exactly the nodes `l`, in order. -/
def Chain (null : α) (next : α → α) : α → List α → Prop
  | h, [] => h = null
  | h, a :: t => h = a ∧ a ≠ null ∧ Chain null next (next a) t

variable {null : α} {next next' : α → α}

theorem chain_nil {h : α} : Chain null next h [] ↔ h = null := Iff.rfl

/-- The pointers determine the node list. -/
theorem Chain.unique : ∀ {h : α} {l l' : List α}, Chain null next h l → Chain null next h l' → l = l'
  | _, [], [], _, _ => rfl
  | _, [], _ :: _, h1, ⟨h2, h3, _⟩ => absurd (h2.symm.trans h1) h3
  | _, _ :: _, [], ⟨h1, h2, _⟩, h3 => absurd (h1.symm.trans h3) h2
  | _, a :: t, b :: t', ⟨h1, _, h2⟩, ⟨h3, _, h4⟩ => by
    obtain rfl : a = b := h1.symm.trans h3
    rw [h2.unique h4]

/-- A chain reads `next` only at its own nodes. -/
theorem Chain.congr : ∀ {h : α} {l : List α}, Chain null next h l → (∀ a ∈ l, next' a = next a) →
    Chain null next' h l
  | _, [], h, _ => h
  | _, a :: t, ⟨h1, h2, h3⟩, hag => by
    refine ⟨h1, h2, ?_⟩
    rw [hag a (List.mem_cons_self ..)]
    exact h3.congr fun b hb => hag b (List.mem_cons_of_mem _ hb)

theorem Chain.head_eq {h : α} {l : List α} (hc : Chain null next h l) : h = l.headD null := by
  cases l with
  | nil => exact hc
  | cons a t => exact hc.1

/-- Two chains over the same nodes have the same links. -/
theorem Chain.next_eq : ∀ {h h' : α} {l : List α}, Chain null next h l → Chain null next' h' l → ∀ a ∈ l, next a = next' a
  | _, _, _ :: _, ⟨_, _, h1⟩, ⟨_, _, h2⟩, _, List.Mem.head _ => h1.head_eq.trans h2.head_eq.symm
  | _, _, _ :: _, ⟨_, _, h1⟩, ⟨_, _, h2⟩, a, List.Mem.tail _ ha => h1.next_eq h2 a ha

theorem Chain.eq_nil_iff {h : α} {l : List α} (hc : Chain null next h l) : h = null ↔ l = [] := by
  cases l with
  | nil => simpa using chain_nil.1 hc
  | cons a t => simp [hc.1, hc.2.1]

/-- Taking the node `b` after `a` out: `a` now points where `b` pointed. -/
theorem Chain.unlink [DecidableEq α] : ∀ {h : α} {l₁ : List α} {a b : α} {l₂ : List α},
    Chain null next h (l₁ ++ a :: b :: l₂) → (l₁ ++ a :: b :: l₂).Nodup →
    Chain null (Function.update next a (next b)) h (l₁ ++ a :: l₂)
  | _, [], a, b, l₂, ⟨h1, h2, h3⟩, hnd => by
    refine ⟨h1, h2, ?_⟩
    have hne : ∀ x ∈ l₂, x ≠ a := by
      intro x hx hxa
      subst hxa
      simp only [List.nil_append, List.nodup_cons, List.mem_cons, not_or] at hnd
      exact hnd.1.2 hx
    rw [Function.update_self]
    exact h3.2.2.congr fun x hx => Function.update_of_ne (hne x hx) _ _
  | _, c :: l₁, a, b, l₂, ⟨h1, h2, h3⟩, hnd => by
    refine ⟨h1, h2, ?_⟩
    have hca : c ≠ a := by
      rintro rfl
      simp only [List.cons_append, List.nodup_cons, List.mem_append, List.mem_cons, not_or] at hnd
      exact absurd hnd.1.2 (by simp)
    rw [Function.update_of_ne hca]
    exact Chain.unlink h3 (List.nodup_cons.1 hnd).2

/-- A node of a list is its head, or follows another node. -/
theorem mem_head_or_after {b : α} : ∀ {l : List α}, b ∈ l →
    (∃ t, l = b :: t) ∨ ∃ l₁ a l₂, l = l₁ ++ a :: b :: l₂
  | c :: t, hb => by
    rcases List.mem_cons.1 hb with rfl | hb
    · exact .inl ⟨t, rfl⟩
    · rcases mem_head_or_after hb with ⟨t', rfl⟩ | ⟨l₁, a, l₂, rfl⟩
      · exact .inr ⟨[], c, t', rfl⟩
      · exact .inr ⟨c :: l₁, a, l₂, rfl⟩

/-- Removing the node after `a` from a list without repetitions. -/
theorem erase_after [DecidableEq α] {l₁ : List α} {a b : α} {l₂ : List α}
    (hnd : (l₁ ++ a :: b :: l₂).Nodup) : (l₁ ++ a :: b :: l₂).erase b = l₁ ++ a :: l₂ := by
  have hb1 : b ∉ l₁ := fun h => (List.nodup_append.1 hnd).2.2 b h b (by simp) rfl
  have hba : a ≠ b := by
    have := (List.nodup_append.1 hnd).2.1
    simp only [List.nodup_cons, List.mem_cons, not_or] at this
    exact this.1.1
  rw [List.erase_append_right _ hb1, List.erase_cons_tail (by simpa using hba), List.erase_cons_head]

end Linked
