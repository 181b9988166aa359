import Mathlib.Algebra.Order.BigOperators.Group.List
import Mathlib.Algebra.Order.Ring.Nat
import Mathlib.Data.List.Perm.Basic

/-!
# Sums over parts of an ordered list

In a list ordered by `f` the first `k` elements have the least sum of all that `k` elements can have
(`sum_take_le`), and the last `k` the greatest (`sum_le_sum_drop`). Elements less than the one at some
place stand before it (`sublist_take_of_lt`), so the ones just before it have the greatest sum of those
(`sum_le_sum_before`).
-/

namespace EpicWallet.Lib.Ordered

variable {α : Type} (f : α → Nat)

/-- The list is ordered by `f`. -/
abbrev By (l : List α) : Prop := l.Pairwise fun a b => f a ≤ f b

variable {f}

theorem sum_le_of_sublist {s l : List α} (h : s.Sublist l) : (s.map f).sum ≤ (l.map f).sum :=
  (h.map f).sum_le_sum fun _ _ => Nat.zero_le _

/-- Before an ordered list stands what is less than its elements. -/
theorem sum_cons_take_le {a : α} {l : List α} (ha : ∀ b ∈ l, f a ≤ f b) :
    ∀ {k : Nat}, k < l.length → f a + ((l.take k).map f).sum ≤ ((l.take (k + 1)).map f).sum := by
  intro k hk
  have hlast : l.take (k + 1) = l.take k ++ [l[k]] := (List.take_append_getElem hk).symm
  have hle : f a ≤ f l[k] := ha _ (List.getElem_mem hk)
  rw [hlast, List.map_append, List.sum_append, List.map_singleton, List.sum_singleton]
  omega

/-- The first elements have the least sum. -/
theorem sum_take_le {s l : List α} (hl : By f l) (h : s.Sublist l) :
    ((l.take s.length).map f).sum ≤ (s.map f).sum := by
  induction h with
  | slnil => simp
  | @cons s l a h ih =>
    obtain ⟨ha, hl⟩ := List.pairwise_cons.1 hl
    rcases s with _ | ⟨b, s⟩
    · simp
    · have hlength : s.length < l.length := h.length_le
      have hfirst := sum_cons_take_le ha hlength
      have hrest := ih hl
      rw [List.length_cons] at hrest ⊢
      rw [List.take_succ_cons, List.map_cons, List.sum_cons]
      exact hfirst.trans hrest
  | @cons_cons s l a h ih =>
    obtain ⟨-, hl⟩ := List.pairwise_cons.1 hl
    rw [List.length_cons, List.take_succ_cons, List.map_cons, List.sum_cons, List.map_cons, List.sum_cons]
    exact Nat.add_le_add_left (ih hl) _

/-- The last elements have the greatest sum. -/
theorem sum_le_sum_drop {s l : List α} (hl : By f l) (h : s.Sublist l) {k : Nat} (hs : s.length ≤ k)
    (hk : k ≤ l.length) : (s.map f).sum ≤ ((l.drop (l.length - k)).map f).sum := by
  induction h generalizing k with
  | slnil => simp
  | @cons s l a h ih =>
    obtain ⟨-, hl⟩ := List.pairwise_cons.1 hl
    rw [List.length_cons] at hk ⊢
    by_cases hall : k = l.length + 1
    · rw [hall, Nat.sub_self, List.drop_zero]
      exact sum_le_of_sublist (h.cons a)
    · rw [show l.length + 1 - k = (l.length - k) + 1 by omega, List.drop_succ_cons]
      exact ih hl hs (by omega)
  | @cons_cons s l a h ih =>
    obtain ⟨ha, hl⟩ := List.pairwise_cons.1 hl
    rw [List.length_cons] at hs hk ⊢
    by_cases hall : k = l.length + 1
    · rw [hall, Nat.sub_self, List.drop_zero]
      exact sum_le_of_sublist (h.cons_cons a)
    · rw [show l.length + 1 - k = (l.length - k) + 1 by omega, List.drop_succ_cons]
      -- the element before the last `k - 1` is one of `l`, so it is at least `a`
      have hlt : l.length - k < l.length := by omega
      have hrest := ih hl (Nat.le_sub_one_of_lt hs) (by omega : k - 1 ≤ l.length)
      have hle : f a ≤ f l[l.length - k] := ha _ (List.getElem_mem hlt)
      rw [show l.length - (k - 1) = l.length - k + 1 by omega] at hrest
      rw [List.drop_eq_getElem_cons hlt, List.map_cons, List.sum_cons, List.map_cons, List.sum_cons]
      omega

/-- Where an element stands, what follows is no less. -/
theorem le_of_mem_drop {l : List α} (hl : By f l) {n : Nat} (hn : n < l.length) {a : α}
    (ha : a ∈ l.drop n) : f l[n] ≤ f a := by
  have hdrop : By f (l.drop n) := hl.sublist (List.drop_sublist n l)
  rw [List.drop_eq_getElem_cons hn] at ha hdrop
  rcases List.mem_cons.1 ha with rfl | hrest
  · exact Nat.le_refl _
  · exact (List.pairwise_cons.1 hdrop).1 a hrest

/-- Up to where an element stands, nothing is greater. -/
theorem le_of_mem_take {l : List α} (hl : By f l) {n : Nat} (hn : n < l.length) {a : α}
    (ha : a ∈ l.take (n + 1)) : f a ≤ f l[n] := by
  have htake : By f (l.take (n + 1)) := hl.sublist (List.take_sublist (n + 1) l)
  rw [← List.take_append_getElem hn] at ha htake
  obtain ⟨-, -, hbefore⟩ := List.pairwise_append.1 htake
  rcases List.mem_append.1 ha with hfirst | hlast
  · exact hbefore a hfirst l[n] (List.mem_singleton.2 rfl)
  · exact (congrArg f (List.mem_singleton.1 hlast)).le

theorem sublist_take_of_lt {s l : List α} (hl : By f l) (h : s.Sublist l) {n : Nat} (hn : n < l.length)
    (hs : ∀ a ∈ s, f a < f l[n]) : s.Sublist (l.take n) := by
  rw [← List.take_append_drop n l] at h
  obtain ⟨s₁, s₂, rfl, h₁, h₂⟩ := List.sublist_append_iff.1 h
  have hnil : s₂ = [] := by
    refine List.eq_nil_iff_forall_not_mem.2 fun a ha => ?_
    have hge := le_of_mem_drop hl hn (h₂.subset ha)
    have hlt := hs a (List.mem_append_right s₁ ha)
    omega
  rwa [hnil, List.append_nil]

/-- Of the elements less than the one at `n`, the ones just before it have the greatest sum. -/
theorem sum_le_sum_before {s l : List α} (hl : By f l) (h : s.Sublist l) {n m : Nat} (hn : n < l.length)
    (hs : ∀ a ∈ s, f a < f l[n]) (hm : s.length ≤ m) :
    (s.map f).sum ≤ (((l.take n).drop (n - m)).map f).sum := by
  have hsub := sublist_take_of_lt hl h hn hs
  have htake : (l.take n).length = n := List.length_take_of_le hn.le
  have hlength : s.length ≤ n := hsub.length_le.trans_eq htake
  have hlast := sum_le_sum_drop (hl.sublist (List.take_sublist n l)) hsub (k := min m n)
    (by omega) (by omega)
  rwa [htake, show n - min m n = n - m by omega] at hlast

end EpicWallet.Lib.Ordered
