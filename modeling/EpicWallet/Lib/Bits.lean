import Mathlib.Data.List.Induction
import Mathlib.Data.Nat.Bitwise

/-!
# Numbers of a fixed number of bits, highest first

`toBits w n` and `ofBits` are inverse to each other below `2 ^ w`; `groups w` cuts a list into groups of
`w`, `groups_flatten` puts together and cuts again, `ofGroups w` are the numbers of the groups, and
`mapM_isSome_iff` is about reading every element.
-/

namespace EpicWallet.Lib

/-- The number with these bits. -/
def ofBits (l : List Bool) : Nat := l.foldl (fun n b => 2 * n + b.toNat) 0

/-- The `w` low bits of a number. -/
def toBits (w n : Nat) : List Bool := (List.range w).map fun i => n.testBit (w - 1 - i)

@[simp] theorem length_toBits (w n : Nat) : (toBits w n).length = w := by
  simp [toBits]

theorem ofBits_concat (l : List Bool) (b : Bool) : ofBits (l ++ [b]) = 2 * ofBits l + b.toNat := by
  simp [ofBits]

theorem toBits_succ (w n : Nat) : toBits (w + 1) n = toBits w (n / 2) ++ [n.testBit 0] := by
  unfold toBits
  rw [List.range_succ, List.map_append, List.map_singleton]
  congr 1
  · refine List.map_congr_left fun i hi => ?_
    have hlt := List.mem_range.1 hi
    rw [← Nat.testBit_succ]
    congr 1
    omega
  · simp

theorem ofBits_toBits : ∀ {w n : Nat}, n < 2 ^ w → ofBits (toBits w n) = n
  | 0, n, h => by
    obtain rfl : n = 0 := by simpa using h
    rfl
  | w + 1, n, h => by
    rw [toBits_succ, ofBits_concat, ofBits_toBits (by rw [Nat.pow_succ] at h; omega)]
    rw [Nat.testBit_zero]
    rcases Nat.mod_two_eq_zero_or_one n with hn | hn
    · simp [hn]; omega
    · simp [hn]; omega

theorem toBits_ofBits (l : List Bool) : toBits l.length (ofBits l) = l := by
  induction l using List.reverseRecOn with
  | nil => rfl
  | append_singleton l b ih =>
    have hdiv : (2 * ofBits l + b.toNat) / 2 = ofBits l := by
      cases b
      · simp
      · simp
        omega
    have hbit : (2 * ofBits l + b.toNat).testBit 0 = b := by
      rw [Nat.testBit_zero]
      cases b <;> simp
    rw [List.length_append, List.length_singleton, toBits_succ, ofBits_concat, hdiv, hbit, ih]

theorem ofBits_lt (l : List Bool) : ofBits l < 2 ^ l.length := by
  induction l using List.reverseRecOn with
  | nil => decide
  | append_singleton l b ih =>
    rw [ofBits_concat, List.length_append, List.length_singleton, Nat.pow_succ]
    cases b <;> simp <;> omega

/-! ## Groups -/

variable {α β : Type}

/-- The list in groups of `w`, if they come out even; the number is the groups allowed. -/
def groups (w : Nat) : Nat → List α → Option (List (List α))
  | _, [] => some []
  | 0, _ :: _ => none
  | n + 1, a :: l =>
    if (a :: l).length < w then none
    else (groups w n ((a :: l).drop w)).map ((a :: l).take w :: ·)

theorem groups_flatten {w : Nat} (hw : 0 < w) :
    ∀ {gs : List (List α)} {n : Nat}, (∀ g ∈ gs, g.length = w) → gs.length ≤ n →
      groups w n gs.flatten = some gs
  | [], 0, _, _ => rfl
  | [], _ + 1, _, _ => rfl
  | g :: gs, n, hg, hn => by
    have hlen : g.length = w := hg g List.mem_cons_self
    obtain ⟨a, l, rfl⟩ := List.exists_cons_of_length_pos (hlen ▸ hw)
    obtain ⟨n, rfl⟩ : ∃ m, n = m + 1 := ⟨n - 1, by simp at hn; omega⟩
    have htake : ((a :: l) ++ gs.flatten).take w = a :: l := by rw [← hlen, List.take_left]
    have hdrop : ((a :: l) ++ gs.flatten).drop w = gs.flatten := by rw [← hlen, List.drop_left]
    show groups w (n + 1) (a :: (l ++ gs.flatten)) = _
    rw [groups, if_neg (by rw [← List.cons_append, List.length_append]; omega)]
    rw [← List.cons_append, htake, hdrop,
      groups_flatten hw (fun g' hg' => hg g' (List.mem_cons_of_mem _ hg')) (by simpa using hn)]
    rfl

/-- A list is cut into groups exactly if they come out even. -/
theorem groups_isSome {w : Nat} (hw : 0 < w) : ∀ {n : Nat} {l : List α}, l.length ≤ n →
    ((groups w n l).isSome ↔ l.length % w = 0)
  | 0, l, h => by
    obtain rfl : l = [] := List.length_eq_zero_iff.1 (by omega)
    simp [groups]
  | _ + 1, [], _ => by simp [groups]
  | n + 1, a :: l, h => by
    rw [groups]
    by_cases hshort : (a :: l).length < w
    · rw [if_pos hshort, Nat.mod_eq_of_lt hshort]
      simp
    · rw [if_neg hshort, Option.isSome_map, groups_isSome hw (by simp at h ⊢; omega), List.length_drop,
        ← Nat.mod_eq_sub_mod (by omega)]

/-- A list whose length is a multiple of `w` is made of groups of `w`. -/
theorem exists_groups {w : Nat} : ∀ {k : Nat} {l : List α}, l.length = k * w →
    ∃ gs : List (List α), l = gs.flatten ∧ (∀ g ∈ gs, g.length = w) ∧ gs.length = k
  | 0, l, h => by
    obtain rfl : l = [] := List.length_eq_zero_iff.1 (by omega)
    exact ⟨[], rfl, by simp, rfl⟩
  | k + 1, l, h => by
    rw [Nat.succ_mul] at h
    obtain ⟨gs, hgs, hlen, hk⟩ := exists_groups (w := w) (k := k) (l := l.drop w) (by simp; omega)
    refine ⟨l.take w :: gs, ?_, ?_, by simp [hk]⟩
    · rw [List.flatten_cons, ← hgs, List.take_append_drop]
    · intro g hg
      rcases List.mem_cons.1 hg with rfl | hg
      · simp; omega
      · exact hlen g hg

/-- The numbers of `w` bits that make up the bits. -/
def ofGroups (w : Nat) (bits : List Bool) : Option (List Nat) :=
  (groups w bits.length bits).map (·.map ofBits)

theorem length_flatMap_toBits (w : Nat) (ds : List Nat) :
    (ds.flatMap (toBits w)).length = ds.length * w := by
  simp [List.length_flatMap, List.map_const']

theorem ofGroups_toBits {w : Nat} (hw : 0 < w) {ds : List Nat} (h : ∀ d ∈ ds, d < 2 ^ w) :
    ofGroups w (ds.flatMap (toBits w)) = some ds := by
  have hgroups : groups w (ds.flatMap (toBits w)).length (ds.map (toBits w)).flatten =
      some (ds.map (toBits w)) := by
    refine groups_flatten hw (fun g hg => ?_) ?_
    · obtain ⟨d, -, rfl⟩ := List.mem_map.1 hg
      exact length_toBits w d
    · rw [length_flatMap_toBits, List.length_map]
      exact Nat.le_mul_of_pos_right _ hw
  have hnumbers : (ds.map (toBits w)).map ofBits = ds := by
    rw [List.map_map]
    conv_rhs => rw [← List.map_id' ds]
    exact List.map_congr_left fun d hd => ofBits_toBits (h d hd)
  unfold ofGroups
  rw [← List.flatMap_def] at hgroups
  rw [hgroups, Option.map_some, hnumbers]

/-- Bits that come out even are those of the numbers they are cut into. -/
theorem exists_ofGroups {w k : Nat} (hw : 0 < w) {bits : List Bool} (h : bits.length = k * w) :
    ∃ ds, ofGroups w bits = some ds ∧ ds.length = k ∧ (∀ d ∈ ds, d < 2 ^ w) ∧
      ds.flatMap (toBits w) = bits := by
  obtain ⟨gs, rfl, hlen, hk⟩ := exists_groups h
  have hbits : (gs.map ofBits).flatMap (toBits w) = gs.flatten := by
    rw [List.flatMap_def, List.map_map]
    congr 1
    conv_rhs => rw [← List.map_id' gs]
    exact List.map_congr_left fun g hg => by
      have := toBits_ofBits g
      rwa [hlen g hg] at this
  refine ⟨gs.map ofBits, ?_, by rw [List.length_map, hk], ?_, hbits⟩
  · unfold ofGroups
    rw [groups_flatten hw hlen (by rw [h, hk]; exact Nat.le_mul_of_pos_right _ hw)]
    rfl
  · intro d hd
    obtain ⟨g, hg, rfl⟩ := List.mem_map.1 hd
    exact hlen g hg ▸ ofBits_lt g

/-! ## A list read element by element -/

theorem mapM_isSome_iff {f : α → Option β} {l : List α} : (l.mapM f).isSome ↔ ∀ a ∈ l, (f a).isSome := by
  induction l with
  | nil => simp
  | cons a l ih =>
    rw [List.mapM_cons, List.forall_mem_cons, ← ih]
    cases f a with
    | none => simp
    | some b => cases l.mapM f <;> simp

theorem mapM_map_some {f : α → β} {g : β → Option α} {l : List α} (h : ∀ a ∈ l, g (f a) = some a) :
    (l.map f).mapM g = some l := by
  induction l with
  | nil => rfl
  | cons a l ih =>
    rw [List.map_cons, List.mapM_cons, h a List.mem_cons_self, ih fun b hb => h b (List.mem_cons_of_mem a hb)]
    rfl

theorem mapM_some {f : α → Option β} {l : List α} {r : List β} (h : l.mapM f = some r) :
    r.length = l.length ∧ r.head? = l.head?.bind f := by
  induction l generalizing r with
  | nil =>
    cases h
    exact ⟨rfl, rfl⟩
  | cons a l ih =>
    rw [List.mapM_cons] at h
    obtain ⟨b, hb, h⟩ := Option.bind_eq_some_iff.1 h
    obtain ⟨rest, hrest, h⟩ := Option.bind_eq_some_iff.1 h
    cases h
    exact ⟨by rw [List.length_cons, List.length_cons, (ih hrest).1], hb.symm⟩

end EpicWallet.Lib
