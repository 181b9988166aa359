import Mathlib.Data.List.Nodup

/-!
# Keyed rows in insertion order

`Rows κ ν` is a table with a unique key: rows in the order they were first inserted, no key twice
(the invariant is a field, so a table with a duplicate key cannot be built). `put` updates the row
of its key in place or appends a new one, `erase` removes it.

The content of a table is its `get`: `mem_iff` turns membership in the row list into `get`, and
`get_put`, `get_erase` say what a write does to every key. `All P` is an invariant of the single rows.
-/

namespace EpicWallet.Lib

/-- Rows with distinct keys, in insertion order. -/
structure Rows (κ ν : Type) where
  toList : List (κ × ν)
  nodup : (toList.map Prod.fst).Nodup

namespace Rows

variable {κ ν : Type}

@[ext] theorem ext {r r' : Rows κ ν} (h : r.toList = r'.toList) : r = r' := by
  cases r; cases r'; cases h; rfl

variable [DecidableEq κ]

/-- The table with no row. -/
def empty : Rows κ ν := ⟨[], by simp⟩

/-- Replaces the value of `k` where it stands, or appends the row. -/
def putList (k : κ) (v : ν) : List (κ × ν) → List (κ × ν)
  | [] => [(k, v)]
  | x :: l => if x.1 = k then (k, v) :: l else x :: putList k v l

theorem mem_putList {k : κ} {v : ν} {x : κ × ν} : ∀ {l : List (κ × ν)}, (l.map Prod.fst).Nodup →
    (x ∈ putList k v l ↔ x = (k, v) ∨ x.1 ≠ k ∧ x ∈ l)
  | [], _ => by simp [putList]
  | y :: l, hn => by
    obtain ⟨hy, hn⟩ : y.1 ∉ l.map Prod.fst ∧ (l.map Prod.fst).Nodup := by simpa using hn
    have hl : ∀ z ∈ l, z.1 ≠ y.1 := fun z hz e => hy (e ▸ List.mem_map_of_mem hz)
    unfold putList
    split
    · subst ‹y.1 = k›
      grind
    · rw [List.mem_cons, mem_putList hn]
      grind

theorem map_fst_putList (k : κ) (v : ν) : ∀ l : List (κ × ν),
    (putList k v l).map Prod.fst =
      if k ∈ l.map Prod.fst then l.map Prod.fst else l.map Prod.fst ++ [k]
  | [] => by simp [putList]
  | x :: l => by
    unfold putList
    have ih := map_fst_putList k v l
    split
    · subst ‹x.1 = k›; simp
    · simp only [List.map_cons, ih]
      grind

/-- The table with the value `v` at `k`. -/
def put (r : Rows κ ν) (k : κ) (v : ν) : Rows κ ν :=
  ⟨putList k v r.toList, by
    rw [map_fst_putList]
    have := r.nodup
    split
    · exact this
    · refine List.nodup_append.2 ⟨this, by simp, ?_⟩
      rintro a ha b hb rfl
      exact ‹k ∉ _› (List.mem_singleton.1 hb ▸ ha)⟩

/-- The table without the row of `k`. -/
def erase (r : Rows κ ν) (k : κ) : Rows κ ν :=
  ⟨r.toList.filter (·.1 ≠ k), r.nodup.sublist (List.filter_sublist.map _)⟩

/-- The value at `k`. -/
def get (r : Rows κ ν) (k : κ) : Option ν := (r.toList.find? (·.1 = k)).map Prod.snd

theorem mem_iff {r : Rows κ ν} {k : κ} {v : ν} : (k, v) ∈ r.toList ↔ r.get k = some v := by
  unfold get
  rw [Option.map_eq_some_iff]
  constructor
  · intro h
    obtain ⟨x, hx⟩ : ∃ x, r.toList.find? (·.1 = k) = some x := by
      rw [← Option.isSome_iff_exists, List.find?_isSome]
      exact ⟨_, h, by simp⟩
    have hk : x.1 = k := by simpa using List.find?_some hx
    have := List.inj_on_of_nodup_map r.nodup (List.mem_of_find?_eq_some hx) h hk
    exact ⟨x, hx, by rw [this]⟩
  · rintro ⟨x, hx, rfl⟩
    have hk : x.1 = k := by simpa using List.find?_some hx
    exact hk ▸ List.mem_of_find?_eq_some hx

@[simp] theorem get_empty (k : κ) : (empty : Rows κ ν).get k = none := rfl

theorem mem_put {r : Rows κ ν} {k : κ} {v : ν} {x : κ × ν} :
    x ∈ (r.put k v).toList ↔ x = (k, v) ∨ x.1 ≠ k ∧ x ∈ r.toList :=
  mem_putList r.nodup

theorem mem_erase {r : Rows κ ν} {k : κ} {x : κ × ν} :
    x ∈ (r.erase k).toList ↔ x.1 ≠ k ∧ x ∈ r.toList := by
  simp [erase, and_comm]

theorem get_put (r : Rows κ ν) (k k' : κ) (v : ν) :
    (r.put k v).get k' = if k' = k then some v else r.get k' := by
  apply Option.ext
  intro w
  rw [← mem_iff, mem_put]
  split
  · subst ‹k' = k›; simp [eq_comm]
  · rw [← mem_iff]; simp [*]

@[simp] theorem get_put_self (r : Rows κ ν) (k : κ) (v : ν) : (r.put k v).get k = some v := by
  simp [get_put]

theorem get_put_ne (r : Rows κ ν) {k k' : κ} (v : ν) (h : k' ≠ k) :
    (r.put k v).get k' = r.get k' := by
  simp [get_put, h]

theorem get_erase (r : Rows κ ν) (k k' : κ) :
    (r.erase k).get k' = if k' = k then none else r.get k' := by
  apply Option.ext
  intro w
  rw [← mem_iff, mem_erase]
  split
  · subst ‹k' = k›; simp
  · rw [← mem_iff]; simp [*]

@[simp] theorem get_erase_self (r : Rows κ ν) (k : κ) : (r.erase k).get k = none := by
  simp [get_erase]

theorem get_erase_ne (r : Rows κ ν) {k k' : κ} (h : k' ≠ k) : (r.erase k).get k' = r.get k' := by
  simp [get_erase, h]

theorem putList_eq_self {k : κ} {v : ν} : ∀ {l : List (κ × ν)}, (l.map Prod.fst).Nodup →
    (k, v) ∈ l → putList k v l = l
  | x :: l, hn, h => by
    obtain ⟨hx, hn⟩ : x.1 ∉ l.map Prod.fst ∧ (l.map Prod.fst).Nodup := by simpa using hn
    unfold putList
    rcases List.mem_cons.1 h with rfl | h
    · simp
    · have hk : k ∈ l.map Prod.fst := List.mem_map_of_mem h
      rw [if_neg fun e : x.1 = k => hx (e ▸ hk), putList_eq_self hn h]

/-- Writing a row changes nothing exactly if the row is there already. -/
theorem put_eq_self_iff {r : Rows κ ν} {k : κ} {v : ν} : r.put k v = r ↔ r.get k = some v := by
  constructor
  · intro h
    rw [← h, get_put_self]
  · intro h
    exact ext (putList_eq_self r.nodup (mem_iff.2 h))

/-- Removing a row changes nothing exactly if there is none. -/
theorem erase_eq_self_iff {r : Rows κ ν} {k : κ} : r.erase k = r ↔ r.get k = none := by
  constructor
  · intro h
    rw [← h, get_erase_self]
  · intro h
    apply ext
    refine List.filter_eq_self.2 fun x hx => decide_eq_true ?_
    rintro rfl
    rw [mem_iff.1 (show (x.1, x.2) ∈ r.toList from hx)] at h
    cases h

/-! ## Rows of one kind -/

/-- Every row is as `P` asks. -/
def All (P : κ → ν → Prop) (r : Rows κ ν) : Prop := ∀ k v, r.get k = some v → P k v

theorem All.put {P : κ → ν → Prop} {r : Rows κ ν} (h : r.All P) {k : κ} {v : ν} (hv : P k v) :
    (r.put k v).All P := by
  intro k' v' hg
  rw [get_put] at hg
  split at hg
  · cases hg
    exact ‹k' = k› ▸ hv
  · exact h k' v' hg

theorem All.erase {P : κ → ν → Prop} {r : Rows κ ν} (h : r.All P) (k : κ) : (r.erase k).All P := by
  intro k' v' hg
  rw [get_erase] at hg
  split at hg
  · cases hg
  · exact h k' v' hg

end Rows

end EpicWallet.Lib
