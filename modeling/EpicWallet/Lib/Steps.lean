import Mathlib.Tactic.Common

/-!
# Runs of a step function

`step s l` is the state after the step `l`, if the step can be taken in `s`. `run` takes the steps of a
list one after the other; `Allowed ok` says that each is taken where `ok` allows it. What every allowed
step keeps, an allowed run keeps (`run_inv`).
-/

namespace EpicWallet.Lib.Steps

variable {σ L : Type} (step : σ → L → Option σ)

/-- The state after the steps, if all can be taken. -/
def run : List L → σ → Option σ
  | [], s => some s
  | l :: ls, s => (step s l).bind (run ls)

/-- Every step is allowed in the state it is taken in. -/
def Allowed (ok : L → σ → Prop) : List L → σ → Prop
  | [], _ => True
  | l :: ls, s => ok l s ∧ ∀ t ∈ step s l, Allowed ok ls t

instance Allowed.decidable {ok : L → σ → Prop} [∀ l s, Decidable (ok l s)] :
    ∀ (ls : List L) (s : σ), Decidable (Allowed step ok ls s)
  | [], _ => .isTrue trivial
  | l :: ls, s =>
    have : ∀ t, Decidable (Allowed step ok ls t) := Allowed.decidable ls
    inferInstanceAs (Decidable (ok l s ∧ ∀ t ∈ step s l, Allowed step ok ls t))

variable {step}

theorem run_cons {l : L} {ls : List L} {s t : σ} :
    run step (l :: ls) s = some t ↔ ∃ s', step s l = some s' ∧ run step ls s' = some t :=
  Option.bind_eq_some_iff

theorem run_append {ls ls' : List L} {s t : σ} :
    run step (ls ++ ls') s = some t ↔ ∃ s', run step ls s = some s' ∧ run step ls' s' = some t := by
  induction ls generalizing s with
  | nil =>
    constructor
    · intro h
      exact ⟨s, rfl, h⟩
    · rintro ⟨_, h, h'⟩
      cases h
      exact h'
  | cons l ls ih =>
    rw [List.cons_append, run_cons]
    simp only [ih, run_cons]
    grind

theorem allowed_append {ok : L → σ → Prop} {ls ls' : List L} {s t : σ}
    (h : Allowed step ok (ls ++ ls') s) (hrun : run step ls s = some t) :
    Allowed step ok ls s ∧ Allowed step ok ls' t := by
  induction ls generalizing s with
  | nil =>
    cases hrun
    exact ⟨trivial, h⟩
  | cons l ls ih =>
    obtain ⟨s', hs, hrest⟩ := run_cons.1 hrun
    obtain ⟨hok, hnext⟩ := h
    obtain ⟨-, htail⟩ := ih (hnext s' hs) hrest
    refine ⟨⟨hok, fun t' ht' => ?_⟩, htail⟩
    obtain rfl : s' = t' := Option.some.inj (hs.symm.trans ht')
    exact (ih (hnext s' hs) hrest).1

/-- Steps that are allowed everywhere. -/
theorem allowed_of_forall {ok : L → σ → Prop} :
    ∀ {ls : List L} {s : σ}, (∀ l ∈ ls, ∀ s, ok l s) → Allowed step ok ls s
  | [], _, _ => trivial
  | l :: _, s, h => ⟨h l List.mem_cons_self s, fun _ _ =>
      allowed_of_forall fun l' hl' => h l' (List.mem_cons_of_mem _ hl')⟩

/-- What every allowed step keeps, an allowed run keeps. -/
theorem run_inv {ok : L → σ → Prop} {I : σ → Prop}
    (hstep : ∀ s l t, ok l s → I s → step s l = some t → I t) {ls : List L} {s t : σ}
    (hok : Allowed step ok ls s) (hs : I s) (hrun : run step ls s = some t) : I t := by
  induction ls generalizing s with
  | nil =>
    cases hrun
    exact hs
  | cons l ls ih =>
    obtain ⟨s', hl, hrest⟩ := run_cons.1 hrun
    exact ih (hok.2 s' hl) (hstep s l s' hok.1 hs hl) hrest

/-- A step that can be taken nowhere in an invariant is none of the run's. -/
theorem not_mem_of_run {ok : L → σ → Prop} {I : σ → Prop}
    (hstep : ∀ s l t, ok l s → I s → step s l = some t → I t) {l : L} (hl : ∀ s, I s → step s l = none)
    {ls : List L} {s t : σ} (hok : Allowed step ok ls s) (hs : I s) (hrun : run step ls s = some t) :
    l ∉ ls := by
  induction ls generalizing s with
  | nil => exact List.not_mem_nil
  | cons l' ls ih =>
    obtain ⟨s', hl', hrest⟩ := run_cons.1 hrun
    intro hmem
    rcases List.mem_cons.1 hmem with rfl | hmem
    · rw [hl s hs] at hl'
      cases hl'
    · exact ih (hok.2 s' hl') (hstep s l' s' hok.1 hs hl') hrest hmem

end EpicWallet.Lib.Steps
