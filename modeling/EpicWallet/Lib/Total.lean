import EpicWallet.Lib.Triple

/-!
# Programs that do not panic

`Total P p Q`: from a state with `P` the program `p` returns a value with `Q` or returns an error; it
does not panic. The rules follow the constructs of a program as those of `Triple` do; `Total.of_ok` is
the one for a step that is known to return.
-/

namespace EpicWallet.Lib.Prog

variable {σ ε α β : Type}

/-- From a state with `P`, `p` returns with `Q` or returns an error. -/
def Total (P : σ → Prop) (p : Prog σ ε α) (Q : α → σ → Prop) : Prop :=
  ∀ s, P s → match p s with
    | (.ok a, t) => Q a t
    | (.error (.err _), _) => True
    | (.error .panic, _) => False

section
variable {P P' : σ → Prop} {Q Q' : α → σ → Prop} {p : Prog σ ε α}

theorem Total.intro (hok : ∀ s a t, P s → p s = (.ok a, t) → Q a t)
    (hpanic : ∀ s t, P s → p s ≠ (.error .panic, t)) : Total P p Q := by
  intro s hs
  rcases hp : p s with ⟨(e | _) | a, t⟩
  · trivial
  · exact hpanic s t hs hp
  · exact hok s a t hs hp

theorem Total.ok (h : Total P p Q) {s t : σ} {a : α} (hs : P s) (hp : p s = (.ok a, t)) : Q a t := by
  have := h s hs
  rwa [hp] at this

theorem Total.ne_panic (h : Total P p Q) {s t : σ} (hs : P s) : p s ≠ (.error .panic, t) := by
  intro hp
  have := h s hs
  rwa [hp] at this

theorem Total.mono (h : Total P p Q) (hP : ∀ s, P' s → P s) (hQ : ∀ a s, Q a s → Q' a s) :
    Total P' p Q' :=
  .intro (fun s a t hs hp => hQ a t (h.ok (hP s hs) hp)) fun s _ hs => h.ne_panic (hP s hs)

/-- With what is known of the state a program leaves. -/
theorem Total.and {R : α → σ → Prop} {E : σ → Prop} (h : Total P p Q) (ht : Triple P p R E) :
    Total P p fun a s => Q a s ∧ R a s :=
  .intro (fun _ _ _ hs hp => ⟨h.ok hs hp, ht.ok hs hp⟩) fun _ _ hs => h.ne_panic hs

/-- With what is known of every value a program returns. -/
theorem Total.returns (h : Total P p Q) {φ : α → Prop} (hφ : Returns p φ) :
    Total P p fun a s => Q a s ∧ φ a :=
  .intro (fun s a t hs hp => ⟨h.ok hs hp, hφ s a t hp⟩) fun _ _ hs => h.ne_panic hs

/-- A part of the precondition that is not about the state. -/
theorem Total.of_and {φ : Prop} (h : φ → Total P p Q) : Total (fun s => P s ∧ φ) p Q :=
  fun s hs => h hs.2 s hs.1

/-- A program that is known to return. -/
theorem Total.of_ok (h : ∀ s, P s → ∃ a t, p s = (.ok a, t) ∧ Q a t) : Total P p Q := by
  intro s hs
  obtain ⟨a, t, hp, hq⟩ := h s hs
  rw [hp]
  exact hq

/-- A program that reads, and does not panic. -/
theorem Reads.total (hr : Reads p) (h : Total P p fun _ _ => True)
    (hQ : ∀ s a, P s → p s = (.ok a, s) → Q a s) : Total P p Q := by
  refine .intro (fun s a t hs hp => ?_) fun _ _ hs => h.ne_panic hs
  obtain rfl := hr.eq hp
  exact hQ _ a hs hp

/-- A program that does not panic anywhere, and what each of its steps keeps. -/
theorem Total.framed (h : Total (fun _ => True) p fun _ _ => True) {R : σ → σ → Prop} (hR : Keeps R p)
    (hP : ∀ s t, R s t → P s → P t) : Total P p fun _ => P :=
  .intro (fun _ _ _ hs hp => hP _ _ (hR.rel hp) hs) fun _ _ _ => h.ne_panic trivial

theorem Total.pure {a : α} (h : ∀ s, P s → Q a s) : Total P (pure a : Prog σ ε α) Q :=
  fun s hs => h s hs

theorem Total.throw (e : ε) : Total P (throw e : Prog σ ε α) Q := fun _ _ => trivial

theorem Total.ofExcept {x : Except ε α} (h : ∀ s a, P s → x = .ok a → Q a s) :
    Total P (ofExcept x : Prog σ ε α) Q := by
  intro s hs
  cases x with
  | ok a => exact h s a hs rfl
  | error e => trivial

theorem Total.unwrap {o : Option α} (h : ∀ s, P s → ∃ a, o = some a ∧ Q a s) :
    Total P (unwrap o : Prog σ ε α) Q := by
  refine .of_ok fun s hs => ?_
  obtain ⟨a, rfl, hq⟩ := h s hs
  exact ⟨a, s, rfl, hq⟩

theorem Total.orPanic (h : ∀ s, P s → ∃ a t, p s = (.ok a, t) ∧ Q a t) :
    Total P (orPanic p) Q := by
  refine .of_ok fun s hs => ?_
  obtain ⟨a, t, hp, hq⟩ := h s hs
  exact ⟨a, t, orPanic_eq_ok.2 hp, hq⟩

theorem Total.bind {f : α → Prog σ ε β} {R : α → σ → Prop} {S : β → σ → Prop} (hp : Total P p R)
    (hf : ∀ a, Total (R a) (f a) S) : Total P (p >>= f) S := by
  intro s hs
  have h := hp s hs
  rw [bind_apply]
  rcases hr : p s with ⟨(e | _) | a, t⟩
  · trivial
  · rwa [hr] at h
  · rw [hr] at h
    exact hf a t h

/-- The error of a program that reads is caught where the program started. -/
theorem Total.attempt {Q' : Except ε α → σ → Prop} (h : Total P p Q) (hr : Reads p)
    (hok : ∀ a s, Q a s → Q' (.ok a) s) (herr : ∀ e s, P s → Q' (.error e) s) :
    Total P (attempt p) Q' := by
  intro s hs
  unfold Prog.attempt
  rcases hp : p s with ⟨(e | _) | a, t⟩
  · obtain rfl := hr.eq hp
    exact herr e _ hs
  · exact absurd hp (h.ne_panic hs)
  · exact hok a t (h.ok hs hp)

theorem Total.ite {c : Prop} [Decidable c] {q : Prog σ ε α} (hp : c → Total P p Q)
    (hq : ¬c → Total P q Q) : Total P (if c then p else q) Q := by
  split
  · exact hp ‹_›
  · exact hq ‹_›

end

section
variable {P : σ → Prop}

/-- A loop with an invariant about what is left to do. -/
theorem Total.forEach {f : β → Prog σ ε Unit} {I : List β → σ → Prop}
    (h : ∀ b l, Total (I (b :: l)) (f b) fun _ => I l) :
    ∀ l : List β, Total (I l) (forEach l f) fun _ => I []
  | [] => .pure fun _ h => h
  | b :: l => (h b l).bind fun _ => Total.forEach h l

/-- A loop with an accumulator: the invariant is about what is left to do and what was gathered. -/
theorem Total.foldlM {f : α → β → Prog σ ε α} {I : List β → α → σ → Prop}
    (h : ∀ b l a, Total (I (b :: l) a) (f a b) (I l)) :
    ∀ (l : List β) (a : α), Total (I l a) (l.foldlM f a) (I [])
  | [], _ => .pure fun _ h => h
  | b :: l, a => by
    rw [List.foldlM_cons]
    exact (h b l a).bind fun a' => Total.foldlM h l a'

end

end EpicWallet.Lib.Prog
