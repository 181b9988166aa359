import EpicWallet.Lib.Prog

/-!
# Pre- and postconditions

`Triple P p Q E`: from a state with `P` the program `p` returns a value with `Q`, or fails in a state
with `E`. A failing program keeps the writes it made, so `E` is a condition of its own; where `E` and
`P` are one invariant, `p` keeps it (`triple_inv`).

* `Triple.bind`, `Triple.forEach`, `Triple.foldlM`: the rules for sequences and loops.
* `Triple.ok`, `Triple.state`, `state_bind`: a triple read at a run.
* `Returns`: what is known of the value alone.
-/

namespace EpicWallet.Lib.Prog

variable {σ ε α β : Type}

/-- From a state with `P`, `p` returns with `Q` or fails with `E`. -/
def Triple (P : σ → Prop) (p : Prog σ ε α) (Q : α → σ → Prop) (E : σ → Prop) : Prop :=
  ∀ s, P s → match p s with
    | (.ok a, t) => Q a t
    | (.error _, t) => E t

section
variable {P P' E E' : σ → Prop} {Q Q' : α → σ → Prop} {p : Prog σ ε α}

theorem Triple.ok (h : Triple P p Q E) {s t : σ} {a : α} (hs : P s) (hp : p s = (.ok a, t)) :
    Q a t := by
  have := h s hs
  rwa [hp] at this

theorem Triple.error (h : Triple P p Q E) {s t : σ} {e : Fault ε} (hs : P s)
    (hp : p s = (.error e, t)) : E t := by
  have := h s hs
  rwa [hp] at this

theorem Triple.intro (hok : ∀ s a t, P s → p s = (.ok a, t) → Q a t)
    (herr : ∀ s e t, P s → p s = (.error e, t) → E t) : Triple P p Q E := by
  intro s hs
  rcases hp : p s with ⟨e | a, t⟩
  · exact herr s e t hs hp
  · exact hok s a t hs hp

theorem Triple.mono (h : Triple P p Q E) (hP : ∀ s, P' s → P s) (hQ : ∀ a s, Q a s → Q' a s)
    (hE : ∀ s, E s → E' s) : Triple P' p Q' E' := by
  apply Triple.intro
  · intro s a t hs hp
    exact hQ a t (h.ok (hP s hs) hp)
  · intro s e t hs hp
    exact hE t (h.error (hP s hs) hp)

/-- What is known of every value the program returns. -/
theorem Triple.returns (h : Triple P p Q E) {φ : α → Prop}
    (hφ : ∀ s a t, p s = (.ok a, t) → φ a) : Triple P p (fun a s => Q a s ∧ φ a) E :=
  .intro (fun s a t hs hp => ⟨h.ok hs hp, hφ s a t hp⟩) fun _ _ _ hs hp => h.error hs hp

/-- A part of the precondition that is not about the state. -/
theorem Triple.of_and {φ : Prop} (h : φ → Triple P p Q E) : Triple (fun s => P s ∧ φ) p Q E :=
  fun s hs => h hs.2 s hs.1

/-- What holds of both outcomes holds of the state left. -/
theorem Triple.state (h : Triple P p Q E) {I : σ → Prop} (hQ : ∀ a s, Q a s → I s)
    (hE : ∀ s, E s → I s) {s : σ} (hs : P s) : I (p s).2 := by
  rcases hp : p s with ⟨e | a, t⟩
  · exact hE t (h.error hs hp)
  · exact hQ a t (h.ok hs hp)

/-- A triple whose conditions do not ask for the outcome. -/
theorem triple_state {I : σ → Prop} (h : ∀ s, P s → I (p s).2) : Triple P p (fun _ => I) I := by
  apply Triple.intro
  · intro s a t hs hp
    have := h s hs
    rwa [hp] at this
  · intro s e t hs hp
    have := h s hs
    rwa [hp] at this

/-- A program that keeps an invariant. -/
theorem triple_inv {I : σ → Prop} : Triple I p (fun _ => I) I ↔ Keeps (Inv I) p := by
  constructor
  · intro h s hs
    exact h.state (fun _ _ h => h) (fun _ h => h) hs
  · intro h
    exact .intro (fun _ _ _ hs hp => h.rel hp hs) fun _ _ _ hs hp => h.rel hp hs

/-- A program that reads, with what its result tells. -/
theorem Reads.triple (h : Reads p) (hQ : ∀ s a, P s → p s = (.ok a, s) → Q a s)
    (hE : ∀ s, P s → E s) : Triple P p Q E := by
  apply Triple.intro
  · intro s a t hs hp
    obtain rfl := h.eq hp
    exact hQ _ a hs hp
  · intro s e t hs hp
    obtain rfl := h.eq hp
    exact hE _ hs

/-- A program that keeps `P` and whose result tells `Q`. -/
theorem Keeps.triple {R : σ → σ → Prop} (h : Keeps R p) (hQ : ∀ s t a, P s → R s t → Q a t)
    (hE : ∀ s t, P s → R s t → E t) : Triple P p Q E :=
  .intro (fun s a t hs hp => hQ s t a hs (h.rel hp)) fun s _ t hs hp => hE s t hs (h.rel hp)

end

/-! ## What a program returns -/

/-- Every value `p` returns has `φ`, whatever the state. -/
def Returns (p : Prog σ ε α) (φ : α → Prop) : Prop := ∀ s a t, p s = (.ok a, t) → φ a

section
variable {φ ψ : α → Prop} {p : Prog σ ε α}

theorem Returns.mono (h : Returns p φ) (hφ : ∀ a, φ a → ψ a) : Returns p ψ :=
  fun s a t hp => hφ a (h s a t hp)

theorem returns_true : Returns p fun _ => True := fun _ _ _ _ => trivial

theorem Returns.pure {a : α} (h : φ a) : Returns (pure a : Prog σ ε α) φ := fun _ _ _ hp => by
  cases hp
  exact h

theorem Returns.throw (e : ε) : Returns (throw e : Prog σ ε α) φ := fun _ _ _ hp => by cases hp

theorem Returns.panic : Returns (panic : Prog σ ε α) φ := fun _ _ _ hp => by cases hp

theorem Returns.ofExcept {x : Except ε α} (h : ∀ a, x = .ok a → φ a) :
    Returns (ofExcept x : Prog σ ε α) φ := fun _ a _ hp => h a (ofExcept_eq_ok.1 hp).1

theorem Returns.orPanic (h : Returns p φ) : Returns (orPanic p) φ :=
  fun s a t hp => h s a t (orPanic_eq_ok.1 hp)

theorem Returns.bind {f : α → Prog σ ε β} {χ : β → Prop} (hp : Returns p φ)
    (hf : ∀ a, φ a → Returns (f a) χ) : Returns (p >>= f) χ := by
  intro s b t h
  obtain ⟨a, s', ha, hb⟩ := bind_ok.1 h
  exact hf a (hp s a s' ha) s' b t hb

/-- A step whose value does not matter. -/
theorem Returns.next {f : α → Prog σ ε β} {χ : β → Prop} (hf : ∀ a, Returns (f a) χ) :
    Returns (p >>= f) χ :=
  returns_true.bind fun a _ => hf a

theorem Returns.ite {c : Prop} [Decidable c] {q : Prog σ ε α} (hp : c → Returns p φ)
    (hq : ¬c → Returns q φ) : Returns (if c then p else q) φ := by
  split
  · exact hp ‹_›
  · exact hq ‹_›

end

section
variable {P E : σ → Prop}

theorem Triple.pure {Q : α → σ → Prop} {a : α} (h : ∀ s, P s → Q a s) :
    Triple P (pure a : Prog σ ε α) Q E := fun s hs => h s hs

theorem Triple.throw {Q : α → σ → Prop} {e : ε} (h : ∀ s, P s → E s) :
    Triple P (throw e : Prog σ ε α) Q E := fun s hs => h s hs

theorem Triple.panic {Q : α → σ → Prop} (h : ∀ s, P s → E s) :
    Triple P (panic : Prog σ ε α) Q E := fun s hs => h s hs

theorem Triple.bind {p : Prog σ ε α} {f : α → Prog σ ε β} {R : α → σ → Prop} {Q : β → σ → Prop}
    (hp : Triple P p R E) (hf : ∀ a, Triple (R a) (f a) Q E) : Triple P (p >>= f) Q E := by
  intro s hs
  rw [bind_apply]
  rcases h : p s with ⟨e | a, t⟩
  · exact hp.error hs h
  · exact hf a t (hp.ok hs h)

theorem Triple.orPanic {p : Prog σ ε α} {Q : α → σ → Prop} (h : Triple P p Q E) :
    Triple P (orPanic p) Q E := by
  intro s hs
  unfold Prog.orPanic
  rcases hp : p s with ⟨e | a, t⟩
  · exact h.error hs hp
  · exact h.ok hs hp

theorem Triple.attempt {p : Prog σ ε α} {Q : α → σ → Prop} {Q' : Except ε α → σ → Prop}
    (h : Triple P p Q E) (hok : ∀ a s, Q a s → Q' (.ok a) s) (herr : ∀ e s, E s → Q' (.error e) s) :
    Triple P (attempt p) Q' E := by
  intro s hs
  unfold Prog.attempt
  rcases hp : p s with ⟨(e | _) | a, t⟩
  · exact herr e t (h.error hs hp)
  · exact h.error hs hp
  · exact hok a t (h.ok hs hp)

theorem Triple.ite {c : Prop} [Decidable c] {p q : Prog σ ε α} {Q : α → σ → Prop}
    (hp : c → Triple P p Q E) (hq : ¬c → Triple P q Q E) : Triple P (if c then p else q) Q E := by
  split
  · exact hp ‹_›
  · exact hq ‹_›

/-- What the first part leaves holds at the end, if the second part keeps it where it starts. -/
theorem state_bind {p : Prog σ ε α} {f : α → Prog σ ε β} {s : σ} (hp : P (p s).2)
    (hf : ∀ a t, p s = (.ok a, t) → P t → P (f a t).2) : P ((p >>= f) s).2 := by
  rw [bind_apply]
  rcases h : p s with ⟨e | a, t⟩
  · rwa [h] at hp
  · rw [h] at hp
    exact hf a t h hp

/-- A loop with an invariant. -/
theorem Triple.forEach {f : β → Prog σ ε Unit} :
    ∀ {l : List β}, (∀ b ∈ l, Triple P (f b) (fun _ => P) E) → Triple P (forEach l f) (fun _ => P) E
  | [], _ => .pure fun _ h => h
  | b :: _, h => (h b List.mem_cons_self).bind fun _ =>
      Triple.forEach fun c hc => h c (List.mem_cons_of_mem _ hc)

/-- What a round of a loop that returned establishes, and no round undoes, holds at its end. -/
theorem forEach_established {f : β → Prog σ ε Unit} {Q : β → σ → Prop} :
    ∀ {l : List β} {s t : σ}, (∀ b ∈ l, ∀ s t, P s → f b s = (.ok (), t) →
      P t ∧ Q b t ∧ ∀ c, Q c s → Q c t) → P s → forEach l f s = (.ok (), t) →
        P t ∧ (∀ b ∈ l, Q b t) ∧ ∀ c, Q c s → Q c t
  | [], s, t, _, hs, h => by
    cases h
    exact ⟨hs, fun _ hb => (by cases hb), fun _ hc => hc⟩
  | b :: l, s, t, hf, hs, h => by
    obtain ⟨⟨⟩, s', hb, hl⟩ := bind_ok.1 h
    obtain ⟨hs', hqb, hstable⟩ := hf b List.mem_cons_self s s' hs hb
    obtain ⟨ht, hql, hrest⟩ :=
      forEach_established (fun c hc => hf c (List.mem_cons_of_mem _ hc)) hs' hl
    refine ⟨ht, fun c hc => ?_, fun c hc => hrest c (hstable c hc)⟩
    rcases List.mem_cons.1 hc with rfl | hc
    · exact hrest c hqb
    · exact hql c hc

/-- A loop with an accumulator: the invariant is about what is left to do and what was gathered. -/
theorem Triple.foldlM {f : α → β → Prog σ ε α} {I : List β → α → σ → Prop} :
    ∀ {l : List β} {a : α}, (∀ b r a, Triple (I (b :: r) a) (f a b) (I r) E) →
      Triple (I l a) (l.foldlM f a) (I []) E
  | [], a, _ => .pure fun _ h => h
  | b :: l, a, h => by
    rw [List.foldlM_cons]
    exact (h b l a).bind fun _ => Triple.foldlM h

end

end EpicWallet.Lib.Prog
