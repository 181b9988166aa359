import EpicWallet.Lib.Triple

/-!
# Loops one of whose rounds is seen

A view shows part of the state. A step is `Unseen` if it leaves that part alone whenever it returns, and
`Turns` the part by a relation otherwise. A loop that has one round that is seen turns the part as that
round does (`forEach_seen`, `foldlM_seen`), and a loop without one leaves it alone (`forEach_unseen`,
`foldlM_unseen`).
-/

namespace EpicWallet.Lib.Prog

variable {σ ε α β γ : Type}

/-- A step that returns does not change what is seen through `view`. -/
def Unseen (view : σ → γ) (p : Prog σ ε α) : Prop :=
  ∀ s a t, p s = (.ok a, t) → view t = view s

/-- What a step that returns makes of what is seen through `view`. -/
def Turns (view : σ → γ) (R : γ → γ → Prop) (p : Prog σ ε α) : Prop :=
  ∀ s a t, p s = (.ok a, t) → R (view s) (view t)

section
variable {view : σ → γ}

theorem Unseen.of_keeps {p : Prog σ ε α} (h : Keeps (fun s t => view t = view s) p) :
    Unseen view p := fun _ _ _ hrun => h.rel hrun

theorem Unseen.pure (a : α) : Unseen view (pure a : Prog σ ε α) := fun _ _ _ h => by
  cases h
  rfl

theorem Unseen.bind {p : Prog σ ε α} {f : α → Prog σ ε β} (hp : Unseen view p)
    (hf : ∀ a, Unseen view (f a)) : Unseen view (p >>= f) := by
  intro s b t h
  obtain ⟨a, s', ha, hb⟩ := bind_ok.1 h
  exact (hf a s' b t hb).trans (hp s a s' ha)

theorem Unseen.turns {p : Prog σ ε α} (h : Unseen view p) : Turns view (fun c c' => c' = c) p := h

theorem Turns.mono {R R' : γ → γ → Prop} {p : Prog σ ε α} (h : Turns view R p)
    (hR : ∀ c c', R c c' → R' c c') : Turns view R' p := fun s a t hrun => hR _ _ (h s a t hrun)

/-- A step that is not seen before one that is. -/
theorem Turns.after {R : γ → γ → Prop} {p : Prog σ ε α} {f : α → Prog σ ε β} (hp : Unseen view p)
    (hf : ∀ a, Turns view R (f a)) : Turns view R (p >>= f) := by
  intro s b t h
  obtain ⟨a, s', ha, hb⟩ := bind_ok.1 h
  rw [← hp s a s' ha]
  exact hf a s' b t hb

/-- A step that is not seen after one that is. -/
theorem Turns.before {R : γ → γ → Prop} {p : Prog σ ε α} {f : α → Prog σ ε β} (hp : Turns view R p)
    (hf : ∀ a, Unseen view (f a)) : Turns view R (p >>= f) := by
  intro s b t h
  obtain ⟨a, s', ha, hb⟩ := bind_ok.1 h
  rw [hf a s' b t hb]
  exact hp s a s' ha

/-- Two steps one after the other. -/
theorem Turns.bind {R : γ → γ → Prop} (hR : ∀ x y z, R x y → R y z → R x z) {p : Prog σ ε α}
    {f : α → Prog σ ε β} (hp : Turns view R p) (hf : ∀ a, Turns view R (f a)) :
    Turns view R (p >>= f) := by
  intro s b t h
  obtain ⟨a, s', ha, hb⟩ := bind_ok.1 h
  exact hR _ _ _ (hp s a s' ha) (hf a s' b t hb)

/-- A step that is tried and has no errors. -/
theorem Turns.attempt {R : γ → γ → Prop} {p : Prog σ ε α} (hp : Turns view R p) (he : Errless p) :
    Turns view R (attempt p) := by
  intro s r t hrun
  rcases h : p s with ⟨(e | _) | a, u⟩
  · exact absurd h (he s e u)
  · rw [attempt_of_panic h] at hrun
    cases hrun
  · rw [attempt_of_ok h] at hrun
    cases hrun
    exact hp s a t h

theorem Unseen.attempt {p : Prog σ ε α} (hp : Unseen view p) (he : Errless p) :
    Unseen view (attempt p) := hp.turns.attempt he

end

section
variable {view : σ → γ}

theorem forEach_unseen {f : β → Prog σ ε Unit} :
    ∀ {l : List β}, (∀ b ∈ l, Unseen view (f b)) → Unseen view (forEach l f)
  | [], _ => .pure ()
  | b :: _, hl => (hl b List.mem_cons_self).bind fun _ =>
      forEach_unseen fun c hc => hl c (List.mem_cons_of_mem b hc)

/-- The one round that is seen; it may come more than once. -/
theorem forEach_seen {f : β → Prog σ ε Unit} {b : β} {R : γ → γ → Prop}
    (hR : ∀ x y z, R x y → R y z → R x z) (hb : Turns view R (f b)) :
    ∀ {l : List β}, (∀ c ∈ l, c = b ∨ Unseen view (f c)) → b ∈ l → Turns view R (forEach l f)
  | c :: l, hl, hmem => by
    have hrest : ∀ d ∈ l, d = b ∨ Unseen view (f d) := fun d hd => hl d (List.mem_cons_of_mem c hd)
    by_cases hagain : b ∈ l
    · rcases hl c List.mem_cons_self with rfl | hc
      · exact hb.bind hR fun _ => forEach_seen hR hb hrest hagain
      · exact .after hc fun _ => forEach_seen hR hb hrest hagain
    · obtain rfl := (List.mem_cons.1 hmem).resolve_right hagain
      exact hb.before fun _ => forEach_unseen fun d hd =>
        (hrest d hd).resolve_left fun heq => hagain (heq ▸ hd)

theorem foldlM_unseen {f : α → β → Prog σ ε α} :
    ∀ {l : List β} (a : α), (∀ b ∈ l, ∀ a, Unseen view (f a b)) → Unseen view (l.foldlM f a)
  | [], a, _ => .pure a
  | b :: l, a, hl => by
    rw [List.foldlM_cons]
    exact (hl b List.mem_cons_self a).bind fun a' =>
      foldlM_unseen a' fun c hc => hl c (List.mem_cons_of_mem b hc)

theorem foldlM_seen {f : α → β → Prog σ ε α} {b : β} {R : γ → γ → Prop}
    (hR : ∀ x y z, R x y → R y z → R x z) (hb : ∀ a, Turns view R (f a b)) :
    ∀ {l : List β} (a : α), (∀ c ∈ l, c = b ∨ ∀ a, Unseen view (f a c)) → b ∈ l →
      Turns view R (l.foldlM f a)
  | c :: l, a, hl, hmem => by
    have hrest : ∀ d ∈ l, d = b ∨ ∀ a, Unseen view (f a d) := fun d hd =>
      hl d (List.mem_cons_of_mem c hd)
    have haside : b ∉ l → ∀ a, Unseen view (l.foldlM f a) := fun hnot a =>
      foldlM_unseen a fun d hd => (hrest d hd).resolve_left fun heq => hnot (heq ▸ hd)
    rw [List.foldlM_cons]
    by_cases hagain : b ∈ l
    · rcases hl c List.mem_cons_self with rfl | hc
      · exact (hb a).bind hR fun a' => foldlM_seen hR hb a' hrest hagain
      · exact .after (hc a) fun a' => foldlM_seen hR hb a' hrest hagain
    · obtain rfl := (List.mem_cons.1 hmem).resolve_right hagain
      exact (hb a).before (haside hagain)

end

end EpicWallet.Lib.Prog
