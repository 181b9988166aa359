import EpicWallet.Lib.Triple

/-!
# Programs in sections

A program that releases the lock on its state now and then is a sequence of sections, each run from
start to end with the lock held. `Sections` is such a program, each section with a label that says
what it is about; `run` is the program with nothing in between. A `Pool` is a state with the programs
in progress on it, and a `Pool.Run` any interleaving of their sections.

`Sat A G ok c P Q` is the rule to reason about one program among others: from `P` each section does
to the state what `A` says of its label, if `ok` allows it there, and what the program knows between
two sections is kept by `G`, which covers whatever the others do. Where a section need not know what came
before it, `Each` says what all sections have in common, and `Pool.Run.of_each` what follows for every
interleaving.
-/

namespace EpicWallet.Lib

/-- A program cut into sections; what follows a section depends on what it returned. -/
inductive Sections (σ ε L α : Type) : Type 1 where
  | done (a : α)
  | sec {β : Type} (l : L) (p : Prog σ ε β) (k : β → Sections σ ε L α)

namespace Sections

variable {σ ε L α β : Type}

def andThen (c : Sections σ ε L α) (f : α → Sections σ ε L β) : Sections σ ε L β :=
  match c with
  | done a => f a
  | sec l p k => sec l p fun b => (k b).andThen f

instance : Monad (Sections σ ε L) where
  pure := done
  bind := andThen

/-- A program of one section. -/
def one (l : L) (p : Prog σ ε α) : Sections σ ε L α := sec l p done

/-- The sections one after the other, with nothing in between. -/
def run : Sections σ ε L α → Prog σ ε α
  | done a => pure a
  | sec _ p k => p >>= fun b => (k b).run

def forEach (l : List β) (f : β → Sections σ ε L Unit) : Sections σ ε L Unit :=
  match l with
  | [] => pure ()
  | b :: l => do
    f b
    forEach l f

/-! ## Running alone -/

@[simp] theorem run_pure (a : α) : (pure a : Sections σ ε L α).run = pure a := rfl

@[simp] theorem run_one (l : L) (p : Prog σ ε α) : (one l p).run = p := by
  show (p >>= fun b => pure b) = p
  exact bind_pure p

@[simp] theorem run_bind (c : Sections σ ε L α) (f : α → Sections σ ε L β) :
    (c >>= f).run = c.run >>= fun a => (f a).run := by
  induction c with
  | done a =>
    show (f a).run = (pure a : Prog σ ε α) >>= fun a => (f a).run
    rw [pure_bind]
  | sec l p k ih =>
    show (p >>= fun b => (k b >>= f).run) = (p >>= fun b => (k b).run) >>= _
    rw [bind_assoc]
    congr 1
    funext b
    exact ih b

@[simp] theorem run_ite (c : Prop) [Decidable c] (x y : Sections σ ε L α) :
    (if c then x else y).run = if c then x.run else y.run := by
  split <;> rfl

@[simp] theorem run_forEach (l : List β) (f : β → Sections σ ε L Unit) :
    (forEach l f).run = Prog.forEach l fun b => (f b).run := by
  induction l with
  | nil => rfl
  | cons b l ih =>
    show (f b >>= fun _ => forEach l f).run = (f b).run >>= fun _ => Prog.forEach l _
    rw [run_bind, ih]

@[simp] theorem run_foldlM (l : List β) (a : α) (f : α → β → Sections σ ε L α) :
    (l.foldlM f a).run = l.foldlM (fun a b => (f a b).run) a := by
  induction l generalizing a with
  | nil => rfl
  | cons b l ih =>
    rw [List.foldlM_cons, List.foldlM_cons, run_bind]
    congr 1
    funext a'
    exact ih a'

/-! ## One program among others -/

section
variable (A : L → σ → σ → Prop) (G : σ → σ → Prop) (ok : L → σ → Prop)

/-- From `P`, with steps of `G` in between, every section that is allowed does what `A` says of it,
and at the end `Q` holds. -/
def Sat : Sections σ ε L α → (σ → Prop) → (α → σ → Prop) → Prop
  | done a, P, Q => ∀ s, P s → Q a s
  | @sec _ _ _ _ β l p k, P, Q => ∃ R : β → σ → Prop, (∀ b s t, R b s → G s t → R b t) ∧
      (∀ s, P s → ok l s → A l s (p s).2) ∧
      Prog.Triple (fun s => P s ∧ ok l s) p R (fun _ => True) ∧ ∀ b, (k b).Sat (R b) Q

variable {A G ok} {P P' : σ → Prop} {c : Sections σ ε L α}

theorem Sat.mono {Q Q' : α → σ → Prop} (h : c.Sat A G ok P Q) (hP : ∀ s, P' s → P s)
    (hQ : ∀ a s, Q a s → Q' a s) : c.Sat A G ok P' Q' := by
  induction c generalizing P P' with
  | done a => exact fun s hs => hQ a s (h s (hP s hs))
  | sec l p k ih =>
    obtain ⟨R, hR, hA, hp, hk⟩ := h
    refine ⟨R, hR, fun s hs => hA s (hP s hs), ?_, fun b => ih b (hk b) fun _ h => h⟩
    exact hp.mono (fun s hs => ⟨hP s hs.1, hs.2⟩) (fun _ _ h => h) fun _ h => h

theorem Sat.pure {Q : α → σ → Prop} {a : α} (h : ∀ s, P s → Q a s) :
    (pure a : Sections σ ε L α).Sat A G ok P Q := h

theorem Sat.one {Q : α → σ → Prop} {l : L} {p : Prog σ ε α} (hQ : ∀ a s t, Q a s → G s t → Q a t)
    (hA : ∀ s, P s → ok l s → A l s (p s).2)
    (hp : Prog.Triple (fun s => P s ∧ ok l s) p Q (fun _ => True)) :
    (Sections.one l p).Sat A G ok P Q := ⟨Q, hQ, hA, hp, fun _ _ h => h⟩

theorem Sat.bind {R : α → σ → Prop} {Q : β → σ → Prop} {f : α → Sections σ ε L β}
    (hc : c.Sat A G ok P R) (hf : ∀ a, (f a).Sat A G ok (R a) Q) : (c >>= f).Sat A G ok P Q := by
  induction c generalizing P with
  | done a => exact (hf a).mono hc fun _ _ h => h
  | sec l p k ih =>
    obtain ⟨S, hS, hA, hp, hk⟩ := hc
    exact ⟨S, hS, hA, hp, fun b => ih b (hk b)⟩

theorem Sat.ite {Q : α → σ → Prop} {b : Prop} [Decidable b] {x y : Sections σ ε L α}
    (hx : b → x.Sat A G ok P Q) (hy : ¬b → y.Sat A G ok P Q) :
    (if b then x else y).Sat A G ok P Q := by
  split
  · exact hx ‹_›
  · exact hy ‹_›

theorem Sat.of_false {Q : α → σ → Prop} (h : ∀ s, ¬P s) : c.Sat A G ok P Q := by
  induction c generalizing P with
  | done a => exact fun s hs => absurd hs (h s)
  | sec l p k ih =>
    exact ⟨fun _ _ => False, fun _ _ _ h _ => h, fun s hs => absurd hs (h s),
      fun s hs => absurd hs.1 (h s), fun b => ih b fun _ h => h⟩

/-- A part of the precondition that is not about the state. -/
theorem Sat.of_and {Q : α → σ → Prop} {φ : Prop} (h : φ → c.Sat A G ok P Q) :
    c.Sat A G ok (fun s => P s ∧ φ) Q := by
  by_cases hφ : φ
  · exact (h hφ).mono (fun _ h => h.1) fun _ _ h => h
  · exact .of_false fun _ h => hφ h.2

/-- A loop with an invariant. -/
theorem Sat.forEach {f : β → Sections σ ε L Unit} :
    ∀ {l : List β}, (∀ b ∈ l, (f b).Sat A G ok P fun _ => P) →
      (forEach l f).Sat A G ok P fun _ => P
  | [], _ => .pure fun _ h => h
  | b :: _, h => (h b List.mem_cons_self).bind fun _ =>
      Sat.forEach fun c hc => h c (List.mem_cons_of_mem _ hc)

theorem Sat.foldlM {f : α → β → Sections σ ε L α} (hf : ∀ a b, (f a b).Sat A G ok P fun _ => P) :
    ∀ {l : List β} {a : α}, (l.foldlM f a).Sat A G ok P fun _ => P
  | [], _ => .pure fun _ h => h
  | b :: l, a => by
    rw [List.foldlM_cons]
    exact (hf a b).bind fun _ => Sat.foldlM hf

end

/-! ## What all sections have in common -/

/-- Every section the program may come to has `φ`. -/
def Each (φ : ∀ {β : Type}, L → Prog σ ε β → Prop) : Sections σ ε L α → Prop
  | done _ => True
  | sec l p k => φ l p ∧ ∀ b, (k b).Each φ

section
variable {φ : ∀ {β : Type}, L → Prog σ ε β → Prop}

theorem Each.pure (a : α) : (pure a : Sections σ ε L α).Each φ := trivial

theorem Each.one {l : L} {p : Prog σ ε α} (h : φ l p) : (Sections.one l p).Each φ :=
  ⟨h, fun _ => trivial⟩

theorem Each.bind {c : Sections σ ε L α} {f : α → Sections σ ε L β} (hc : c.Each φ)
    (hf : ∀ a, (f a).Each φ) : (c >>= f).Each φ := by
  induction c with
  | done a => exact hf a
  | sec l p k ih => exact ⟨hc.1, fun b => ih b (hc.2 b)⟩

theorem Each.ite {b : Prop} [Decidable b] {x y : Sections σ ε L α} (hx : b → x.Each φ)
    (hy : ¬b → y.Each φ) : (if b then x else y).Each φ := by
  split
  · exact hx ‹_›
  · exact hy ‹_›

theorem Each.forEach {f : β → Sections σ ε L Unit} (hf : ∀ b, (f b).Each φ) :
    ∀ l : List β, (Sections.forEach l f).Each φ
  | [] => .pure ()
  | b :: l => (hf b).bind fun _ => Each.forEach hf l

theorem Each.foldlM {f : α → β → Sections σ ε L α} (hf : ∀ a b, (f a b).Each φ) :
    ∀ (l : List β) (a : α), (l.foldlM f a).Each φ
  | [], a => .pure a
  | b :: l, a => by
    rw [List.foldlM_cons]
    exact (hf a b).bind fun a' => Each.foldlM hf l a'

end

end Sections

/-! ## Interleavings -/

/-- A state with the programs in progress on it. -/
structure Pool (σ ε L : Type) where
  state : σ
  progs : List (Sections σ ε L Unit)

namespace Pool

variable {σ ε L ι : Type}

/-- What is left of a program after a section: nothing if it failed. -/
def left {β : Type} (k : β → Sections σ ε L Unit) : Except (Fault ε) β → List (Sections σ ε L Unit)
  | .ok b => [k b]
  | .error _ => []

/-- One step: a program begins, or one in progress runs its next section. -/
inductive Step (prog : ι → Sections σ ε L Unit) : Pool σ ε L → Option L → Pool σ ε L → Prop
  | start {s : σ} {cs : List (Sections σ ε L Unit)} (i : ι) :
    Step prog ⟨s, cs⟩ none ⟨s, prog i :: cs⟩
  | act {s : σ} {pre post : List (Sections σ ε L Unit)} {β : Type} (l : L) (p : Prog σ ε β)
      (k : β → Sections σ ε L Unit) :
    Step prog ⟨s, pre ++ .sec l p k :: post⟩ (some l) ⟨(p s).2, pre ++ left k (p s).1 ++ post⟩

/-- The step, if it runs a section, is allowed to. -/
def Allows (ok : L → σ → Prop) (l : Option L) (s : σ) : Prop := ∀ l', l = some l' → ok l' s

/-- Any interleaving whose sections are all allowed where they start. -/
inductive Run (prog : ι → Sections σ ε L Unit) (ok : L → σ → Prop) (x : Pool σ ε L) :
    Pool σ ε L → Prop
  | refl : Run prog ok x x
  | tail {y z : Pool σ ε L} {l : Option L} (h : Run prog ok x y) (hs : Step prog y l z)
      (hok : Allows ok l y.state) : Run prog ok x z

theorem Run.trans {prog : ι → Sections σ ε L Unit} {ok : L → σ → Prop} {x y z : Pool σ ε L}
    (h : Run prog ok x y) (h' : Run prog ok y z) : Run prog ok x z := by
  induction h' with
  | refl => exact h
  | tail _ hs hok ih => exact .tail ih hs hok

/-- After any interleaving a program may begin. -/
theorem Run.start {prog : ι → Sections σ ε L Unit} {ok : L → σ → Prop} {x y : Pool σ ε L}
    (h : Run prog ok x y) (i : ι) : Run prog ok x ⟨y.state, prog i :: y.progs⟩ :=
  .tail h (.start i) fun _ hl => by cases hl

section
variable (A : L → σ → σ → Prop) (G : σ → σ → Prop) (ok : L → σ → Prop) (I : σ → Prop)

/-- The state has the invariant, and every program in progress knows enough to go on. -/
structure Sound (x : Pool σ ε L) : Prop where
  state : I x.state
  progs : ∀ c ∈ x.progs, ∃ P : σ → Prop, (∀ s t, P s → G s t → P t) ∧ P x.state ∧
    c.Sat A G ok P fun _ _ => True

variable {A G ok I} {prog : ι → Sections σ ε L Unit}

/-- One step: the section does what `A` says of it, and all programs still know enough. -/
theorem Sound.step [Std.Refl G] (hI : ∀ s t, I s → G s t → I t)
    (hA : ∀ l s t, I s → ok l s → A l s t → G s t)
    (hb : ∀ i, (prog i).Sat A G ok I fun _ _ => True) {x y : Pool σ ε L} {l : Option L}
    (hx : Sound A G ok I x) (h : Step prog x l y) (hok : Allows ok l x.state) :
    Sound A G ok I y ∧ G x.state y.state ∧ ∀ l', l = some l' → A l' x.state y.state := by
  cases h with
  | @start s cs i =>
    refine ⟨⟨hx.state, fun c' hc' => ?_⟩, Std.Refl.refl s, fun _ h => by cases h⟩
    rcases List.mem_cons.1 hc' with rfl | hc'
    · exact ⟨I, hI, hx.state, hb i⟩
    · exact hx.progs c' hc'
  | @act s pre post β l p k =>
    have hmem : Sections.sec l p k ∈ pre ++ .sec l p k :: post := by simp
    obtain ⟨P, hP, hPs, R, hR, hsec, hp, hk⟩ := hx.progs _ hmem
    have hl := hok l rfl
    have hAl := hsec s hPs hl
    have hG : G s (p s).2 := hA l s _ hx.state hl hAl
    refine ⟨⟨hI _ _ hx.state hG, fun c hc => ?_⟩, hG, fun l' h => by cases h; exact hAl⟩
    have hold : c ∈ pre ∨ c ∈ post → c ∈ pre ++ Sections.sec l p k :: post := by
      rintro (h | h) <;> simp [h]
    rcases List.mem_append.1 hc with hc | hc
    · rcases List.mem_append.1 hc with hc | hc
      · obtain ⟨P', hP', hs, hsat⟩ := hx.progs c (hold (.inl hc))
        exact ⟨P', hP', hP' _ _ hs hG, hsat⟩
      · rcases hr : p s with ⟨e | b, t⟩
        · rw [hr] at hc
          cases hc
        · rw [hr] at hc
          obtain rfl := List.mem_singleton.1 hc
          exact ⟨R b, hR b, hp.ok ⟨hPs, hl⟩ hr, hk b⟩
    · obtain ⟨P', hP', hs, hsat⟩ := hx.progs c (hold (.inr hc))
      exact ⟨P', hP', hP' _ _ hs hG, hsat⟩

/-- A whole interleaving. -/
theorem Sound.run [Std.Refl G] [IsTrans σ G] (hI : ∀ s t, I s → G s t → I t)
    (hA : ∀ l s t, I s → ok l s → A l s t → G s t)
    (hb : ∀ i, (prog i).Sat A G ok I fun _ _ => True) {x y : Pool σ ε L}
    (hx : Sound A G ok I x) (h : Run prog ok x y) : Sound A G ok I y ∧ G x.state y.state := by
  induction h with
  | refl => exact ⟨hx, Std.Refl.refl _⟩
  | tail _ hs hok ih =>
    obtain ⟨hy, hxy⟩ := ih
    obtain ⟨hz, hyz, -⟩ := hy.step hI hA hb hs hok
    exact ⟨hz, IsTrans.trans _ _ _ hxy hyz⟩

/-- A state nobody works on yet. -/
theorem Sound.new {s : σ} (h : I s) : Sound A G ok I (⟨s, []⟩ : Pool σ ε L) :=
  ⟨h, fun _ hc => by cases hc⟩

end

/-- An invariant that every section allowed to run keeps. -/
theorem Run.of_each {prog : ι → Sections σ ε L Unit} {ok : L → σ → Prop} {I : σ → Prop}
    {φ : ∀ {β : Type}, L → Prog σ ε β → Prop}
    (hφ : ∀ {β : Type} {l : L} {p : Prog σ ε β} {s : σ}, φ l p → ok l s → I s → I (p s).2)
    (hprog : ∀ i, (prog i).Each φ) {x y : Pool σ ε L} (hx : ∀ c ∈ x.progs, c.Each φ)
    (hI : I x.state) (h : Run prog ok x y) : I y.state ∧ ∀ c ∈ y.progs, c.Each φ := by
  induction h with
  | refl => exact ⟨hI, hx⟩
  | tail _ hs hok ih =>
    obtain ⟨hy, hprogs⟩ := ih
    cases hs with
    | @start s cs i =>
      refine ⟨hy, fun c hc => ?_⟩
      rcases List.mem_cons.1 hc with rfl | hc
      · exact hprog i
      · exact hprogs c hc
    | @act s pre post β l p k =>
      have hsec := hprogs (.sec l p k) (by simp)
      refine ⟨hφ hsec.1 (hok l rfl) hy, fun c hc => ?_⟩
      rcases List.mem_append.1 hc with hc | hc
      · rcases List.mem_append.1 hc with hc | hc
        · exact hprogs c (by simp [hc])
        · rcases hr : p s with ⟨e | b, t⟩
          · rw [hr] at hc
            cases hc
          · rw [hr] at hc
            obtain rfl := List.mem_singleton.1 hc
            exact hsec.2 b
      · exact hprogs c (by simp [hc])

/-! ## Schedules -/

/-- What happens next: a program begins, or one in progress goes on. -/
inductive Turn (ι : Type) where
  | start (i : ι)
  | next (n : Nat)

variable (prog : ι → Sections σ ε L Unit)

def turn : Turn ι → Pool σ ε L → Pool σ ε L
  | .start i, x => ⟨x.state, prog i :: x.progs⟩
  | .next n, x => match x.progs.drop n with
    | .sec _ p k :: post => ⟨(p x.state).2, x.progs.take n ++ left k (p x.state).1 ++ post⟩
    | _ => x

/-- The interleaving of a schedule. -/
def play (ts : List (Turn ι)) (x : Pool σ ε L) : Pool σ ε L := ts.foldl (fun x t => turn prog t x) x

/-- Whether the section of a turn is allowed. -/
def fairTurn (ok : L → σ → Bool) : Turn ι → Pool σ ε L → Bool
  | .start _, _ => true
  | .next n, x => match x.progs.drop n with
    | .sec l _ _ :: _ => ok l x.state
    | _ => true

/-- Whether all sections of a schedule are allowed. -/
def fair (ok : L → σ → Bool) : List (Turn ι) → Pool σ ε L → Bool
  | [], _ => true
  | t :: ts, x => fairTurn ok t x && fair ok ts (turn prog t x)

variable {prog}

theorem run_turn {ok : L → σ → Prop} [∀ l s, Decidable (ok l s)] {t : Turn ι} {x : Pool σ ε L}
    (h : fairTurn (fun l s => decide (ok l s)) t x = true) : Run prog ok x (turn prog t x) := by
  cases t with
  | start i => exact Run.refl.start i
  | next n =>
    unfold fairTurn at h
    unfold turn
    dsimp only at h ⊢
    rcases hd : x.progs.drop n with _ | ⟨_ | ⟨l, p, k⟩, post⟩
    · exact .refl
    · exact .refl
    · rw [hd] at h
      have hx : x = ⟨x.state, x.progs.take n ++ .sec l p k :: post⟩ := by
        rw [← hd, List.take_append_drop]
      have hs : Step prog ⟨x.state, x.progs.take n ++ .sec l p k :: post⟩ (some l)
          ⟨(p x.state).2, x.progs.take n ++ left k (p x.state).1 ++ post⟩ := .act l p k
      rw [← hx] at hs
      exact .tail .refl hs fun l' hl => by cases hl; exact of_decide_eq_true h

theorem run_play {ok : L → σ → Prop} [∀ l s, Decidable (ok l s)] :
    ∀ (ts : List (Turn ι)) (x : Pool σ ε L), fair prog (fun l s => decide (ok l s)) ts x = true →
      Run prog ok x (play prog ts x)
  | [], _, _ => .refl
  | t :: ts, x, h => by
    unfold fair at h
    rw [Bool.and_eq_true] at h
    exact (run_turn h.1).trans (run_play ts _ h.2)

end Pool

end EpicWallet.Lib
