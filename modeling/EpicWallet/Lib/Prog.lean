import Mathlib.Logic.Basic
import Mathlib.Tactic.Common

/-!
# Programs with a state and two kinds of failure

`Prog σ ε α` is a program over a mutable state `σ` that returns an `α`, returns an error `ε`, or
panics. A failing program keeps the writes it made before it failed: there is no rollback, so
"what a failed call leaves behind" is a property of the pair `p s`.

* `bind_ok`, `bind_err`, `bind_panic`: what a sequence did, read from its result.
* `Keeps R p`: whatever the outcome, the state `p` leaves is related by `R` to the one it found.
  For a preorder `R` the rules are compositional (`Keeps.bind`, `Keeps.forEach`), so a frame or an
  invariant of a long program follows from those of its primitive steps.
* `Reads p`: `p` leaves its state unchanged.
* `Errless p`: `p` may panic, but returns no error.
-/

namespace EpicWallet.Lib

/-- A program fails with an error of its own or by a panic. -/
inductive Fault (ε : Type) where
  | err (e : ε)
  | panic
deriving DecidableEq, Repr

instance decEqExcept {ε α : Type} [DecidableEq ε] [DecidableEq α] : DecidableEq (Except ε α)
  | .ok a, .ok b => decidable_of_iff (a = b) ⟨congrArg _, Except.ok.inj⟩
  | .error e, .error e' => decidable_of_iff (e = e') ⟨congrArg _, Except.error.inj⟩
  | .ok _, .error _ => isFalse (fun h => nomatch h)
  | .error _, .ok _ => isFalse (fun h => nomatch h)

/-- A sequence does not panic if its first part does not, and its second part does not on what the first
returns. -/
theorem Fault.bind_ne_panic {ε α β : Type} {x : Except (Fault ε) α} {f : α → Except (Fault ε) β} :
    x >>= f ≠ .error .panic ↔ x ≠ .error .panic ∧ ∀ a, x = .ok a → f a ≠ .error .panic := by
  rcases x with (e | _) | a
  · exact ⟨fun _ => ⟨nofun, nofun⟩, fun _ => nofun⟩
  · exact ⟨fun h => absurd rfl h, fun h => absurd rfl h.1⟩
  · exact ⟨fun h => ⟨nofun, fun _ ha => Except.ok.inj ha ▸ h⟩, fun h => h.2 a rfl⟩

theorem Fault.bind_eq_ok {ε α β : Type} {x : Except ε α} {f : α → Except ε β} {b : β} :
    x >>= f = .ok b ↔ ∃ a, x = .ok a ∧ f a = .ok b := by
  rcases x with e | a
  · exact ⟨nofun, nofun⟩
  · exact ⟨fun h => ⟨a, rfl, h⟩, fun ⟨_, ha, hf⟩ => Except.ok.inj ha ▸ hf⟩

/-- A program over the state `σ`: its result and the state it leaves, failed or not. -/
def Prog (σ ε α : Type) : Type := σ → Except (Fault ε) α × σ

namespace Prog

variable {σ ε α β γ : Type}

/-- Sequencing; a failure skips the rest and keeps the state reached. -/
def andThen (p : Prog σ ε α) (f : α → Prog σ ε β) : Prog σ ε β := fun s =>
  match p s with
  | (.ok a, s') => f a s'
  | (.error e, s') => (.error e, s')

instance : Monad (Prog σ ε) where
  pure a := fun s => (.ok a, s)
  bind := andThen

/-- The state. -/
def get : Prog σ ε σ := fun s => (.ok s, s)

/-- Changes the state. -/
def modify (f : σ → σ) : Prog σ ε Unit := fun s => (.ok (), f s)

/-- Returns the error `e`. -/
def throw (e : ε) : Prog σ ε α := fun s => (.error (.err e), s)

/-- Panics. -/
def panic : Prog σ ε α := fun s => (.error .panic, s)

/-- A computation that does not touch the state. -/
def lift (x : Except (Fault ε) α) : Prog σ ε α := fun s => (x, s)

/-- A computation that fails by an error only. -/
def ofExcept (x : Except ε α) : Prog σ ε α := fun s => (x.mapError .err, s)

/-- The value of `o`; a missing one panics. -/
def unwrap (o : Option α) : Prog σ ε α := fun s =>
  match o with
  | some a => (.ok a, s)
  | none => (.error .panic, s)

/-- The result of `p`, its error included; a panic is not caught. -/
def attempt (p : Prog σ ε α) : Prog σ ε (Except ε α) := fun s =>
  match p s with
  | (.ok a, s') => (.ok (.ok a), s')
  | (.error (.err e), s') => (.ok (.error e), s')
  | (.error .panic, s') => (.error .panic, s')

/-- `p`, with any error turned into a panic. -/
def orPanic (p : Prog σ ε α) : Prog σ ε α := fun s =>
  match p s with
  | (.ok a, s') => (.ok a, s')
  | (.error _, s') => (.error .panic, s')

/-- Runs `f` on each element, left to right. -/
def forEach (l : List β) (f : β → Prog σ ε Unit) : Prog σ ε Unit :=
  match l with
  | [] => pure ()
  | b :: l => do f b; forEach l f

/-! ## Running -/

@[simp] theorem pure_apply (a : α) (s : σ) : (pure a : Prog σ ε α) s = (.ok a, s) := rfl

theorem bind_apply (p : Prog σ ε α) (f : α → Prog σ ε β) (s : σ) :
    (p >>= f) s = match p s with
      | (.ok a, s') => f a s'
      | (.error e, s') => (.error e, s') := rfl

theorem bind_of_ok {p : Prog σ ε α} {f : α → Prog σ ε β} {s s' : σ} {a : α}
    (h : p s = (.ok a, s')) : (p >>= f) s = f a s' := by
  rw [bind_apply, h]

theorem bind_of_error {p : Prog σ ε α} {f : α → Prog σ ε β} {s s' : σ} {e : Fault ε}
    (h : p s = (.error e, s')) : (p >>= f) s = (.error e, s') := by
  rw [bind_apply, h]

@[simp] theorem get_apply (s : σ) : (get : Prog σ ε σ) s = (.ok s, s) := rfl

@[simp] theorem modify_apply (f : σ → σ) (s : σ) :
    (modify f : Prog σ ε Unit) s = (.ok (), f s) := rfl

@[simp] theorem throw_apply (e : ε) (s : σ) :
    (throw e : Prog σ ε α) s = (.error (.err e), s) := rfl

@[simp] theorem panic_apply (s : σ) : (panic : Prog σ ε α) s = (.error .panic, s) := rfl

@[simp] theorem lift_apply (x : Except (Fault ε) α) (s : σ) : (lift x : Prog σ ε α) s = (x, s) :=
  rfl

@[simp] theorem ofExcept_ok (a : α) (s : σ) :
    (ofExcept (.ok a) : Prog σ ε α) s = (.ok a, s) := rfl

@[simp] theorem ofExcept_error (e : ε) (s : σ) :
    (ofExcept (.error e) : Prog σ ε α) s = (.error (.err e), s) := rfl

@[simp] theorem unwrap_some (a : α) (s : σ) :
    (unwrap (some a) : Prog σ ε α) s = (.ok a, s) := rfl

@[simp] theorem unwrap_none (s : σ) :
    (unwrap none : Prog σ ε α) s = (.error .panic, s) := rfl

theorem id_map' {α : Type} (p : Prog σ ε α) : id <$> p = p := by
  funext s
  show andThen p _ s = p s
  unfold andThen
  rcases h : p s with ⟨_ | _, _⟩ <;> rfl

theorem bind_assoc' {α β γ : Type} (p : Prog σ ε α) (f : α → Prog σ ε β) (g : β → Prog σ ε γ) :
    p >>= f >>= g = p >>= fun a => f a >>= g := by
  funext s
  show andThen (andThen p f) g s = andThen p (fun a => andThen (f a) g) s
  unfold andThen
  rcases h : p s with ⟨_ | _, _⟩ <;> rfl

instance : LawfulMonad (Prog σ ε) :=
  @LawfulMonad.mk' _ _ id_map' (fun _ _ => rfl) bind_assoc' (fun _ _ => rfl) (fun _ _ => rfl)
    (fun _ _ => rfl) (fun _ _ => rfl) fun _ _ => rfl

/-! ## Reading a result back -/

/-- A run is its result and the state it leaves. -/
theorem run_eq {p : Prog σ ε α} {s : σ} {r : Except (Fault ε) α} (h : (p s).1 = r) :
    p s = (r, (p s).2) := by
  rw [← h]

theorem bind_ok {p : Prog σ ε α} {f : α → Prog σ ε β} {s t : σ} {b : β} :
    (p >>= f) s = (.ok b, t) ↔ ∃ a s', p s = (.ok a, s') ∧ f a s' = (.ok b, t) := by
  rw [bind_apply]
  rcases h : p s with ⟨e | a, s'⟩
  · simp
  · exact ⟨fun hf => ⟨a, s', rfl, hf⟩, by rintro ⟨_, _, h', hf⟩; cases h'; exact hf⟩

theorem bind_error {p : Prog σ ε α} {f : α → Prog σ ε β} {s t : σ} {e : Fault ε} :
    (p >>= f) s = (.error e, t) ↔
      p s = (.error e, t) ∨ ∃ a s', p s = (.ok a, s') ∧ f a s' = (.error e, t) := by
  rw [bind_apply]
  rcases h : p s with ⟨e' | a, s'⟩
  · simp
  · refine ⟨fun hf => .inr ⟨a, s', rfl, hf⟩, ?_⟩
    rintro (h' | ⟨_, _, h', hf⟩)
    · cases h'
    · cases h'; exact hf

theorem ofExcept_eq_ok {x : Except ε α} {s t : σ} {a : α} :
    (ofExcept x : Prog σ ε α) s = (.ok a, t) ↔ x = .ok a ∧ t = s := by
  cases x <;> simp [eq_comm]

theorem lift_eq_ok {x : Except (Fault ε) α} {s t : σ} {a : α} :
    (lift x : Prog σ ε α) s = (.ok a, t) ↔ x = .ok a ∧ t = s := by
  simp [eq_comm]

theorem unwrap_eq_ok {o : Option α} {s t : σ} {a : α} :
    (unwrap o : Prog σ ε α) s = (.ok a, t) ↔ o = some a ∧ t = s := by
  cases o <;> simp [eq_comm]

theorem orPanic_eq_ok {p : Prog σ ε α} {s t : σ} {a : α} :
    orPanic p s = (.ok a, t) ↔ p s = (.ok a, t) := by
  unfold Prog.orPanic
  rcases p s with ⟨_ | _, _⟩ <;> simp

theorem attempt_of_ok {p : Prog σ ε α} {s s' : σ} {a : α} (h : p s = (.ok a, s')) :
    attempt p s = (.ok (.ok a), s') := by
  unfold attempt
  rw [h]

theorem attempt_of_err {p : Prog σ ε α} {s s' : σ} {e : ε} (h : p s = (.error (.err e), s')) :
    attempt p s = (.ok (.error e), s') := by
  unfold attempt
  rw [h]

theorem attempt_of_panic {p : Prog σ ε α} {s s' : σ} (h : p s = (.error .panic, s')) :
    attempt p s = (.error .panic, s') := by
  unfold attempt
  rw [h]

theorem attempt_eq_ok {p : Prog σ ε α} {s t : σ} {a : α} :
    attempt p s = (.ok (.ok a), t) ↔ p s = (.ok a, t) := by
  unfold Prog.attempt
  rcases p s with ⟨(_ | _) | _, _⟩ <;> simp

/-- A loop none of whose rounds does anything. -/
theorem forEach_of_ok {f : β → Prog σ ε Unit} {s : σ} :
    ∀ {l : List β}, (∀ b ∈ l, f b s = (.ok (), s)) → forEach l f s = (.ok (), s)
  | [], _ => rfl
  | b :: _, h => by
    unfold forEach
    rw [bind_of_ok (h b List.mem_cons_self)]
    exact forEach_of_ok fun c hc => h c (List.mem_cons_of_mem b hc)

theorem bind_ne_panic {p : Prog σ ε α} {f : α → Prog σ ε β} {s : σ} :
    ((p >>= f) s).1 ≠ .error .panic ↔
      (p s).1 ≠ .error .panic ∧ ∀ a t, p s = (.ok a, t) → (f a t).1 ≠ .error .panic := by
  rw [bind_apply]
  rcases p s with ⟨(e | _) | a, t⟩
  · exact ⟨fun _ => ⟨nofun, nofun⟩, fun _ => nofun⟩
  · exact ⟨fun h => absurd rfl h, fun h => absurd rfl h.1⟩
  · refine ⟨fun h => ⟨nofun, fun _ _ heq => ?_⟩, fun h => h.2 a t rfl⟩
    obtain ⟨ha, rfl⟩ := Prod.mk.inj heq
    exact Except.ok.inj ha ▸ h

theorem attempt_ne_panic {p : Prog σ ε α} {s : σ} :
    (attempt p s).1 ≠ .error .panic ↔ (p s).1 ≠ .error .panic := by
  unfold attempt
  rcases p s with ⟨(e | _) | a, t⟩
  · exact ⟨fun _ => nofun, fun _ => nofun⟩
  · exact ⟨fun h => absurd rfl h, fun h => absurd rfl h⟩
  · exact ⟨fun _ => nofun, fun _ => nofun⟩

/-! ## Programs that return no error -/

/-- `p` fails by a panic only. -/
def Errless (p : Prog σ ε α) : Prop := ∀ s e t, p s ≠ (.error (.err e), t)

theorem Errless.pure (a : α) : Errless (pure a : Prog σ ε α) := fun _ _ _ h => by cases h

theorem Errless.get : Errless (get : Prog σ ε σ) := fun _ _ _ h => by cases h

theorem Errless.modify (f : σ → σ) : Errless (modify f : Prog σ ε Unit) := fun _ _ _ h => by
  cases h

theorem Errless.panic : Errless (panic : Prog σ ε α) := fun _ _ _ h => by cases h

theorem Errless.unwrap (o : Option α) : Errless (unwrap o : Prog σ ε α) := fun _ _ _ h => by
  cases o <;> cases h

theorem Errless.attempt (p : Prog σ ε α) : Errless (attempt p) := fun s e t h => by
  unfold Prog.attempt at h
  rcases hp : p s with ⟨(_ | _) | _, _⟩ <;> rw [hp] at h <;> cases h

theorem Errless.orPanic (p : Prog σ ε α) : Errless (orPanic p) := fun s e t h => by
  unfold Prog.orPanic at h
  rcases hp : p s with ⟨_ | _, _⟩ <;> rw [hp] at h <;> cases h

theorem Errless.bind {p : Prog σ ε α} {f : α → Prog σ ε β} (hp : Errless p)
    (hf : ∀ a, Errless (f a)) : Errless (p >>= f) := fun s e t h => by
  rcases bind_error.1 h with h | ⟨a, s', _, h⟩
  · exact hp s e t h
  · exact hf a s' e t h

theorem Errless.ite {c : Prop} [Decidable c] {p q : Prog σ ε α} (hp : Errless p)
    (hq : Errless q) : Errless (if c then p else q) := by
  split
  · exact hp
  · exact hq

theorem Errless.forEach {f : β → Prog σ ε Unit} (hf : ∀ b, Errless (f b)) :
    ∀ l : List β, Errless (forEach l f)
  | [] => Errless.pure ()
  | b :: l => (hf b).bind fun _ => Errless.forEach hf l

theorem Errless.foldlM {f : α → β → Prog σ ε α} (hf : ∀ a b, Errless (f a b)) :
    ∀ (l : List β) (a : α), Errless (l.foldlM f a)
  | [], a => Errless.pure a
  | b :: l, a => by
    rw [List.foldlM_cons]
    exact (hf a b).bind fun a' => Errless.foldlM hf l a'

/-- What returns no error returns, or panics. -/
theorem Errless.returns_iff {p : Prog σ ε α} (hp : Errless p) {s : σ} :
    (p s).1 ≠ .error .panic ↔ ∃ a t, p s = (.ok a, t) := by
  rcases h : p s with ⟨(e | _) | a, t⟩
  · exact absurd h (hp s e t)
  · exact ⟨fun hne => absurd rfl hne, fun ⟨_, _, hok⟩ => (by cases hok)⟩
  · exact ⟨fun _ => ⟨a, t, rfl⟩, fun _ => nofun⟩

/-! ## What a program keeps -/

/-- Whatever its outcome, `p` leaves a state related by `R` to the one it found. -/
def Keeps (R : σ → σ → Prop) (p : Prog σ ε α) : Prop := ∀ s, R s (p s).2

section
variable {R : σ → σ → Prop}

theorem Keeps.mono {R' : σ → σ → Prop} {p : Prog σ ε α} (h : Keeps R p)
    (hR : ∀ s t, R s t → R' s t) : Keeps R' p := fun s => hR _ _ (h s)

theorem Keeps.rel {p : Prog σ ε α} (h : Keeps R p) {s t : σ} {r : Except (Fault ε) α}
    (hp : p s = (r, t)) : R s t := by
  have := h s
  rwa [hp] at this

theorem Keeps.modify {f : σ → σ} (h : ∀ s, R s (f s)) : Keeps R (modify f : Prog σ ε Unit) := h

theorem Keeps.attempt {p : Prog σ ε α} (h : Keeps R p) : Keeps R (attempt p) := fun s => by
  have := h s
  unfold Prog.attempt
  rcases hp : p s with ⟨(_ | _) | _, _⟩ <;> simpa [hp] using this

theorem Keeps.orPanic {p : Prog σ ε α} (h : Keeps R p) : Keeps R (orPanic p) := fun s => by
  have := h s
  unfold Prog.orPanic
  rcases hp : p s with ⟨_ | _, _⟩ <;> simpa [hp] using this

theorem Keeps.ite {c : Prop} [Decidable c] {p q : Prog σ ε α} (hp : c → Keeps R p)
    (hq : ¬c → Keeps R q) : Keeps R (if c then p else q) := by
  split
  · exact hp ‹_›
  · exact hq ‹_›

end

section
variable {R : σ → σ → Prop} [Std.Refl R]

theorem Keeps.pure (a : α) : Keeps R (pure a : Prog σ ε α) := fun s => Std.Refl.refl s

theorem Keeps.get : Keeps R (get : Prog σ ε σ) := fun s => Std.Refl.refl s

theorem Keeps.throw (e : ε) : Keeps R (throw e : Prog σ ε α) := fun s => Std.Refl.refl s

theorem Keeps.panic : Keeps R (panic : Prog σ ε α) := fun s => Std.Refl.refl s

theorem Keeps.lift (x : Except (Fault ε) α) : Keeps R (lift x : Prog σ ε α) :=
  fun s => Std.Refl.refl s

theorem Keeps.ofExcept (x : Except ε α) : Keeps R (ofExcept x : Prog σ ε α) :=
  fun s => Std.Refl.refl s

theorem Keeps.unwrap (o : Option α) : Keeps R (unwrap o : Prog σ ε α) := fun s => by
  cases o <;> exact Std.Refl.refl s

end

section
variable {R : σ → σ → Prop} [IsTrans σ R]

/-- A step whose continuation may use that the step succeeded with `a`. -/
theorem Keeps.bind_ok {p : Prog σ ε α} {f : α → Prog σ ε β} (hp : Keeps R p)
    (hf : ∀ a s s', p s = (.ok a, s') → R s' (f a s').2) : Keeps R (p >>= f) := fun s => by
  have h := hp s
  rw [bind_apply]
  rcases hs : p s with ⟨e | a, s'⟩
  · simpa [hs] using h
  · rw [hs] at h
    exact IsTrans.trans _ _ _ h (hf a s s' hs)

theorem Keeps.bind {p : Prog σ ε α} {f : α → Prog σ ε β} (hp : Keeps R p)
    (hf : ∀ a, Keeps R (f a)) : Keeps R (p >>= f) :=
  hp.bind_ok fun a _ s' _ => hf a s'

/-- The rule at one state. -/
theorem rel_bind {p : Prog σ ε α} {f : α → Prog σ ε β} {s : σ} (hp : R s (p s).2)
    (hf : ∀ a s', p s = (.ok a, s') → R s' (f a s').2) : R s ((p >>= f) s).2 := by
  rw [bind_apply]
  rcases hs : p s with ⟨e | a, s'⟩
  · simpa [hs] using hp
  · rw [hs] at hp
    exact IsTrans.trans _ _ _ hp (hf a s' hs)

end

section
variable {R : σ → σ → Prop} [Std.Refl R] [IsTrans σ R]

theorem Keeps.forEach {f : β → Prog σ ε Unit} :
    ∀ (l : List β), (∀ b ∈ l, Keeps R (f b)) → Keeps R (forEach l f)
  | [], _ => Keeps.pure ()
  | b :: l, h => (h b (by simp)).bind fun _ => Keeps.forEach l fun c hc => h c (by simp [hc])

theorem Keeps.foldlM {f : α → β → Prog σ ε α} :
    ∀ (l : List β) (a : α), (∀ a, ∀ b ∈ l, Keeps R (f a b)) → Keeps R (l.foldlM f a)
  | [], a, _ => Keeps.pure a
  | b :: l, a, h => by
    rw [List.foldlM_cons]
    exact (h a b (by simp)).bind fun a' => Keeps.foldlM l a' fun x c hc => h x c (by simp [hc])

end

/-- `p` leaves its state unchanged, whatever its outcome. -/
abbrev Reads (p : Prog σ ε α) : Prop := Keeps Eq p

theorem Reads.eq {p : Prog σ ε α} (h : Reads p) {s t : σ} {r : Except (Fault ε) α}
    (hp : p s = (r, t)) : t = s := (h.rel hp).symm

theorem Reads.keeps {R : σ → σ → Prop} [Std.Refl R] {p : Prog σ ε α} (h : Reads p) : Keeps R p :=
  h.mono fun s _ e => e ▸ Std.Refl.refl s

/-! ## Parts of the state -/

section
variable {τ δ : Type}

/-- A fault with its error among others. -/
def mapFault (f : δ → ε) : Fault δ → Fault ε
  | .err e => .err (f e)
  | .panic => .panic

/-- A program on a part of the state. -/
def within (get : σ → τ) (set : τ → σ → σ) (f : δ → ε) (p : Prog τ δ α) : Prog σ ε α := fun s =>
  ((p (get s)).1.mapError (mapFault f), set (p (get s)).2 s)

variable {get : σ → τ} {set : τ → σ → σ} {f : δ → ε} {p : Prog τ δ α} {s : σ}

theorem within_of_ok {t : τ} {a : α} (h : p (get s) = (.ok a, t)) :
    within get set f p s = (.ok a, set t s) := by
  unfold within
  rw [h]
  rfl

theorem within_of_error {t : τ} {e : Fault δ} (h : p (get s) = (.error e, t)) :
    within get set f p s = (.error (mapFault f e), set t s) := by
  unfold within
  rw [h]
  rfl

theorem within_eq_ok {s' : σ} {a : α} :
    within get set f p s = (.ok a, s') ↔ ∃ t, p (get s) = (.ok a, t) ∧ s' = set t s := by
  constructor
  · intro h
    rcases hp : p (get s) with ⟨e | b, t⟩
    · rw [within_of_error hp] at h
      cases (Prod.mk.inj h).1
    · rw [within_of_ok hp] at h
      obtain ⟨hb, hs⟩ := Prod.mk.inj h
      cases hb
      exact ⟨t, rfl, hs.symm⟩
  · rintro ⟨t, hp, rfl⟩
    exact within_of_ok hp

end

/-- Keeping an invariant, as a relation between the states before and after. -/
def Inv (I : σ → Prop) : σ → σ → Prop := fun s t => I s → I t

instance (I : σ → Prop) : Std.Refl (Inv I) := ⟨fun _ h => h⟩

instance (I : σ → Prop) : IsTrans σ (Inv I) := ⟨fun _ _ _ h h' hs => h' (h hs)⟩

end Prog

end EpicWallet.Lib
