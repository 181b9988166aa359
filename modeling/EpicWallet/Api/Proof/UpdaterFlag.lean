import EpicWallet.Api.Updater
import EpicWallet.Lib.Steps
import EpicWallet.Libwallet.Owner

/-!
# The flag of the updater

`updater_running` is set by the thread once it has the updater's lock, cleared by `stop_updater`, and
read after each update. So it goes wrong in two ways: a loop that an update leaves by an error does not
clear it, and a `stop_updater` comes too early for every thread that has yet to set it, or will begin
another update before it reads it. `Event.Sound` rules out just these (`sound_of_truthful`,
`sound_of_silent`).
-/

namespace EpicWallet

open Lib

namespace OwnerUpdater

/-- No loop is active, and no thread is about to run one. -/
def State.Idle (x : State) : Prop := x.waiting = [] ∧ x.running = none

/-- The flag is set only while a loop is active or about to run; without one, whoever asks for a
refresh gets it. -/
structure Truthful (x : State) : Prop where
  flag : x.updaterRunning = true → ¬x.Idle
  served : x.Idle → ∀ refreshFromNode, refreshes x refreshFromNode = refreshFromNode

/-- No further update begins: what is left of the loop reads the cleared flag first. -/
structure Silent (x : State) : Prop where
  flag : x.updaterRunning = false
  waiting : x.waiting = []
  running : ∀ p ∈ x.running, p.2 = .updating ∨ p.2 = .updated

/-- The event comes where it does no harm: `stop_updater` while every thread started is at its update,
and an error while the flag is cleared or another thread waits to run. -/
def Event.Sound : Event → State → Prop
  | .stopUpdater, x => x.waiting = [] ∧ ∀ p ∈ x.running, p.2 = .updating ∨ p.2 = .updated
  | .endUpdate (.error _), x => x.updaterRunning = false ∨ x.waiting ≠ []
  | _, _ => True

instance : (e : Event) → (x : State) → Decidable (e.Sound x)
  | .stopUpdater, x =>
    inferInstanceAs (Decidable (x.waiting = [] ∧ ∀ p ∈ x.running, p.2 = .updating ∨ p.2 = .updated))
  | .endUpdate (.error _), x => inferInstanceAs (Decidable (x.updaterRunning = false ∨ x.waiting ≠ []))
  | .endUpdate (.ok _), _ | .startUpdater _, _ | .lock _, _ | .setRunning, _ | .beginUpdate, _
  | .readRunning, _ | .wake, _ => .isTrue trivial

theorem truthful_iff {x : State} : Truthful x ↔ (x.updaterRunning = true → ¬x.Idle) := by
  refine ⟨Truthful.flag, fun h => ⟨h, fun hidle r => ?_⟩⟩
  unfold refreshes
  rcases hf : x.updaterRunning with _ | _
  · rfl
  · exact absurd hidle (h hf)

theorem truthful_of_running {x : State} (h : x.running.isSome = true) : Truthful x :=
  truthful_iff.2 fun _ hidle => by
    rw [hidle.2] at h
    cases h

theorem truthful_of_cleared {x : State} (h : x.updaterRunning = false) : Truthful x :=
  truthful_iff.2 fun hf => by
    rw [h] at hf
    cases hf

/-! ## One event -/

/-- What an event does, where it can happen. -/
inductive Moves : State → Event → State → Prop
  | startUpdater {x : State} {l : Launch} :
      Moves x (.startUpdater l) { x with waiting := x.waiting ++ [l] }
  | stopUpdater {x : State} : Moves x .stopUpdater { x with updaterRunning := false }
  | lock {f : Bool} {ls : List Launch} {i : Nat} {l : Launch} (hl : ls[i]? = some l) :
      Moves ⟨f, ls, none⟩ (.lock i) ⟨f, ls.eraseIdx i, some (l, .locked)⟩
  | setRunning {f : Bool} {ls : List Launch} {l : Launch} :
      Moves ⟨f, ls, some (l, .locked)⟩ .setRunning ⟨true, ls, some (l, .top)⟩
  | beginUpdate {f : Bool} {ls : List Launch} {l : Launch} :
      Moves ⟨f, ls, some (l, .top)⟩ .beginUpdate ⟨f, ls, some (l, .updating)⟩
  | updated {f b : Bool} {ls : List Launch} {l : Launch} :
      Moves ⟨f, ls, some (l, .updating)⟩ (.endUpdate (.ok b)) ⟨f, ls, some (l, .updated)⟩
  | left {f : Bool} {ls : List Launch} {l : Launch} {e : Fault Error} :
      Moves ⟨f, ls, some (l, .updating)⟩ (.endUpdate (.error e)) ⟨f, ls, none⟩
  | readRunning {f : Bool} {ls : List Launch} {l : Launch} :
      Moves ⟨f, ls, some (l, .updated)⟩ .readRunning
        ⟨f, ls, if f then some (l, .sleeping) else none⟩
  | wake {f : Bool} {ls : List Launch} {l : Launch} :
      Moves ⟨f, ls, some (l, .sleeping)⟩ .wake ⟨f, ls, some (l, .top)⟩

theorem step_moves {x y : State} {e : Event} (h : step x e = some y) : Moves x e y := by
  obtain ⟨f, ls, running⟩ := x
  cases e with
  | startUpdater l =>
    cases h
    exact .startUpdater
  | stopUpdater =>
    cases h
    exact .stopUpdater
  | lock i =>
    simp only [step] at h
    split at h
    · next hl =>
      cases h
      exact .lock hl
    · cases h
  | setRunning =>
    simp only [step] at h
    split at h
    · cases h
      exact .setRunning
    · cases h
  | beginUpdate =>
    simp only [step] at h
    split at h
    · cases h
      exact .beginUpdate
    · cases h
  | endUpdate r =>
    simp only [step] at h
    split at h
    · cases h
      exact .updated
    · cases h
      exact .left
    · cases h
  | readRunning =>
    simp only [step] at h
    split at h
    · cases h
      exact .readRunning
    · cases h
  | wake =>
    simp only [step] at h
    split at h
    · cases h
      exact .wake
    · cases h

/-- A sound event leaves the flag truthful. -/
theorem truthful_of_sound {x y : State} {e : Event} (hs : e.Sound x) (h : step x e = some y) :
    Truthful y := by
  cases step_moves h with
  | startUpdater =>
    exact truthful_iff.2 fun _ hidle => List.append_ne_nil_of_right_ne_nil _ (by simp) hidle.1
  | stopUpdater => exact truthful_of_cleared rfl
  | lock | setRunning | beginUpdate | updated | wake => exact truthful_of_running rfl
  | left =>
    rcases hs with hf | hw
    · exact truthful_of_cleared hf
    · exact truthful_iff.2 fun _ hidle => hw hidle.1
  | @readRunning f =>
    cases f with
    | true => exact truthful_of_running rfl
    | false => exact truthful_of_cleared rfl

/-- Without a start, nothing ends the silence. -/
theorem silent_step {x y : State} {e : Event} (he : ∀ l, e ≠ .startUpdater l) (hx : Silent x)
    (h : step x e = some y) : Silent y := by
  obtain ⟨hf, hw, hr⟩ := hx
  cases step_moves h with
  | startUpdater => exact absurd rfl (he _)
  | stopUpdater => exact ⟨rfl, hw, hr⟩
  | lock hl =>
    cases hw
    cases hl
  | setRunning | beginUpdate | wake => rcases hr _ rfl with hp | hp <;> cases hp
  | updated => exact ⟨hf, hw, fun p hp => by cases hp; exact .inr rfl⟩
  | left => exact ⟨hf, hw, fun p hp => by cases hp⟩
  | readRunning =>
    cases hf
    exact ⟨rfl, hw, fun p hp => by cases hp⟩

/-- In silence no update begins. -/
theorem beginUpdate_of_silent {x : State} (h : Silent x) : step x .beginUpdate = none := by
  rcases hstep : step x .beginUpdate with _ | y
  · rfl
  · cases step_moves hstep with
    | beginUpdate => rcases h.running _ rfl with hp | hp <;> cases hp

/-! ## The condition is exact -/

/-- An error that leaves the flag truthful was sound. -/
theorem sound_of_truthful {x y : State} {f : Fault Error} (h : step x (.endUpdate (.error f)) = some y)
    (hy : Truthful y) : (Event.endUpdate (.error f)).Sound x := by
  cases step_moves h with
  | left =>
    by_contra hn
    obtain ⟨hf, hw⟩ := not_or.1 hn
    exact hy.flag (by simpa using hf) ⟨not_not.1 hw, rfl⟩

/-- Some events without a start lead to an update. -/
def MayUpdate (x : State) : Prop :=
  ∃ es y, Steps.run step es x = some y ∧ (∀ l, Event.startUpdater l ∉ es) ∧ Event.beginUpdate ∈ es

theorem MayUpdate.step {x y : State} {e : Event} (he : ∀ l, e ≠ .startUpdater l)
    (h : step x e = some y) (hy : MayUpdate y) : MayUpdate x := by
  obtain ⟨es, z, hrun, hns, hb⟩ := hy
  refine ⟨e :: es, z, Steps.run_cons.2 ⟨y, h, hrun⟩, fun l hl => ?_, List.mem_cons_of_mem _ hb⟩
  rcases List.mem_cons.1 hl with hl | hl
  · exact he l hl.symm
  · exact hns l hl

theorem mayUpdate_top {x : State} {l : Launch} (h : x.running = some (l, .top)) : MayUpdate x := by
  have hstep : OwnerUpdater.step x .beginUpdate = some { x with running := some (l, .updating) } := by
    simp only [OwnerUpdater.step, h]
  refine ⟨[.beginUpdate], { x with running := some (l, .updating) }, ?_, fun _ hl => ?_,
    List.mem_singleton.2 rfl⟩
  · exact Steps.run_cons.2 ⟨_, hstep, rfl⟩
  · cases List.mem_singleton.1 hl

theorem mayUpdate_locked {x : State} {l : Launch} (h : x.running = some (l, .locked)) : MayUpdate x := by
  have htop : MayUpdate { x with updaterRunning := true, running := some (l, .top) } := mayUpdate_top rfl
  refine htop.step (e := .setRunning) (fun _ he => by cases he) ?_
  simp only [OwnerUpdater.step, h]

theorem mayUpdate_waiting {x : State} {l : Launch} {ls : List Launch} (h : x.running = none)
    (hw : x.waiting = l :: ls) : MayUpdate x := by
  have hlocked : MayUpdate { x with waiting := x.waiting.eraseIdx 0, running := some (l, .locked) } :=
    mayUpdate_locked rfl
  refine hlocked.step (e := .lock 0) (fun _ he => by cases he) ?_
  simp only [OwnerUpdater.step, h, hw, List.getElem?_cons_zero]

/-- With the flag cleared the loop ends after its update, and the next thread runs. -/
theorem mayUpdate_updated {x : State} {l l' : Launch} {ls : List Launch} (hf : x.updaterRunning = false)
    (hr : x.running = some (l, .updated)) (hw : x.waiting = l' :: ls) : MayUpdate x := by
  have hnext : MayUpdate { x with running := none } := mayUpdate_waiting rfl hw
  refine hnext.step (e := .readRunning) (fun _ he => by cases he) ?_
  simp only [OwnerUpdater.step, hr, hf]
  rfl

/-- A stop after which no update begins was sound. -/
theorem sound_of_silent {x y : State} (h : step x .stopUpdater = some y) (hy : ¬MayUpdate y) :
    Event.stopUpdater.Sound x := by
  cases h
  obtain ⟨flag, waiting, running⟩ := x
  rcases running with _ | ⟨l, phase⟩
  · rcases waiting with _ | ⟨l', ls⟩
    · exact ⟨rfl, fun p hp => by cases hp⟩
    · exact absurd (mayUpdate_waiting rfl rfl) hy
  cases phase with
  | locked => exact absurd (mayUpdate_locked rfl) hy
  | top => exact absurd (mayUpdate_top rfl) hy
  | sleeping =>
    have htop : MayUpdate ⟨false, waiting, some (l, .top)⟩ := mayUpdate_top rfl
    exact absurd (htop.step (e := .wake) (fun _ he => by cases he) rfl) hy
  | updating =>
    rcases waiting with _ | ⟨l', ls⟩
    · exact ⟨rfl, fun p hp => by cases hp; exact .inl rfl⟩
    · have hupdated : MayUpdate ⟨false, l' :: ls, some (l, .updated)⟩ := mayUpdate_updated rfl rfl rfl
      exact absurd (hupdated.step (e := .endUpdate (.ok true)) (fun _ he => by cases he) rfl) hy
  | updated =>
    rcases waiting with _ | ⟨l', ls⟩
    · exact ⟨rfl, fun p hp => by cases hp; exact .inr rfl⟩
    · exact absurd (mayUpdate_updated rfl rfl rfl) hy

/-! ## Runs -/

/-- In every run of sound events the flag is truthful, and after a stop with no start after it no
update begins. -/
theorem truthful_of_run {es : List Event} {x : State} (hrun : Steps.run step es new = some x)
    (hok : Steps.Allowed step Event.Sound es new) :
    Truthful x ∧ ∀ pre post, es = pre ++ .stopUpdater :: post → (∀ l, .startUpdater l ∉ post) →
      .beginUpdate ∉ post := by
  constructor
  · exact Steps.run_inv (fun _ _ _ hs _ h => truthful_of_sound hs h) hok (truthful_of_cleared rfl) hrun
  · rintro pre post rfl hns
    obtain ⟨y, hpre, hstop⟩ := Steps.run_append.1 hrun
    obtain ⟨z, hz, hpost⟩ := Steps.run_cons.1 hstop
    obtain ⟨-, hsound⟩ := Steps.allowed_append hok hpre
    have hsilent : Silent z := by
      cases hz
      exact ⟨rfl, hsound.1.1, hsound.1.2⟩
    have hstartless : Steps.Allowed step (fun e _ => ∀ l, e ≠ .startUpdater l) post z :=
      Steps.allowed_of_forall fun e he _ l h => hns l (h ▸ he)
    refine Steps.not_mem_of_run (I := Silent) ?_ (fun _ hx => beginUpdate_of_silent hx) hstartless
      hsilent hpost
    exact fun _ _ _ he hx h => silent_step he hx h

/-- An updater is started, stopped in its second update, and ends after it. -/
def startedAndStopped : List Event :=
  [.startUpdater ⟨none, 60⟩, .lock 0, .setRunning, .beginUpdate, .endUpdate (.ok true), .readRunning,
    .wake, .beginUpdate, .stopUpdater, .endUpdate (.ok true), .readRunning]

theorem truthful_of_startedAndStopped : Truthful new ∧ ∀ pre post,
    startedAndStopped = pre ++ .stopUpdater :: post → (∀ l, .startUpdater l ∉ post) →
      .beginUpdate ∉ post :=
  truthful_of_run rfl (by decide)

/-- An update that asks for the wallet with the wrong mask ends the loop and leaves the flag set: no
refresh is served. And a stop that comes before the thread has the lock stops nothing. -/
theorem flag_untruthful :
    (∃ f x, (Owner.updateWalletState World.small (some ⟨1⟩) World.funded).1 = .error f ∧
      Steps.run step [.startUpdater ⟨some ⟨1⟩, 60⟩, .lock 0, .setRunning, .beginUpdate,
        .endUpdate (.error f)] new = some x ∧
      x.updaterRunning = true ∧ x.Idle ∧ refreshes x true = false) ∧
    ∃ x, Steps.run step ([.startUpdater ⟨none, 60⟩] ++ .stopUpdater :: [.lock 0, .setRunning,
        .beginUpdate]) new = some x :=
  ⟨⟨.err .invalidKeychainMask, ⟨true, [], none⟩, by decide +kernel, rfl, rfl, ⟨rfl, rfl⟩, rfl⟩,
    ⟨⟨true, [], some (⟨none, 60⟩, .updating)⟩, rfl⟩⟩

end OwnerUpdater

end EpicWallet
