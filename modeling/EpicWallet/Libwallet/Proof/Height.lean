import EpicWallet.Lib.Triple
import EpicWallet.Libwallet.Proof.Touches

/-!
# The height an account was refreshed at

`apply_api_outputs` refuses a node that is behind what it saw before: "If the server height is less
than our confirmed height, don't apply these changes as the chain is syncing, incorrect or forking".
The height it compares is that of the active account, the height it saves that of the account
refreshed.

* `Refresh.Guarded`: the comparison is about the right account, or makes no difference.
* `Refresh.heights_of_run`: in a run of guarded refreshes no height goes down, and no account is
  updated from a node behind it.
* `Refresh.height_goes_down`: a refresh that is not guarded takes the height of an account back.
-/

namespace EpicWallet

open Lib WalletBackend

/-- The height recorded for an account. -/
def confirmedHeight (w : Wallet) (p : Identifier) : Nat := numericOf w.db (.confirmedHeight p)

/-- At most the height of account `p` differs, and then it is `h`. -/
def SetsHeight (p : Identifier) (h : Nat) (w w' : Wallet) : Prop :=
  ∀ q, confirmedHeight w' q = confirmedHeight w q ∨ q = p ∧ confirmedHeight w' q = h

instance {p : Identifier} {h : Nat} : Std.Refl (SetsHeight p h) := ⟨fun _ _ => .inl rfl⟩

instance {p : Identifier} {h : Nat} : IsTrans Wallet (SetsHeight p h) where
  trans _ _ _ h₁ h₂ q := by
    rcases h₂ q with h₂ | h₂
    · rw [h₂]
      exact h₁ q
    · exact .inr h₂

/-- The kinds of rows other than heights. -/
def notHeightRows : List RowKind :=
  [.output, .history, .deriv, .context, .entry, .logId, .account, .scanned, .status]

theorem confirmedHeight_of_touches {w w' : Wallet} (h : Touches notHeightRows w w') (q : Identifier) :
    confirmedHeight w' q = confirmedHeight w q := by
  unfold confirmedHeight numericOf
  rw [h.get (by simp [Key.kind, notHeightRows])]

theorem setsHeight_of_touches {p : Identifier} {h : Nat} {w w' : Wallet}
    (ht : Touches notHeightRows w w') : SetsHeight p h w w' :=
  fun q => .inl (confirmedHeight_of_touches ht q)

theorem setsHeight_frees (p : Identifier) (h : Nat) : Frees (SetsHeight p h) notHeightRows where
  aside _ _ ha := setsHeight_of_touches ((touches_frees _).aside _ _ ha)
  files _ _ := setsHeight_of_touches ((touches_frees _).files _ _)
  puts k hk v hv _ := setsHeight_of_touches ((touches_frees _).puts k hk v hv _)
  erases k hk _ := setsHeight_of_touches ((touches_frees _).erases k hk _)

theorem saveLastConfirmedHeight_sets (p : Identifier) (h : Nat) :
    Prog.Keeps (SetsHeight p h) (Batch.saveLastConfirmedHeight p h) := fun w q => by
  unfold Batch.saveLastConfirmedHeight put
  split
  · unfold confirmedHeight numericOf
    dsimp only
    rw [Rows.get_put]
    by_cases hq : q = p
    · subst hq
      exact .inr ⟨rfl, by rw [if_pos rfl]⟩
    · left
      rw [if_neg (by simpa using hq)]
  · exact .inl rfl

namespace Updater

variable (W : World)

/-- A node behind the height of the active account is not applied. -/
theorem applyApiOutputs_behind {mask : Option SecretKey}
    {outputs : Rows Commitment (Identifier × Option Nat)}
    {api : List (Commitment × String × Nat × Nat)} {height : Nat} {p : Identifier} {w : Wallet}
    (h : height < confirmedHeight w w.parentKeyId) :
    applyApiOutputs W mask outputs api height p w = (.ok (), w) := by
  have hlast : lastConfirmedHeight w = (.ok (confirmedHeight w w.parentKeyId), w) := rfl
  unfold applyApiOutputs
  rw [Prog.bind_of_ok hlast, if_pos h]
  rfl

theorem applyApiOutputs_sets (mask : Option SecretKey)
    (outputs : Rows Commitment (Identifier × Option Nat))
    (api : List (Commitment × String × Nat × Nat)) (height : Nat) (p : Identifier) :
    Prog.Keeps (SetsHeight p height) (applyApiOutputs W mask outputs api height p) := by
  have hF := setsHeight_frees p height
  refine lastConfirmedHeight_reads.keeps.bind fun _ => .ite (fun _ => .pure _) fun _ => ?_
  refine (batch_reads W mask).keeps.bind fun _ => hF.nextTick.bind fun _ => ?_
  refine Prog.Keeps.bind (Prog.Keeps.forEach _ fun _ _ => applyApiOutput_keeps hF W (by decide)
    (by decide) (by decide) (by decide) _ _ _ _) fun _ => ?_
  exact (saveLastConfirmedHeight_sets p height).bind fun _ => .pure _

end Updater

/-! ## One refresh -/

/-- An answer of the world: the next one, and one more is counted. -/
theorem ask_triple {α : Type} (f : Nat → Except Error α) (w : Wallet) :
    Prog.Triple (fun w' => w' = w) (do let t ← nextTick; Prog.ofExcept (f t))
      (fun a w' => w' = { w with tick := w.tick + 1 } ∧ f w.tick = .ok a)
      (fun w' => w' = { w with tick := w.tick + 1 }) := by
  rintro w' rfl
  rw [Prog.bind_of_ok (nextTick_apply w')]
  rcases h : f w'.tick with e | a
  · rfl
  · exact ⟨rfl, rfl⟩

/-- A step of a run of refreshes: `refresh_outputs` of an account, or another account activated. -/
inductive Refresh where
  | refreshOutputs (mask : Option SecretKey) (parentKeyId : Identifier)
  | setActiveAccount (label : String)
deriving DecidableEq

namespace Refresh

variable (W : World)

def prog : Refresh → WalletM Unit
  | refreshOutputs mask parentKeyId => Updater.refreshOutputs W mask parentKeyId
  | setActiveAccount label => Owner.setActiveAccount label

def run (r : Refresh) (w : Wallet) : Wallet := (r.prog W w).2

/-- The tip the node reports to a refresh that starts in `w`: the second answer it takes. -/
def tip (w : Wallet) : Option Nat :=
  match W.chainTip (w.tick + 1) with
  | .ok t => some t.1
  | .error _ => none

/-- The node is not behind the account refreshed, or it is behind the active one too. -/
def Guarded : Refresh → Wallet → Prop
  | refreshOutputs _ p, w => ∀ h ∈ tip W w,
    confirmedHeight w p ≤ h ∨ h < confirmedHeight w w.parentKeyId
  | setActiveAccount _, _ => True

/-- What the step must not do: take a height back, or update an account from a node behind it. -/
structure Sound (r : Refresh) (w : Wallet) : Prop where
  height : ∀ p, confirmedHeight w p ≤ confirmedHeight (r.run W w) p
  apply : ∀ mask p, r = .refreshOutputs mask p → ∀ h ∈ tip W w, h < confirmedHeight w p →
    ∀ outputs api w', w'.db = w.db → w'.parentKeyId = w.parentKeyId →
      Updater.applyApiOutputs W mask outputs api h p w' = (.ok (), w')

variable {W}

/-- The refresh of the active account is guarded. -/
theorem guarded_active (mask : Option SecretKey) (w : Wallet) :
    Guarded W (.refreshOutputs mask w.parentKeyId) w := fun h _ => (Nat.lt_or_ge h _).symm

/-- A refresh leaves the heights alone, or sets that of the account refreshed to the node's tip, which
is then not below the height of the active account. -/
theorem refreshOutputs_heights (mask : Option SecretKey) (p : Identifier) (w : Wallet) :
    (∀ q, confirmedHeight (Updater.refreshOutputs W mask p w).2 q = confirmedHeight w q) ∨
      ∃ h ∈ tip W w, confirmedHeight w w.parentKeyId ≤ h ∧
        SetsHeight p h w (Updater.refreshOutputs W mask p w).2 := by
  have hsame : ∀ {w' : Wallet}, w'.db = w.db → ∀ q, confirmedHeight w' q = confirmedHeight w q := by
    intro w' hw q
    unfold confirmedHeight
    rw [hw]
  suffices h : Prog.Triple (fun w' => w' = w) (Updater.refreshOutputs W mask p)
      (fun _ w' => (∀ q, confirmedHeight w' q = confirmedHeight w q) ∨
        ∃ h ∈ tip W w, confirmedHeight w w.parentKeyId ≤ h ∧ SetsHeight p h w w')
      (fun w' => (∀ q, confirmedHeight w' q = confirmedHeight w q) ∨
        ∃ h ∈ tip W w, confirmedHeight w w.parentKeyId ≤ h ∧ SetsHeight p h w w') from
    h.state (fun _ _ h => h) (fun _ h => h) rfl
  refine Prog.Triple.bind (((ask_triple W.nodeStatus w)).mono (fun _ h => h) (fun _ _ h => h.1)
    fun w' h => .inl (hsame (h ▸ rfl))) fun status => ?_
  refine .ite (fun _ => .throw fun w' h => .inl (hsame (h ▸ rfl))) fun _ => ?_
  refine Prog.Triple.bind ((ask_triple W.chainTip _).mono (fun _ h => h) (fun _ _ h => h)
    fun w' h => .inl (hsame (h ▸ rfl))) fun node => .of_and fun hnode => ?_
  have hmem : node.1 ∈ tip W w := by
    unfold tip
    rw [hnode]
    rfl
  refine Prog.Triple.bind ((Updater.mapWalletOutputs_reads W mask p).triple (fun _ _ h _ => h)
    fun w' h => .inl (hsame (h ▸ rfl))) fun outputs => ?_
  refine Prog.Triple.bind (R := fun _ w' => w'.db = w.db ∧ w'.parentKeyId = w.parentKeyId)
    (nextTick_aside.triple (fun _ _ _ h ha => by rw [ha, h]; exact ⟨rfl, rfl⟩) fun _ _ h ha =>
      .inl (hsame (by rw [ha.db, h]))) fun t => ?_
  refine Prog.Triple.bind (R := fun _ w' => w'.db = w.db ∧ w'.parentKeyId = w.parentKeyId)
    ((show Prog.Reads (Prog.ofExcept _) from .ofExcept _).triple (fun _ _ h _ => h) fun _ h =>
      .inl (hsame h.1)) fun api => ?_
  have hclean := Updater.cleanOldUnconfirmed_keeps (touches_frees notHeightRows) W (by decide)
    (by decide) mask node.1
  rintro w₁ ⟨hdb, hpar⟩
  suffices hs : Prog.Triple (fun w' => w' = w₁) _ (fun _ w' => _) (fun w' => _) from hs w₁ rfl
  have hheight : confirmedHeight w₁ w₁.parentKeyId = confirmedHeight w w.parentKeyId := by
    rw [hpar]
    exact hsame hdb _
  by_cases hlt : node.1 < confirmedHeight w w.parentKeyId
  · refine Prog.Triple.bind (R := fun _ w' => w' = w₁) ?_ fun _ => ?_
    · rintro w' rfl
      rw [Updater.applyApiOutputs_behind W (hheight ▸ hlt)]
    · refine hclean.triple (fun w' w'' _ h ht => .inl fun q => ?_) fun w' w'' h ht => .inl fun q => ?_
      · rw [confirmedHeight_of_touches ht, h, hsame hdb]
      · rw [confirmedHeight_of_touches ht, h, hsame hdb]
  · have hsets : ∀ {w' w'' : Wallet}, w' = w₁ → SetsHeight p node.1 w' w'' →
        SetsHeight p node.1 w w'' := by
      rintro w' w'' rfl h q
      rw [← hsame hdb q]
      exact h q
    have hkeeps := (Updater.applyApiOutputs_sets W mask outputs api node.1 p).bind fun _ =>
      hclean.mono fun _ _ => setsHeight_of_touches
    exact hkeeps.triple (fun _ _ _ h hs => .inr ⟨_, hmem, Nat.le_of_not_lt hlt, hsets h hs⟩)
      fun _ _ h hs => .inr ⟨_, hmem, Nat.le_of_not_lt hlt, hsets h hs⟩

/-- A guarded step is sound. -/
theorem sound_of_guarded {r : Refresh} {w : Wallet} (h : r.Guarded W w) : r.Sound W w := by
  constructor
  · cases r with
    | refreshOutputs mask p =>
      intro q
      show _ ≤ confirmedHeight (Updater.refreshOutputs W mask p w).2 q
      rcases refreshOutputs_heights mask p w with hs | ⟨height, hmem, hle, hs⟩
      · rw [hs]
      · rcases hs q with hq | ⟨rfl, hq⟩
        · rw [hq]
        · rw [hq]
          rcases h height hmem with h | h
          · exact h
          · omega
    | setActiveAccount label =>
      intro q
      have ht : Prog.Keeps (Touches []) (setParentKeyIdByName label) := by
        refine acctPathIter_reads.keeps.bind fun l => ?_
        split
        · exact fun _ _ _ => rfl
        · exact .throw _
      refine Nat.le_of_eq ?_
      unfold confirmedHeight numericOf
      rw [show ((setActiveAccount label).run W w).db.get (.confirmedHeight q) =
        w.db.get (.confirmedHeight q) from ht w _ (by simp)]
  · rintro mask p rfl height hmem hlt outputs api w' hdb hpar
    refine Updater.applyApiOutputs_behind W ?_
    have hactive : confirmedHeight w' w'.parentKeyId = confirmedHeight w w.parentKeyId := by
      unfold confirmedHeight
      rw [hdb, hpar]
    rw [hactive]
    rcases h height hmem with h | h
    · omega
    · exact h

/-! ## Runs of refreshes -/

/-- The steps of a run, each with the wallet it found. -/
def steps (W : World) : List Refresh → Wallet → List (Refresh × Wallet)
  | [], _ => []
  | r :: rs, w => (r, w) :: steps W rs (r.run W w)

def runAll (W : World) : List Refresh → Wallet → Wallet
  | [], w => w
  | r :: rs, w => runAll W rs (r.run W w)

/-- In a run of guarded refreshes every step is sound, and no height is below what it was at the
start. -/
theorem heights_of_run : ∀ {rs : List Refresh} {w : Wallet},
    (∀ s ∈ steps W rs w, s.1.Guarded W s.2) →
      (∀ s ∈ steps W rs w, s.1.Sound W s.2) ∧
        ∀ p, confirmedHeight w p ≤ confirmedHeight (runAll W rs w) p
  | [], w, _ => ⟨fun s hs => (by cases hs), fun p => Nat.le_refl _⟩
  | r :: rs, w, h => by
    have hr : r.Sound W w := sound_of_guarded (h (r, w) List.mem_cons_self)
    obtain ⟨hsteps, hheights⟩ := heights_of_run fun s hs => h s (List.mem_cons_of_mem _ hs)
    refine ⟨fun s hs => ?_, fun p => Nat.le_trans (hr.height p) (hheights p)⟩
    rcases List.mem_cons.1 hs with rfl | hs
    · exact hr
    · exact hsteps s hs

/-- A node whose chain is shorter after the first refresh. -/
def forkedNode : World :=
  { World.small with chainTip := fun t => if t < 3 then .ok (10, "") else .ok (3, "") }

def newWallet : Wallet := opened ⟨7⟩ 7

def secondAccount : Identifier := { defaultPath with p0 := 1 }

/-- Two refreshes of an account that is not the active one, which was never refreshed. -/
def inactiveRefreshes : List Refresh :=
  [.refreshOutputs none secondAccount, .refreshOutputs none secondAccount]

/-- The second refresh takes the height of the account from 10 back to 3. -/
theorem height_goes_down :
    confirmedHeight ((refreshOutputs none secondAccount).run forkedNode newWallet) secondAccount = 10 ∧
      confirmedHeight (runAll forkedNode inactiveRefreshes newWallet) secondAccount = 3 ∧
      ¬∀ s ∈ steps forkedNode inactiveRefreshes newWallet, s.1.Sound forkedNode s.2 := by
  have hbefore : confirmedHeight ((refreshOutputs none secondAccount).run forkedNode newWallet)
      secondAccount = 10 := by decide
  have hafter : confirmedHeight (runAll forkedNode inactiveRefreshes newWallet) secondAccount = 3 := by
    decide
  refine ⟨hbefore, hafter, fun h => ?_⟩
  have hsound := (h (refreshOutputs none secondAccount,
    (refreshOutputs none secondAccount).run forkedNode newWallet)
    (List.mem_cons_of_mem _ List.mem_cons_self)).height secondAccount
  rw [hbefore] at hsound
  have hle : 10 ≤ confirmedHeight (runAll forkedNode inactiveRefreshes newWallet) secondAccount :=
    hsound
  rw [hafter] at hle
  exact absurd hle (by decide)

def activeRefreshes : List Refresh :=
  [.refreshOutputs none defaultPath, .refreshOutputs none defaultPath]

/-- The same node, and refreshes of the active account. -/
theorem heights_of_active_refreshes :
    (∀ s ∈ steps forkedNode activeRefreshes newWallet, s.1.Sound forkedNode s.2) ∧
      ∀ p, confirmedHeight newWallet p ≤
        confirmedHeight (runAll forkedNode activeRefreshes newWallet) p := by
  refine heights_of_run fun s hs => ?_
  have hactive : ∀ s ∈ steps forkedNode activeRefreshes newWallet,
      s.1 = .refreshOutputs none s.2.parentKeyId := by decide
  rw [hactive s hs]
  exact guarded_active none s.2

end Refresh

end EpicWallet
