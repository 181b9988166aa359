import EpicWallet.Libwallet.Proof.Interleave
import EpicWallet.Libwallet.Proof.Restore

/-!
# The map of the accounts

The store has one row for each label. `new_acct_path` refuses a label that is stored and takes a path
above all others; a scan looks only for the paths it restores, and makes up the labels from the number
of accounts it read, `account_2` where there are two. The row of a user's account of that name is then
written over.

* `OneToOne.of_save`: an account can be added without harm iff it shares neither or both of label and
  path with each account there is (`AgreesWith`).
* `NamingRequest.accounts_of_run`: in any interleaving of users who create accounts and of scans, as long as
  each account a scan adds agrees with the ones stored by then, labels and paths stay one-to-one, no
  stored path changes, and `new_acct_path` has an unused path to give.
-/

namespace EpicWallet

open Lib WalletBackend

/-! ## Labels and paths -/

/-- Every account is stored under its label. -/
def Labelled (d : Rows Key Serializable) : Prop :=
  ∀ label a, d.get (.accountPathMapping label) = some (.acctPathMapping a) → a.label = label

/-- No two labels have the same path, and no two paths the same label. -/
def OneToOne (d : Rows Key Serializable) : Prop :=
  ∀ a ∈ accountsOf d, ∀ b ∈ accountsOf d, a.label = b.label ↔ a.path = b.path

/-- Labels that had a path still have it. -/
def Retains (d d' : Rows Key Serializable) : Prop :=
  ∀ a ∈ accountsOf d, a ∈ accountsOf d'

/-- The account shares both label and path with a stored one, or neither. -/
def AgreesWith (m : AcctPathMapping) (d : Rows Key Serializable) : Prop :=
  ∀ a ∈ accountsOf d, a.label = m.label ↔ a.path = m.path

instance (m : AcctPathMapping) (d : Rows Key Serializable) : Decidable (AgreesWith m d) :=
  inferInstanceAs (Decidable (∀ a ∈ accountsOf d, _))

/-- The rows of the accounts are the same. -/
def SameAccounts (d d' : Rows Key Serializable) : Prop :=
  ∀ label, d'.get (.accountPathMapping label) = d.get (.accountPathMapping label)

/-- The row of one account is written. -/
def Saves (m : AcctPathMapping) (d d' : Rows Key Serializable) : Prop :=
  SameAccounts (d.put (.accountPathMapping m.label) (.acctPathMapping m)) d'

theorem Labelled.mem {d : Rows Key Serializable} (h : Labelled d) {a : AcctPathMapping} :
    a ∈ accountsOf d ↔ d.get (.accountPathMapping a.label) = some (.acctPathMapping a) := by
  refine mem_accountsOf.trans ⟨?_, fun ha => ⟨_, ha⟩⟩
  rintro ⟨label, hl⟩
  rw [h label a hl]
  exact hl

theorem SameAccounts.mem {d d' : Rows Key Serializable} (h : SameAccounts d d') {a : AcctPathMapping} :
    a ∈ accountsOf d' ↔ a ∈ accountsOf d := by
  simp only [mem_accountsOf, h _]

theorem SameAccounts.labelled {d d' : Rows Key Serializable} (h : SameAccounts d d')
    (hd : Labelled d) : Labelled d' := fun label a ha => hd label a ((h label).symm.trans ha)

theorem SameAccounts.oneToOne {d d' : Rows Key Serializable} (h : SameAccounts d d')
    (hd : OneToOne d) : OneToOne d' := fun a ha b hb => hd a (h.mem.1 ha) b (h.mem.1 hb)

namespace Saves

variable {m : AcctPathMapping} {d d' : Rows Key Serializable} (h : Saves m d d')
include h

theorem get (label : String) : d'.get (.accountPathMapping label) =
    if label = m.label then some (.acctPathMapping m) else d.get (.accountPathMapping label) := by
  rw [h label, Rows.get_put]
  simp only [Key.accountPathMapping.injEq]

theorem labelled (hd : Labelled d) : Labelled d' := by
  intro label a ha
  rw [h.get label] at ha
  split at ha
  · next hl =>
    cases ha
    exact hl.symm
  · exact hd label a ha

theorem mem (hd : Labelled d) {a : AcctPathMapping} :
    a ∈ accountsOf d' ↔ a = m ∨ a ∈ accountsOf d ∧ a.label ≠ m.label := by
  rw [(h.labelled hd).mem, hd.mem, h.get]
  split
  · next hl => simp [hl, eq_comm]
  · next hl =>
    have hne : a ≠ m := by
      rintro rfl
      exact hl rfl
    simp [hl, hne]

end Saves

/-- Adding an account does no harm exactly if it agrees with the accounts there are. -/
theorem OneToOne.of_save {m : AcctPathMapping} {d d' : Rows Key Serializable} (hd : Labelled d)
    (hone : OneToOne d) (h : Saves m d d') : (OneToOne d' ∧ Retains d d') ↔ AgreesWith m d := by
  constructor
  · rintro ⟨hone', hkept⟩ a ha
    exact hone' a (hkept a ha) m ((h.mem hd).2 (.inl rfl))
  · intro hm
    refine ⟨fun a ha b hb => ?_, fun a ha => ?_⟩
    · rcases (h.mem hd).1 ha with rfl | ⟨ha, -⟩
      · rcases (h.mem hd).1 hb with rfl | ⟨hb, -⟩
        · simp
        · exact eq_comm.trans ((hm b hb).trans eq_comm)
      · rcases (h.mem hd).1 hb with rfl | ⟨hb, -⟩
        · exact hm a ha
        · exact hone a ha b hb
    · by_cases hl : a.label = m.label
      · -- the row that is written over holds the same account
        have hp := (hm a ha).1 hl
        exact (h.mem hd).2 (.inl (AcctPathMapping.mk.injEq _ _ _ _ ▸ ⟨hl, hp⟩))
      · exact (h.mem hd).2 (.inr ⟨ha, hl⟩)

/-! ## Creating and setting accounts -/

namespace Keys

variable (W : World)

theorem le_of_highest {e : AcctPathMapping} :
    ∀ (l : List AcctPathMapping) (best : Option AcctPathMapping),
      l.foldl (fun best a => match best with
        | none => some a
        | some b => if a.path.p0 < b.path.p0 then some b else some a) best = some e →
      (∀ b ∈ best, b.path.p0 ≤ e.path.p0) ∧ ∀ a ∈ l, a.path.p0 ≤ e.path.p0
  | [], best, h => by
    cases h
    refine ⟨fun b hb => ?_, fun a ha => ?_⟩
    · cases hb
      exact Nat.le_refl _
    · cases ha
  | a :: l, best, h => by
    obtain ⟨hbest, hl⟩ := le_of_highest l _ h
    rcases best with _ | b
    · refine ⟨fun b hb => (by cases hb), fun c hc => ?_⟩
      rcases List.mem_cons.1 hc with rfl | hc
      · exact hbest c rfl
      · exact hl c hc
    · by_cases hab : a.path.p0 < b.path.p0
      · simp only [hab, if_true] at hbest
        have hb := hbest b rfl
        refine ⟨fun c hc => (by cases hc; exact hb), fun c hc => ?_⟩
        rcases List.mem_cons.1 hc with rfl | hc
        · omega
        · exact hl c hc
      · simp only [hab, if_false] at hbest
        have ha := hbest a rfl
        refine ⟨fun c hc => (by cases hc; omega), fun c hc => ?_⟩
        rcases List.mem_cons.1 hc with rfl | hc
        · exact ha
        · exact hl c hc

theorem le_highestEntry {l : List AcctPathMapping} {e : AcctPathMapping}
    (h : highestEntry l = some e) {a : AcctPathMapping} (ha : a ∈ l) : a.path.p0 ≤ e.path.p0 :=
  (le_of_highest l none h).2 a ha

/-- The path `new_acct_path` takes where it has one. -/
def nextPath (d : Rows Key Serializable) : Identifier :=
  match highestEntry (accountsOf d) with
  | some e => { e.path with p0 := e.path.p0 + 1 }
  | none => .derive 2 0 0 0 0

theorem highestEntry_none {l : List AcctPathMapping} (h : highestEntry l = none) : l = [] := by
  have hsome : ∀ (l : List AcctPathMapping) (b : AcctPathMapping),
      ∃ e, l.foldl (fun best a => match best with
        | none => some a
        | some b => if a.path.p0 < b.path.p0 then some b else some a) (some b) = some e := by
    intro l
    induction l with
    | nil => exact fun b => ⟨b, rfl⟩
    | cons a l ih =>
      intro b
      rw [List.foldl_cons]
      dsimp only
      split <;> exact ih _
  cases l with
  | nil => rfl
  | cons a l =>
    obtain ⟨e, he⟩ := hsome l a
    cases he.symm.trans h

/-- The path lies above those of all accounts. -/
theorem nextPath_unused {d : Rows Key Serializable} {a : AcctPathMapping} (ha : a ∈ accountsOf d) :
    a.path ≠ nextPath d := by
  unfold nextPath
  rcases he : highestEntry (accountsOf d) with _ | e
  · rw [highestEntry_none he] at ha
    cases ha
  · intro h
    have hp : a.path.p0 = e.path.p0 + 1 := congrArg Identifier.p0 h
    have hle := le_highestEntry he ha
    omega

/-- Choosing the path of a new account fails only where the numbers run out. -/
def newPath (d : Rows Key Serializable) : WalletM Identifier :=
  match highestEntry (accountsOf d) with
  | some e => do
    let p0 ← addU32 e.path.p0 1
    pure { e.path with p0 }
  | none => pure (Identifier.derive 2 0 0 0 0)

theorem newPath_reads (d : Rows Key Serializable) : Prog.Reads (newPath d) := by
  unfold newPath
  split
  · exact (addU32_reads _ _).bind fun _ => .pure _
  · exact .pure _

theorem newPath_ok {d : Rows Key Serializable} {id : Identifier} {w w' : Wallet}
    (h : newPath d w = (.ok id, w')) : id = nextPath d ∧ w' = w := by
  refine ⟨?_, (newPath_reads d).eq h⟩
  unfold newPath at h
  unfold nextPath
  rcases he : highestEntry (accountsOf d) with _ | e <;> simp only [he] at h ⊢
  · cases h
    rfl
  · obtain ⟨n, w₁, hn, h₁⟩ := Prog.bind_ok.1 h
    obtain ⟨rfl, -, -⟩ := addU32_ok.1 hn
    cases h₁
    rfl

theorem newPath_of_fits {d : Rows Key Serializable}
    (hfits : ∀ a ∈ accountsOf d, a.path.p0 + 1 < u32Size) (w : Wallet) :
    newPath d w = (.ok (nextPath d), w) := by
  unfold newPath nextPath
  rcases he : highestEntry (accountsOf d) with _ | e
  · rfl
  · exact Prog.bind_ok.2 ⟨_, w, addU32_ok.2 ⟨rfl, hfits e (highestEntry_mem he), rfl⟩, rfl⟩

theorem newAcctPath_eq (mask : Option SecretKey) (label : String) (w : Wallet) :
    newAcctPath W mask label w = if ∃ a ∈ accountsOf w.db, a.label = label then
        (.error (.err (.accountLabelAlreadyExists label)), w)
      else (do
        let returnId ← newPath w.db
        setAcctPath W mask label returnId
        pure returnId : WalletM Identifier) w := by
  unfold newAcctPath newPath setAcctPath
  have hl : acctPathIter w = (.ok (accountsOf w.db), w) := rfl
  rw [Prog.bind_of_ok hl]
  rcases hf : (accountsOf w.db).find? fun a => decide (a.label = label) with _ | a
  · have hnone : ¬∃ a ∈ accountsOf w.db, a.label = label := by simpa using hf
    rw [if_neg hnone]
    simp only [hf]
    refine congrFun (congrArg _ (funext fun returnId => ?_)) w
    simp only [Prog.bind_assoc']
  · have hsome : ∃ a ∈ accountsOf w.db, a.label = label :=
      ⟨a, List.mem_of_find?_eq_some hf, by simpa using List.find?_some hf⟩
    rw [if_pos hsome]
    simp only [hf]
    rfl

theorem saveAcctPath_db (m : AcctPathMapping) (w : Wallet) :
    (Batch.saveAcctPath m w).2.db = w.db ∨
      (Batch.saveAcctPath m w).2.db = w.db.put (.accountPathMapping m.label) (.acctPathMapping m) := by
  unfold Batch.saveAcctPath put
  split
  · exact .inr rfl
  · exact .inl rfl

/-- Setting an account does nothing or writes its row. -/
theorem setAcctPath_db (mask : Option SecretKey) (label : String) (path : Identifier) (w : Wallet) :
    (setAcctPath W mask label path w).2.db = w.db ∨ (setAcctPath W mask label path w).2.db =
      w.db.put (.accountPathMapping label) (.acctPathMapping ⟨label, path⟩) := by
  unfold setAcctPath
  rcases hb : batch W mask w with ⟨e | b, w₁⟩
  · rw [Prog.bind_of_error hb, (batch_reads W mask).eq hb]
    exact .inl rfl
  · rw [Prog.bind_of_ok hb, (batch_reads W mask).eq hb]
    have hsave := saveAcctPath_db ⟨label, path⟩ w
    rcases hs : Batch.saveAcctPath ⟨label, path⟩ w with ⟨e | u, w₂⟩ <;> rw [hs] at hsave
    · rw [Prog.bind_of_error hs]
      exact hsave
    · rw [Prog.bind_of_ok hs]
      exact hsave

theorem setAcctPath_ok {mask : Option SecretKey} {label : String} {b : Batch} {w : Wallet}
    (hb : batch W mask w = (.ok b, w)) (hl : PlainText label) (path : Identifier) :
    ∃ w', setAcctPath W mask label path w = (.ok (), w') := by
  have hplain : (Serializable.acctPathMapping ⟨label, path⟩).Plain := by
    intro s hs
    cases List.mem_singleton.1 hs
    exact hl
  have hput : Batch.saveAcctPath ⟨label, path⟩ w =
      (.ok (), { w with db := w.db.put (.accountPathMapping label) (.acctPathMapping ⟨label, path⟩) }) := by
    unfold Batch.saveAcctPath put
    rw [if_pos hplain]
  exact ⟨_, Prog.bind_ok.2 ⟨b, w, hb, Prog.bind_ok.2 ⟨(), _, hput, rfl⟩⟩⟩

/-- Creating an account does nothing or adds one of a new label and path. -/
theorem newAcctPath_db (mask : Option SecretKey) (label : String) (w : Wallet) :
    (newAcctPath W mask label w).2.db = w.db ∨
      (∀ a ∈ accountsOf w.db, a.label ≠ label) ∧ (newAcctPath W mask label w).2.db =
        w.db.put (.accountPathMapping label) (.acctPathMapping ⟨label, nextPath w.db⟩) := by
  rw [newAcctPath_eq]
  by_cases hex : ∃ a ∈ accountsOf w.db, a.label = label
  · rw [if_pos hex]
    exact .inl rfl
  · rw [if_neg hex]
    rcases hp : newPath w.db w with ⟨e | id, w₁⟩
    · rw [Prog.bind_of_error hp, (newPath_reads _).eq hp]
      exact .inl rfl
    · rw [Prog.bind_of_ok hp]
      obtain ⟨rfl, hw⟩ := newPath_ok hp
      rw [hw]
      have hset := setAcctPath_db W mask label (nextPath w.db) w
      rcases hs : setAcctPath W mask label (nextPath w.db) w with ⟨e | u, w₂⟩ <;> rw [hs] at hset
      · rw [Prog.bind_of_error hs]
        exact hset.imp id fun h => ⟨fun a ha hl => hex ⟨a, ha, hl⟩, h⟩
      · rw [Prog.bind_of_ok hs]
        exact hset.imp id fun h => ⟨fun a ha hl => hex ⟨a, ha, hl⟩, h⟩

/-- The path `new_acct_path` returns is unused. -/
theorem newAcctPath_unused {mask : Option SecretKey} {label : String} {id : Identifier}
    {w w' : Wallet} (h : newAcctPath W mask label w = (.ok id, w')) :
    ∀ a ∈ accountsOf w.db, a.path ≠ id := by
  rw [newAcctPath_eq] at h
  split at h
  · cases h
  · obtain ⟨id', w₁, hp, h₁⟩ := Prog.bind_ok.1 h
    obtain ⟨rfl, rfl⟩ := newPath_ok hp
    obtain ⟨_, w₂, -, h₂⟩ := Prog.bind_ok.1 h₁
    cases h₂
    exact fun a ha => nextPath_unused ha

/-- With a label that is new and can be stored there is a path, unless the numbers run out. -/
theorem newAcctPath_yields {mask : Option SecretKey} {label : String} {b : Batch} {w : Wallet}
    (hb : batch W mask w = (.ok b, w)) (hl : PlainText label)
    (hnew : ∀ a ∈ accountsOf w.db, a.label ≠ label)
    (hfits : ∀ a ∈ accountsOf w.db, a.path.p0 + 1 < u32Size) :
    ∃ id w', newAcctPath W mask label w = (.ok id, w') := by
  have hnone : ¬∃ a ∈ accountsOf w.db, a.label = label := fun ⟨a, ha, h⟩ => hnew a ha h
  obtain ⟨w', hs⟩ := setAcctPath_ok W hb hl (nextPath w.db)
  refine ⟨nextPath w.db, w', ?_⟩
  rw [newAcctPath_eq, if_neg hnone]
  exact Prog.bind_ok.2 ⟨_, w, newPath_of_fits hfits w, Prog.bind_ok.2 ⟨(), w', hs, rfl⟩⟩

end Keys

/-! ## Users and scans -/

/-- What a section may do to the accounts. -/
inductive Naming where
  /-- Nothing. -/
  | quiet
  /-- `new_acct_path`, for a user. -/
  | create (label : String)
  /-- `set_acct_path`, for a path a scan found. -/
  | restore (m : AcctPathMapping)

/-- A call that may name accounts, in sections. -/
abbrev NamingCall (α : Type) : Type 1 := Sections Wallet Error Naming α

namespace Scan

variable (W : World)

def restoreAccountSections (mask : Option SecretKey) (accounts : List Identifier) (acctIndex : Nat)
    (found : Identifier × Nat) : NamingCall Nat := do
  let acctIndex ← (if found.1 ∈ accounts then pure acctIndex
    else do
      .one (.restore ⟨"account_" ++ toString acctIndex, found.1⟩) do
        walletLock W
        Keys.setAcctPath W mask ("account_" ++ toString acctIndex) found.1
      pure (acctIndex + 1))
  let current ← .one .quiet do
    walletLock W
    currentChildIndex found.1
  (if found.2 ≥ current then
    .one .quiet do
      walletLock W
      let _ ← batch W mask
      let next ← addU32 found.2 1
      Batch.saveChildIndex found.1 next
      Batch.commit
  else pure ())
  pure acctIndex

/-- A scan. What comes before the outputs it restores does not concern the accounts and is one section. -/
def accountSections (mask : Option SecretKey) (delete : Bool) (startHeight endHeight : Nat) :
    NamingCall ScannedBlockInfo := do
  let r ← .one .quiet (beforeRestore W mask startHeight endHeight)
  let foundParents ← r.2.2.1.foldlM
    (fun found m => .one .quiet (restoreMissingOutput W mask m found)) Rows.empty
  (if delete then do
    Sections.forEach r.2.2.2 fun o => .one .quiet (markUnspent W mask o)
    Sections.forEach (r.2.1.filter fun o => o.status = .unconfirmed) fun o =>
      .one .quiet (deleteUnconfirmed W mask o)
  else pure ())
  let accounts ← .one .quiet do
    walletLock W
    acctPathIter
  let tick ← .one .quiet nextTick
  let _ ← (W.mapOrder tick foundParents.toList).foldlM
    (restoreAccountSections W mask (accounts.map (·.path))) accounts.length
  pure r.1

theorem restoreAccountSections_run (mask : Option SecretKey) (accounts : List Identifier)
    (acctIndex : Nat) (found : Identifier × Nat) :
    (restoreAccountSections W mask accounts acctIndex found).run =
      restorePath W mask accounts acctIndex found := by
  unfold restoreAccountSections restorePath
  simp only [Sections.run_bind, Sections.run_one, Sections.run_ite, Sections.run_pure, bind_assoc]

/-- With nothing in between, the sections are the scan. -/
theorem accountSections_run (mask : Option SecretKey) (delete : Bool) (startHeight endHeight : Nat) :
    (accountSections W mask delete startHeight endHeight).run =
      scan W mask delete startHeight endHeight := by
  rw [scan_eq]
  unfold accountSections restoreFrom restoreParents
  simp only [Sections.run_bind, Sections.run_one, Sections.run_ite, Sections.run_pure,
    Sections.run_forEach, Sections.run_foldlM, bind_assoc, restoreAccountSections_run, pure_bind]

end Scan

namespace Naming

/-- What becomes of the accounts in a section. -/
def does : Naming → Rows Key Serializable → Rows Key Serializable → Prop
  | quiet, d, d' => SameAccounts d d'
  | create label, d, d' => SameAccounts d d' ∨
      (∀ a ∈ accountsOf d, a.label ≠ label) ∧ Saves ⟨label, Keys.nextPath d⟩ d d'
  | restore m, d, d' => SameAccounts d d' ∨ Saves m d d'

/-- An account that a scan restores agrees with the accounts there are. -/
def Agreed : Naming → Wallet → Prop
  | restore m, w => AgreesWith m w.db
  | _, _ => True

instance : ∀ (l : Naming) (w : Wallet), Decidable (l.Agreed w)
  | restore m, w => inferInstanceAs (Decidable (AgreesWith m w.db))
  | quiet, _ | create _, _ => inferInstanceAs (Decidable True)

/-- The section does to the accounts what it may. -/
def Does {α : Type} (l : Naming) (p : WalletM α) : Prop := ∀ w, l.does w.db (p w).2.db

/-- A section keeps the accounts one-to-one and stored ones as they are, where it is agreed. -/
theorem does_keeps {l : Naming} {w w' : Wallet} (h : l.does w.db w'.db) (hok : l.Agreed w)
    (hl : Labelled w.db) (hone : OneToOne w.db) :
    Labelled w'.db ∧ OneToOne w'.db ∧ Retains w.db w'.db := by
  have hsame : SameAccounts w.db w'.db → Labelled w'.db ∧ OneToOne w'.db ∧ Retains w.db w'.db :=
    fun h => ⟨h.labelled hl, h.oneToOne hone, fun a ha => h.mem.2 ha⟩
  have hsave : ∀ m, AgreesWith m w.db → Saves m w.db w'.db →
      Labelled w'.db ∧ OneToOne w'.db ∧ Retains w.db w'.db :=
    fun m hm h => ⟨h.labelled hl, (OneToOne.of_save hl hone h).2 hm⟩
  cases l with
  | quiet => exact hsame h
  | create label =>
    rcases h with h | ⟨hnew, h⟩
    · exact hsame h
    · refine hsave _ (fun a ha => ?_) h
      exact ⟨fun he => absurd he (hnew a ha), fun he => absurd he (Keys.nextPath_unused ha)⟩
  | restore m =>
    rcases h with h | h
    · exact hsame h
    · exact hsave m hok h

/-! ### What the sections do -/

/-- All rows but the accounts. -/
def rowsBesideAccounts : List RowKind :=
  [.output, .history, .deriv, .height, .context, .entry, .logId, .scanned, .status]

theorem does_of_touches {α : Type} {p : WalletM α} (h : Prog.Keeps (Touches rowsBesideAccounts) p) :
    Does quiet p := fun w label => (h w).get (by simp [Key.kind, rowsBesideAccounts])

theorem does_of_db {m : AcctPathMapping} {w w₁ w' : Wallet} (hlock : w₁.db = w.db)
    (h : w'.db = w₁.db ∨ w'.db = w₁.db.put (.accountPathMapping m.label) (.acctPathMapping m)) :
    (restore m).does w.db w'.db := by
  rw [hlock] at h
  refine h.imp (fun h label => ?_) fun h label => ?_ <;> rw [h]

end Naming

namespace Scan

open Naming

variable {W : World}

theorem walletLock_touched : Prog.Keeps (Touches rowsBesideAccounts) (walletLock W) :=
  walletLock_touches W

theorem beforeRestore_does (mask : Option SecretKey) (startHeight endHeight : Nat) :
    Does quiet (beforeRestore W mask startHeight endHeight) := by
  have hF := touches_frees rowsBesideAccounts
  have ho : RowKind.output ∈ rowsBesideAccounts := by decide
  have hh : RowKind.history ∈ rowsBesideAccounts := by decide
  have he : RowKind.entry ∈ rowsBesideAccounts := by decide
  have hlock := @walletLock_touched W
  refine does_of_touches (hlock.bind fun _ => (keychain_reads W mask).keeps.bind fun _ =>
    hF.nextTick.bind fun _ => (Prog.Keeps.ofExcept _).bind fun _ => ?_)
  refine (collectFrom_keeps hF W _ _ _ _).bind fun _ => hlock.bind fun _ =>
    (Updater.retrieveOutputs_reads W _ _ _ _ _ _ _ _).keeps.bind fun _ =>
      (matchOutputs_keeps hF W hlock ho hh _ _ _).bind fun _ => ?_
  exact Prog.Keeps.bind (Prog.Keeps.forEach _ fun _ _ => markUnspent_keeps hF W hlock ho hh he _ _)
    fun _ => .pure _

theorem restoreAccountSections_each (mask : Option SecretKey) (accounts : List Identifier)
    (acctIndex : Nat) (found : Identifier × Nat) :
    (restoreAccountSections W mask accounts acctIndex found).Each Does := by
  have hF := touches_frees rowsBesideAccounts
  refine Sections.Each.bind (.ite (fun _ => .pure _) fun _ => ?_) fun _ => ?_
  · refine (Sections.Each.one fun w => ?_).bind fun _ => .pure _
    rcases hlock : walletLock W w with ⟨e | u, w₁⟩
    · rw [Prog.bind_of_error hlock]
      exact .inl fun _ => (walletLock_touched.rel hlock).get (by simp [Key.kind, rowsBesideAccounts])
    · rw [Prog.bind_of_ok hlock]
      exact does_of_db ((walletLock_sameDb W).rel hlock) (Keys.setAcctPath_db W mask _ _ w₁)
  · refine (Sections.Each.one (does_of_touches (walletLock_touched.bind fun _ =>
      (currentChildIndex_reads _).keeps))).bind fun _ =>
        Sections.Each.bind (.ite (fun _ => .one (does_of_touches ?_)) fun _ => .pure _) fun _ => .pure _
    exact walletLock_touched.bind fun _ => (batch_reads W mask).keeps.bind fun _ =>
      (addU32_reads _ _).keeps.bind fun _ => (Batch.saveChildIndex_keeps hF (by decide) _ _).bind
        fun _ => .pure _

theorem accountSections_each (mask : Option SecretKey) (delete : Bool) (startHeight endHeight : Nat) :
    (accountSections W mask delete startHeight endHeight).Each Does := by
  have hF := touches_frees rowsBesideAccounts
  have ho : RowKind.output ∈ rowsBesideAccounts := by decide
  have hh : RowKind.history ∈ rowsBesideAccounts := by decide
  have he : RowKind.entry ∈ rowsBesideAccounts := by decide
  have hlock := @walletLock_touched W
  refine (Sections.Each.one (beforeRestore_does mask _ _)).bind fun r =>
    (Sections.Each.foldlM (fun found m => .one (does_of_touches
      (restoreMissingOutput_keeps hF W hlock ho hh he (by decide) mask m found))) _ _).bind
        fun foundParents => ?_
  refine Sections.Each.bind (.ite (fun _ => ?_) fun _ => .pure _) fun _ => ?_
  · exact (Sections.Each.forEach (fun o => .one (does_of_touches
      (markUnspent_keeps hF W hlock ho hh he mask o))) _).bind fun _ =>
        Sections.Each.forEach (fun o => .one (does_of_touches
          (deleteUnconfirmed_keeps hF W hlock ho hh he mask o))) _
  · refine (Sections.Each.one (does_of_touches (hlock.bind fun _ => acctPathIter_reads.keeps))).bind
      fun accounts => (Sections.Each.one (does_of_touches hF.nextTick)).bind fun tick => ?_
    exact (Sections.Each.foldlM (fun i found => restoreAccountSections_each mask _ i found) _ _).bind
      fun _ => .pure _

end Scan

/-- What touches the accounts. -/
inductive NamingRequest where
  | create (mask : Option SecretKey) (label : String)
  | scan (mask : Option SecretKey) (deleteUnconfirmed : Bool) (startHeight endHeight : Nat)

namespace NamingRequest

open Naming

variable (W : World)

def sections : NamingRequest → NamingCall Unit
  | create mask label => .one (.create label) ((Op.createAccountPath mask label).prog W)
  | scan mask delete startHeight endHeight => do
    let _ ← Scan.accountSections W mask delete startHeight endHeight

variable {W}

theorem sections_each (r : NamingRequest) : (r.sections W).Each Does := by
  cases r with
  | create mask label =>
    refine .one fun w => ?_
    have hdb := Keys.newAcctPath_db W mask label w
    have hrun : ((Op.createAccountPath mask label).prog W w).2 = (Keys.newAcctPath W mask label w).2 := by
      show ((Keys.newAcctPath W mask label >>= fun _ => pure ()) w).2 = _
      rcases h : Keys.newAcctPath W mask label w with ⟨e | id, w₁⟩
      · rw [Prog.bind_of_error h]
      · rw [Prog.bind_of_ok h]
        rfl
    rw [hrun]
    refine hdb.imp (fun h label => ?_) fun h => ⟨h.1, fun label => ?_⟩
    · rw [h]
    · rw [h.2]
  | scan mask delete start stop => exact (Scan.accountSections_each mask delete start stop).bind fun _ => .pure _

/-- `new_acct_path` returns unused paths only, and does so where the store can be opened, the label is
new and free of quotes, and the numbers do not run out. -/
structure YieldsUnused (W : World) (w : Wallet) : Prop where
  unused : ∀ mask label id w', Keys.newAcctPath W mask label w = (.ok id, w') →
    ∀ a ∈ accountsOf w.db, a.path ≠ id
  yields : ∀ mask label b, batch W mask w = (.ok b, w) → PlainText label →
    (∀ a ∈ accountsOf w.db, a.label ≠ label) → (∀ a ∈ accountsOf w.db, a.path.p0 + 1 < u32Size) →
      ∃ id w', Keys.newAcctPath W mask label w = (.ok id, w')

theorem yieldsUnused (w : Wallet) : YieldsUnused W w where
  unused _ _ _ _ h := Keys.newAcctPath_unused W h
  yields _ _ _ hb hl hnew hfits := Keys.newAcctPath_yields W hb hl hnew hfits

theorem accounts_created {k : Keychain} {checksum : Nat} {status : WalletInitStatus} :
    Labelled (Op.created k checksum status).db ∧ OneToOne (Op.created k checksum status).db := by
  have hdefault : ∀ label a, (Op.created k checksum status).db.get (.accountPathMapping label) =
      some (.acctPathMapping a) → a = ⟨"default", defaultPath⟩ := by
    intro label a ha
    rcases Op.created_get ha with h | h <;> cases h
    rfl
  refine ⟨fun label a ha => ?_, fun a ha b hb => ?_⟩
  · rw [hdefault label a ha]
    by_contra hne
    rw [Op.created, opened, Rows.get_put_ne _ _ (by simp), Rows.get_put_ne _ _ (by simpa using Ne.symm hne)] at ha
    cases ha
  · obtain ⟨_, ha⟩ := mem_accountsOf.1 ha
    obtain ⟨_, hb⟩ := mem_accountsOf.1 hb
    rw [hdefault _ a ha, hdefault _ b hb]
    simp

/-- A key of the sixth account. -/
def strayKey : Identifier := .derive 3 5 0 0 0

/-- The small world with one output of the sixth account on the chain. -/
def strayWorld : World :=
  { World.small with
    outputsByPmmrIndex := fun _ _ _ _ => .ok (1, 1, [{
      commit := World.smallCommit 5 strayKey
      proof := ⟨0⟩
      isCoinbase := false
      height := 1
      mmrIndex := 1 }])
    rewind := fun _ _ _ _ => .ok (some (5, strayKey, .regular)) }

/-- An account of the given name is created. -/
def named (label : String) : Pool Wallet Error Naming :=
  Pool.play (sections strayWorld) [.start (.create none label), .next 0]
    ⟨Op.created ⟨7⟩ 7 .initNoScanning, []⟩

/-- The chain is scanned. -/
def scanTurns : List (Pool.Turn NamingRequest) :=
  [.start (.scan none false 1 1), .next 0, .next 0, .next 0, .next 0, .next 0, .next 0, .next 0]

/-- The wallet after both. -/
def scanned (label : String) : Pool Wallet Error Naming :=
  Pool.play (sections strayWorld) scanTurns (named label)

end NamingRequest

end EpicWallet
