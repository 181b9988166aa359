import Mathlib.Data.List.Perm.Subperm
import EpicWallet.Impls.Proof.Seed

/-!
# Replacing the seed file

Recovering a wallet and changing its password rename the seed file and write a new one. When such a call
fails, the seed is still there if the call failed before the renaming, or if the file was written anew
(`recoverFromPhrase_keepsSeed_iff`, `changePassword_keepsSeed_iff`).
-/

namespace EpicWallet

open Lib

variable {W : SeedWorld}

/-! ## Recovering from a phrase -/

/-- A call that fails leaves the seed file as one that decrypts to the same seed. -/
def KeepsSeed (W : SeedWorld) (call : HomeM Unit) (d : Home) (p : String) (s : WalletSeed) : Prop :=
  ∀ e d', call d = (.error (.err e), d') → Opens W d' p s

theorem backupName_ne_seedFile (i : Nat) : WalletSeed.backupName i ≠ seedFile := by
  intro h
  have hlen := congrArg String.length h
  unfold WalletSeed.backupName at hlen
  rcases i with _ | i
  · simp only [String.length_append] at hlen
    exact absurd hlen (by decide)
  · simp only [String.length_append] at hlen
    have : (".bak." : String).length = 5 := by decide
    omega

theorem freeName_eq (files : Rows String String) :
    ∀ rounds i, ∃ j, WalletSeed.freeName files rounds i = WalletSeed.backupName j
  | 0, i => ⟨i, rfl⟩
  | rounds + 1, i => by
    unfold WalletSeed.freeName
    split
    · exact freeName_eq files rounds (i + 1)
    · exact ⟨i, rfl⟩

/-! The loop of `backup_seed` ends, and at a name that is free. -/

theorem backupName_injective : Function.Injective WalletSeed.backupName := by
  have hrepr : ∀ {i j : Nat}, toString i = toString j → i = j := fun {i j} h => by
    have := congrArg (fun s => Nat.ofDigitChars 10 s.toList 0) h
    simpa [Nat.toList_repr] using this
  have hlen : ∀ i, seedFile ++ ".bak" ≠ seedFile ++ ".bak." ++ toString (i + 1) := fun i h => by
    rw [String.append_assoc, String.append_right_inj] at h
    have := congrArg String.length h
    rw [String.length_append] at this
    change 4 = 5 + _ at this
    omega
  intro i j h
  rcases i with _ | i <;> rcases j with _ | j
  · rfl
  · exact absurd h (hlen j)
  · exact absurd h.symm (hlen i)
  · exact hrepr ((String.append_right_inj _).1 h)

theorem freeName_taken {files : Rows String String} :
    ∀ {rounds i : Nat}, (files.get (WalletSeed.freeName files rounds i)).isSome →
      ∀ k ≤ rounds, (files.get (WalletSeed.backupName (i + k))).isSome
  | 0, i, h, k, hk => by
    obtain rfl := Nat.le_zero.1 hk
    exact h
  | rounds + 1, i, h, k, hk => by
    unfold WalletSeed.freeName at h
    split at h
    · rename_i htaken
      rcases k with _ | k
      · exact htaken
      · rw [show i + (k + 1) = i + 1 + k by omega]
        exact freeName_taken h k (by omega)
    · rename_i hfree
      exact absurd h hfree

/-- There are more names than files. -/
theorem freeName_free (files : Rows String String) :
    files.get (WalletSeed.freeName files files.toList.length 0) = none := by
  by_contra h
  have htaken := freeName_taken (Option.ne_none_iff_isSome.1 h)
  have hsub : (List.range (files.toList.length + 1)).map WalletSeed.backupName ⊆
      files.toList.map Prod.fst := fun name hname => by
    obtain ⟨k, hk, rfl⟩ := List.mem_map.1 hname
    obtain ⟨text, hg⟩ := Option.isSome_iff_exists.1
      (htaken k (Nat.le_of_lt_succ (List.mem_range.1 hk)))
    rw [Nat.zero_add] at hg
    exact List.mem_map.2 ⟨_, Rows.mem_iff.2 hg, rfl⟩
  have hlen := ((List.nodup_range.map backupName_injective).subperm hsub).length_le
  simp only [List.length_map, List.length_range] at hlen
  omega

/-- The directory once its seed file was renamed. -/
def backedUp (d : Home) (text name : String) : Home :=
  { d with files := (d.files.erase seedFile).put name text, ops := d.ops + 1 }

theorem backupSeed_eq {d : Home} {text : String} (hg : d.files.get seedFile = some text)
    (h : W.faults.error d.ops = none) :
    WalletSeed.backupSeed W d = (.ok (WalletSeed.freeName d.files d.files.toList.length 0),
      backedUp d text (WalletSeed.freeName d.files d.files.toList.length 0)) := by
  unfold WalletSeed.backupSeed
  rw [Prog.bind_of_ok (Prog.get_apply d),
    Prog.bind_of_ok (Prog.attempt_of_ok ((Disk.rename_eq hg).trans (Disk.op_runs h)))]
  rfl

theorem backupSeed_runs {d : Home} {text : String} (hg : d.files.get seedFile = some text)
    (h : W.faults.error d.ops = none) :
    ∃ name, name ≠ seedFile ∧ WalletSeed.backupSeed W d = (.ok name, backedUp d text name) := by
  obtain ⟨i, hi⟩ := freeName_eq d.files d.files.toList.length 0
  exact ⟨_, hi ▸ backupName_ne_seedFile i, backupSeed_eq hg h⟩

theorem backupSeed_fails {d : Home} {text : String} {e : SeedError}
    (hg : d.files.get seedFile = some text) (h : W.faults.error d.ops = some e) :
    ∃ e, WalletSeed.backupSeed W d = (.error (.err e), { d with ops := d.ops + 1 }) := by
  unfold WalletSeed.backupSeed
  rw [Prog.bind_of_ok (Prog.get_apply d),
    Prog.bind_of_ok (Prog.attempt_of_err ((Disk.rename_eq hg).trans (Disk.op_fails h)))]
  exact ⟨_, rfl⟩

/-- A backup overwrites no other file. -/
theorem backupSeed_keeps {d d' : Home} {text name other : String}
    (hg : d.files.get seedFile = some text) (h : WalletSeed.backupSeed W d = (.ok name, d'))
    (hother : other ≠ seedFile) (hthere : (d.files.get other).isSome) :
    d'.files.get other = d.files.get other := by
  rcases hrename : W.faults.error d.ops with _ | e
  · rw [backupSeed_eq hg hrename] at h
    cases h
    have hne : other ≠ WalletSeed.freeName d.files d.files.toList.length 0 := fun heq => by
      rw [heq, freeName_free] at hthere
      cases hthere
    show (((d.files.erase seedFile).put _ _).get other) = _
    rw [Rows.get_put_ne _ _ hne, Rows.get_erase_ne _ hother]
  · obtain ⟨e₁, hrun⟩ := @backupSeed_fails _ _ _ _ hg hrename
    rw [hrun] at h
    cases h

theorem backedUp_seedFile {d : Home} {text name : String} (h : name ≠ seedFile) :
    (backedUp d text name).files.get seedFile = none := by
  unfold backedUp
  rw [Rows.get_put_ne _ _ h.symm, Rows.get_erase_self]

/-- Recovering over a seed file, once that was renamed. -/
theorem recoverFromPhrase_apply {dir phrase password : String} {d d₁ : Home} {text name : String}
    (hg : d.files.get seedFile = some text) (hb : WalletSeed.backupSeed W d = (.ok name, d₁))
    (hhere : d₁.here = true) :
    WalletSeed.recoverFromPhrase W dir phrase password d =
      (WalletSeed.fromMnemonic W phrase >>= fun seed => WalletSeed.writeSeed W seed password) d₁ := by
  have hbackup : (if true then do
      let _ ← WalletSeed.backupSeed W
      pure ()
    else pure () : HomeM Unit) d = (.ok (), d₁) := Prog.bind_of_ok hb
  have hdir : (Disk.dirExists : HomeM Bool) d₁ = (.ok true, d₁) := by
    rw [Disk.dirExists_apply, hhere]
  unfold WalletSeed.recoverFromPhrase
  rw [Prog.bind_of_ok (seedFileExists_of_some hg), Prog.bind_of_ok hbackup, Prog.bind_of_ok hdir]
  rfl

/-- A failed recovery keeps the seed exactly if it failed to rename the seed file. -/
theorem recoverFromPhrase_keepsSeed_iff (hW : W.Obeys) {d : Home} {p : String} {s : WalletSeed}
    (hhere : d.here = true) (hopens : Opens W d p s) (dir phrase password : String) :
    KeepsSeed W (WalletSeed.recoverFromPhrase W dir phrase password) d p s ↔
      W.faults.error d.ops ≠ none ∨
        ∃ seed, W.toEntropy phrase = some seed ∧ Writable W ⟨seed⟩ password (d.ops + 1) := by
  obtain ⟨text, -, hg, -, -⟩ := id hopens
  rcases hrename : W.faults.error d.ops with _ | err
  · obtain ⟨name, hname, hb⟩ := backupSeed_runs hg hrename
    have happly := @recoverFromPhrase_apply _ dir phrase password _ _ _ _ hg hb hhere
    have hnone : (backedUp d text name).files.get seedFile = none := backedUp_seedFile hname
    rcases hm : W.toEntropy phrase with _ | seed
    · rw [Prog.bind_of_error (fromMnemonic_of_none hm _)] at happly
      constructor
      · intro h
        exact absurd (h _ _ happly) (Unreadable.of_none hnone).not_opens
      · rintro (hcon | ⟨seed, hseed, -⟩)
        · exact absurd rfl hcon
        · cases hseed
    · rw [Prog.bind_of_ok (fromMnemonic_of_some hm _)] at happly
      by_cases hw : Writable W ⟨seed⟩ password (d.ops + 1)
      · obtain ⟨d', hrun, -⟩ := @writeSeed_runs _ hW ⟨seed⟩ password (backedUp d text name) hhere hw
        refine ⟨fun _ => .inr ⟨seed, rfl, hw⟩, fun _ e d'' hcall => ?_⟩
        rw [happly, hrun] at hcall
        cases hcall
      · obtain ⟨e, d', hrun, hun⟩ :=
          @writeSeed_fails _ hW ⟨seed⟩ password (backedUp d text name) hhere hnone hw
        constructor
        · intro h
          exact absurd (h _ _ (happly.trans hrun)) hun.not_opens
        · rintro (hcon | ⟨seed', hseed, hw'⟩)
          · exact absurd rfl hcon
          · obtain rfl := Option.some.inj hseed
            exact absurd hw' hw
  · obtain ⟨e, hb⟩ := backupSeed_fails hg hrename
    have hbackup : (if true then do
        let _ ← WalletSeed.backupSeed W
        pure ()
      else pure () : HomeM Unit) d = (.error (.err e), { d with ops := d.ops + 1 }) :=
      Prog.bind_of_error hb
    refine ⟨fun _ => .inl (by simp), fun _ e' d' hcall => ?_⟩
    unfold WalletSeed.recoverFromPhrase at hcall
    rw [Prog.bind_of_ok (seedFileExists_of_some hg), Prog.bind_of_error hbackup] at hcall
    obtain rfl := (Prod.mk.inj hcall).2
    exact hopens.of_files rfl

/-! ## Reading the seed file -/

/-- The `k` operations from `n` on succeed. -/
def Succeed (W : SeedWorld) (n k : Nat) : Prop := ∀ i < k, W.faults.error (n + i) = none

/-- The directory after `k` operations that change no file. -/
def passed (d : Home) (k : Nat) : Home := { d with here := true, ops := d.ops + k }

theorem readToString_runs {text : String} {d : Home} {k : Nat} (hg : d.files.get seedFile = some text)
    (h : W.faults.error (d.ops + k) = none) :
    Disk.readToString W.faults seedFile (passed d k) = (.ok text, passed d (k + 1)) := by
  unfold Disk.readToString
  rw [Prog.bind_of_ok (Disk.op_runs h), Prog.bind_of_ok (Prog.get_apply _)]
  show (Except.ok ((d.files.get seedFile).getD ""), _) = _
  rw [hg]
  rfl

theorem fromFile_runs {password text : String} {d : Home} (hg : d.files.get seedFile = some text)
    (h : Succeed W d.ops 3) :
    WalletSeed.fromFile W password d =
      match W.fromStr text with
      | none => (.error (.err .json), passed d 3)
      | some e => (e.decrypt W password, passed d 3) := by
  have hopen : Disk.openFile W.faults seedFile (passed d 1) = (.ok (), passed d 2) :=
    (Disk.openFile_eq (d := passed d 1) hg).trans (Disk.op_runs (h 1 (by omega)))
  unfold WalletSeed.fromFile
  rw [Prog.bind_of_ok (Disk.op_runs (h 0 (by omega)) : _ = (_, passed d 1)),
    Prog.bind_of_ok (seedFileExists_of_some (d := passed d 1) hg)]
  show (Disk.openFile W.faults seedFile >>= _) (passed d 1) = _
  rw [Prog.bind_of_ok hopen, Prog.bind_of_ok (readToString_runs hg (h 2 (by omega)))]
  rcases W.fromStr text with _ | e
  · rfl
  · rfl

theorem fromFile_fails {password text : String} {d : Home} (hg : d.files.get seedFile = some text)
    (h : ¬Succeed W d.ops 3) :
    ∃ e d', WalletSeed.fromFile W password d = (.error (.err e), d') ∧ d'.files = d.files := by
  unfold WalletSeed.fromFile
  rcases h0 : W.faults.error d.ops with _ | e
  · rw [Prog.bind_of_ok (Disk.op_runs h0 : _ = (_, passed d 1)),
      Prog.bind_of_ok (seedFileExists_of_some (d := passed d 1) hg)]
    show ∃ e d', (Disk.openFile W.faults seedFile >>= _) (passed d 1) = (.error (.err e), d') ∧ _
    rcases h1 : W.faults.error (d.ops + 1) with _ | e
    · have hopen : Disk.openFile W.faults seedFile (passed d 1) = (.ok (), passed d 2) :=
        (Disk.openFile_eq (d := passed d 1) hg).trans (Disk.op_runs h1)
      rw [Prog.bind_of_ok hopen]
      rcases h2 : W.faults.error (d.ops + 2) with _ | e
      · exact absurd (fun i hi => by
          rcases i with _ | _ | _ | i
          · exact h0
          · exact h1
          · exact h2
          · omega) h
      · exact ⟨e, _, Prog.bind_of_error (Prog.bind_of_error (Disk.op_fails h2)), rfl⟩
    · exact ⟨e, _, Prog.bind_of_error ((Disk.openFile_eq (d := passed d 1) hg).trans (Disk.op_fails h1)), rfl⟩
  · exact ⟨e, _, Prog.bind_of_error (Disk.op_fails h0), rfl⟩

theorem fromFile_unreadable {password : String} {d : Home} (h : Unreadable W d) :
    ∃ e d', WalletSeed.fromFile W password d = (.error (.err e), d') ∧ Unreadable W d' := by
  rcases hg : d.files.get seedFile with _ | text
  · unfold WalletSeed.fromFile
    rcases h0 : W.faults.error d.ops with _ | e
    · rw [Prog.bind_of_ok (Disk.op_runs h0 : _ = (_, passed d 1)),
        Prog.bind_of_ok (seedFileExists_of_none (d := passed d 1) hg)]
      exact ⟨_, _, rfl, .of_none hg⟩
    · exact ⟨e, _, Prog.bind_of_error (Disk.op_fails h0), .of_none hg⟩
  · by_cases hs : Succeed W d.ops 3
    · rw [fromFile_runs hg hs, h text hg]
      exact ⟨_, _, rfl, h⟩
    · obtain ⟨e, d', hrun, hfiles⟩ := @fromFile_fails _ password _ _ hg hs
      refine ⟨e, d', hrun, fun text' hg' => h text' ?_⟩
      rw [← hfiles, hg']

/-- Reading a seed file, in full. -/
theorem fromFile_opens {password : String} {d : Home} {s : WalletSeed} (hopens : Opens W d password s)
    (h : Succeed W d.ops 3) : WalletSeed.fromFile W password d = (.ok s, passed d 3) := by
  obtain ⟨text, e, hg, hr, hd⟩ := hopens
  rw [fromFile_runs hg h, hr]
  show (e.decrypt W password, _) = _
  rw [hd]

theorem fromFile_reads {password text : String} {d d' : Home} {r : Except (Fault SeedError) WalletSeed}
    (hg : d.files.get seedFile = some text) (h : Succeed W d.ops 3)
    (hrun : WalletSeed.fromFile W password d = (r, d')) :
    d' = passed d 3 ∧ ∀ seed, r = .ok seed → Opens W d password seed := by
  rw [fromFile_runs hg h] at hrun
  rcases hr : W.fromStr text with _ | e
  · rw [hr] at hrun
    cases hrun
    exact ⟨rfl, fun _ hcon => by cases hcon⟩
  · rw [hr] at hrun
    cases hrun
    exact ⟨rfl, fun seed hseed => ⟨text, e, hg, hr, hseed⟩⟩

/-! ## Changing the password -/

theorem orLifecycle_of_ok {α : Type} {msg : String} {p : HomeM α} {d d' : Home} {a : α}
    (h : p d = (.ok a, d')) : DefaultLCProvider.orLifecycle msg p d = (.ok a, d') :=
  Prog.bind_of_ok (Prog.attempt_of_ok h)

theorem orLifecycle_of_err {α : Type} {msg : String} {p : HomeM α} {d d' : Home} {e : SeedError}
    (h : p d = (.error (.err e), d')) :
    DefaultLCProvider.orLifecycle msg p d = (.error (.err (.lifecycle msg)), d') :=
  Prog.bind_of_ok (Prog.attempt_of_err h)

/-- The steps of `changePassword` after the seed file was renamed. -/
def replaceSeed (W : SeedWorld) (dir new : String) (removeBackup : Bool) (seed : WalletSeed)
    (mnemonic backupName : String) : HomeM Unit := do
  DefaultLCProvider.orLifecycle "Unable to delete seed file for password change"
    (WalletSeed.deleteSeedFile W)
  let _ ← Prog.attempt (WalletSeed.initFile W dir 0 (some mnemonic) new)
  let newWalletSeed ← DefaultLCProvider.orLifecycle "Error opening wallet seed file"
    (WalletSeed.fromFile W new)
  if seed ≠ newWalletSeed then Prog.throw (.lifecycle
    "New and Old wallet seeds are not equal on password change, not removing backups.")
  else if removeBackup then Disk.removeFile W.faults backupName
  else pure ()

theorem changePassword_eq {dir old new : String} {removeBackup : Bool} :
    DefaultLCProvider.changePassword W dir old new removeBackup = (do
      let seed ← DefaultLCProvider.orLifecycle "Error opening wallet seed file"
        (WalletSeed.fromFile W old)
      let mnemonic ← DefaultLCProvider.orLifecycle "Error recovering mnemonic" (seed.toMnemonic W)
      let backupName ← DefaultLCProvider.orLifecycle "Error temporarily backing up existing seed"
        (WalletSeed.backupSeed W)
      replaceSeed W dir new removeBackup seed mnemonic backupName) := rfl

/-- What `changePassword` needs after the renaming, at operation `n`, to write the new seed file. -/
def Rewritable (W : SeedWorld) (seed : WalletSeed) (new : String) (n : Nat) : Prop :=
  W.faults.error n = none ∧ Writable W seed new (n + 1)

theorem initFile_rewrites (hW : W.Obeys) {dir new mnemonic : String} {seed : WalletSeed} {d : Home}
    (hno : d.files.get seedFile = none) (hm : W.fromEntropy seed.bytes = some mnemonic)
    (h : Rewritable W seed new d.ops) :
    ∃ d', WalletSeed.initFile W dir 0 (some mnemonic) new d = (.ok seed, d') ∧
      Written W seed new (made d) d' := by
  refine initFile_runs hW hno h.1 ?_ h.2
  show Option.map WalletSeed.mk (W.toEntropy mnemonic) = _
  rw [hW.entropy _ _ hm]
  rfl

theorem initFile_not_rewrites (hW : W.Obeys) {dir new mnemonic : String} {seed : WalletSeed}
    {d : Home} (hno : d.files.get seedFile = none) (hm : W.fromEntropy seed.bytes = some mnemonic)
    (h : ¬Rewritable W seed new d.ops) :
    ∃ e d', WalletSeed.initFile W dir 0 (some mnemonic) new d = (.error (.err e), d') ∧
      Unreadable W d' := by
  refine initFile_fails hW hno ?_
  rintro ⟨hdir, seed', hseed, hw⟩
  have hsome : newSeed W (some mnemonic) 0 (d.ops + 1) = some seed := by
    show Option.map WalletSeed.mk (W.toEntropy mnemonic) = _
    rw [hW.entropy _ _ hm]
    rfl
  obtain rfl := Option.some.inj (hsome.symm.trans hseed)
  exact h ⟨hdir, hw⟩

section
variable {dir new mnemonic backupName : String} {removeBackup : Bool} {seed : WalletSeed} {d : Home}

theorem deleteSeedFile_of_none (hno : d.files.get seedFile = none) :
    WalletSeed.deleteSeedFile W d = (.ok (), d) := by
  unfold WalletSeed.deleteSeedFile
  rw [Prog.bind_of_ok (seedFileExists_of_none hno)]
  rfl

/-- A seed file that could not be written is not there afterwards. -/
theorem replaceSeed_fails (hW : W.Obeys) (hno : d.files.get seedFile = none)
    (hm : W.fromEntropy seed.bytes = some mnemonic) (h : ¬Rewritable W seed new d.ops) :
    ∃ e d', replaceSeed W dir new removeBackup seed mnemonic backupName d = (.error (.err e), d') ∧
      Unreadable W d' := by
  obtain ⟨e, d₁, hinit, hun⟩ := @initFile_not_rewrites _ hW dir _ _ _ _ hno hm h
  obtain ⟨e', d₂, hread, hun'⟩ := @fromFile_unreadable _ new _ hun
  unfold replaceSeed
  rw [Prog.bind_of_ok (orLifecycle_of_ok (deleteSeedFile_of_none hno)),
    Prog.bind_of_ok (Prog.attempt_of_err hinit)]
  exact ⟨_, d₂, Prog.bind_of_error (orLifecycle_of_err hread), hun'⟩

/-- A new seed file can be read again, and the backup removed if asked. -/
def Confirmed (W : SeedWorld) (removeBackup : Bool) (n : Nat) : Prop :=
  Succeed W n 3 ∧ (removeBackup = true → W.faults.error (n + 3) = none)

/-- A seed file that could be written is there, also when the call fails afterwards. -/
theorem replaceSeed_runs (hW : W.Obeys) (hno : d.files.get seedFile = none)
    (hbackup : (d.files.get backupName).isSome) (hne : backupName ≠ seedFile)
    (hm : W.fromEntropy seed.bytes = some mnemonic) (h : Rewritable W seed new d.ops) :
    ∃ d₁, Written W seed new (made d) d₁ ∧
      (Confirmed W removeBackup (d.ops + 3) →
        ∃ d', replaceSeed W dir new removeBackup seed mnemonic backupName d = (.ok (), d')) ∧
      (¬Confirmed W removeBackup (d.ops + 3) →
        ∃ e d', replaceSeed W dir new removeBackup seed mnemonic backupName d =
          (.error (.err e), d') ∧ d'.files = d₁.files) := by
  obtain ⟨d₁, hinit, hwritten⟩ := @initFile_rewrites _ hW dir _ _ _ _ hno hm h
  refine ⟨d₁, hwritten, ?_⟩
  have hops : d₁.ops = d.ops + 3 := hwritten.ops
  have hopens : Opens W d₁ new seed := (hwritten.opens new seed).2 ⟨rfl, rfl⟩
  unfold replaceSeed
  rw [Prog.bind_of_ok (orLifecycle_of_ok (deleteSeedFile_of_none hno)),
    Prog.bind_of_ok (Prog.attempt_of_ok hinit), ← hops]
  by_cases hread : Succeed W d₁.ops 3
  · rw [Prog.bind_of_ok (orLifecycle_of_ok (fromFile_opens hopens hread)), if_neg (not_not.2 rfl)]
    rcases removeBackup with _ | _
    · exact ⟨fun _ => ⟨_, rfl⟩, fun hcon => absurd ⟨hread, fun h => by cases h⟩ hcon⟩
    · rw [if_pos rfl]
      obtain ⟨text, htext⟩ := Option.isSome_iff_exists.1 hbackup
      have hget : (passed d₁ 3).files.get backupName = some text := by
        rw [← htext]
        exact hwritten.others backupName hne
      rcases hremove : W.faults.error (d₁.ops + 3) with _ | e
      · exact ⟨fun _ => ⟨_, (Disk.removeFile_eq hget).trans (Disk.op_runs hremove)⟩,
          fun hcon => absurd ⟨hread, fun _ => hremove⟩ hcon⟩
      · refine ⟨fun hcon => ?_, fun _ =>
          ⟨e, _, (Disk.removeFile_eq hget).trans (Disk.op_fails hremove), rfl⟩⟩
        rw [hcon.2 rfl] at hremove
        cases hremove
  · obtain ⟨text, -, hg, -, -⟩ := hopens
    obtain ⟨e, d₂, hrun, hfiles⟩ := @fromFile_fails _ new _ _ hg hread
    exact ⟨fun hcon => absurd hcon.1 hread,
      fun _ => ⟨_, d₂, Prog.bind_of_error (orLifecycle_of_err hrun), hfiles⟩⟩

end

section
variable {dir old new : String} {removeBackup : Bool} {seed : WalletSeed} {d : Home}

theorem orLifecycle_of_panic {α : Type} {msg : String} {p : HomeM α} {d d' : Home}
    (h : p d = (.error .panic, d')) :
    DefaultLCProvider.orLifecycle msg p d = (.error .panic, d') := by
  refine Prog.bind_of_error ?_
  unfold Prog.attempt
  rw [h]

theorem toMnemonic_of_some {mnemonic : String} (h : W.fromEntropy seed.bytes = some mnemonic) (d : Home) :
    seed.toMnemonic W d = (.ok mnemonic, d) := by
  unfold WalletSeed.toMnemonic
  rw [h]
  rfl

theorem toMnemonic_of_none (h : W.fromEntropy seed.bytes = none) (d : Home) :
    seed.toMnemonic W d = (.error (.err .mnemonic), d) := by
  unfold WalletSeed.toMnemonic
  rw [h]
  rfl

theorem succeed_succ {n k : Nat} :
    Succeed W n (k + 1) ↔ Succeed W n k ∧ W.faults.error (n + k) = none := by
  constructor
  · intro h
    exact ⟨fun i hi => h i (by omega), h k (by omega)⟩
  · rintro ⟨h, hk⟩ i hi
    by_cases hik : i = k
    · rw [hik, hk]
    · exact h i (by omega)

theorem changePassword_begins {text mnemonic : String} (hg : d.files.get seedFile = some text)
    (hopens : Opens W d old seed) (hm : W.fromEntropy seed.bytes = some mnemonic)
    (h : Succeed W d.ops 4) :
    ∃ name, name ≠ seedFile ∧ DefaultLCProvider.changePassword W dir old new removeBackup d =
      replaceSeed W dir new removeBackup seed mnemonic name (backedUp (passed d 3) text name) := by
  obtain ⟨hread, hrename⟩ := succeed_succ.1 h
  obtain ⟨name, hname, hb⟩ := backupSeed_runs (d := passed d 3) hg hrename
  refine ⟨name, hname, ?_⟩
  rw [changePassword_eq, Prog.bind_of_ok (orLifecycle_of_ok (fromFile_opens hopens hread)),
    Prog.bind_of_ok (orLifecycle_of_ok (toMnemonic_of_some hm _)),
    Prog.bind_of_ok (orLifecycle_of_ok hb)]

/-- A change of password that fails before it renames the seed file leaves all files. -/
theorem changePassword_refused {text : String} (hg : d.files.get seedFile = some text)
    (h : ∀ seed, Opens W d old seed → W.fromEntropy seed.bytes ≠ none → ¬Succeed W d.ops 4)
    {e : SeedError} {d' : Home}
    (hrun : DefaultLCProvider.changePassword W dir old new removeBackup d = (.error (.err e), d')) :
    d'.files = d.files := by
  rw [changePassword_eq] at hrun
  by_cases hread : Succeed W d.ops 3
  · rcases hfile : WalletSeed.fromFile W old d with ⟨(e₁ | _) | seed, d₁⟩
    · obtain ⟨rfl, -⟩ := fromFile_reads hg hread hfile
      rw [Prog.bind_of_error (orLifecycle_of_err hfile)] at hrun
      obtain rfl := (Prod.mk.inj hrun).2
      rfl
    · rw [Prog.bind_of_error (orLifecycle_of_panic hfile)] at hrun
      cases hrun
    · obtain ⟨rfl, hopens⟩ := fromFile_reads hg hread hfile
      rw [Prog.bind_of_ok (orLifecycle_of_ok hfile)] at hrun
      rcases hm : W.fromEntropy seed.bytes with _ | mnemonic
      · rw [Prog.bind_of_error (orLifecycle_of_err (toMnemonic_of_none hm _))] at hrun
        obtain rfl := (Prod.mk.inj hrun).2
        rfl
      · rw [Prog.bind_of_ok (orLifecycle_of_ok (toMnemonic_of_some hm _))] at hrun
        rcases hrename : W.faults.error (d.ops + 3) with _ | e₁
        · exact absurd (succeed_succ.2 ⟨hread, hrename⟩) (h seed (hopens seed rfl) (by simp [hm]))
        · obtain ⟨e₂, hb⟩ := backupSeed_fails (d := passed d 3) hg hrename
          rw [Prog.bind_of_error (orLifecycle_of_err hb)] at hrun
          obtain rfl := (Prod.mk.inj hrun).2
          rfl
  · obtain ⟨e₁, d₁, hfile, hfiles⟩ := @fromFile_fails _ old _ _ hg hread
    rw [Prog.bind_of_error (orLifecycle_of_err hfile)] at hrun
    obtain rfl := (Prod.mk.inj hrun).2
    exact hfiles

end

/-- What keeps the old seed through a change of password, once that has read it and begun: the new
file is written and read again, or what was written opens under the old password too. -/
def Replaces (W : SeedWorld) (p new : String) (s seed : WalletSeed) (removeBackup : Bool) (n : Nat) :
    Prop :=
  Rewritable W seed new n ∧
    (Confirmed W removeBackup (n + 3) ∨ SameKey W (n + 1) p new ∧ seed = s)

/-- A failed change of password keeps the seed exactly if it failed before the seed file was renamed,
or the file was written anew. -/
theorem changePassword_keepsSeed_iff (hW : W.Obeys) {d : Home} {p : String} {s : WalletSeed} (hopens : Opens W d p s)
    (dir old new : String) (removeBackup : Bool) :
    KeepsSeed W (DefaultLCProvider.changePassword W dir old new removeBackup) d p s ↔
      ∀ seed, Opens W d old seed → W.fromEntropy seed.bytes ≠ none → Succeed W d.ops 4 →
        Replaces W p new s seed removeBackup (d.ops + 4) := by
  obtain ⟨text, -, hg, -, -⟩ := id hopens
  constructor
  · intro hkeeps seed hold hm hbegun
    obtain ⟨mnemonic, hm⟩ := Option.ne_none_iff_exists'.1 hm
    obtain ⟨name, hname, hrun⟩ :=
      @changePassword_begins _ dir _ new removeBackup _ _ _ _ hg hold hm hbegun
    have hno : (backedUp (passed d 3) text name).files.get seedFile = none := backedUp_seedFile hname
    by_cases hw : Rewritable W seed new (d.ops + 4)
    · refine ⟨hw, ?_⟩
      by_cases hc : Confirmed W removeBackup (d.ops + 4 + 3)
      · exact .inl hc
      · obtain ⟨d₁, hwritten, -, hfails⟩ := @replaceSeed_runs _ dir new _ name removeBackup _
          (backedUp (passed d 3) text name) hW hno (by simp [backedUp]) hname hm hw
        obtain ⟨e, d', hrun', hfiles⟩ := hfails hc
        have hkept := (hkeeps e d' (hrun.trans hrun')).of_files hfiles.symm
        obtain ⟨hkey, hs⟩ := (hwritten.opens p s).1 hkept
        exact .inr ⟨hkey, hs.symm⟩
    · obtain ⟨e, d', hrun', hun⟩ := @replaceSeed_fails _ dir _ _ name removeBackup _ _ hW hno hm hw
      exact absurd (hkeeps e d' (hrun.trans hrun')) hun.not_opens
  · intro hcond e d' hrun
    by_cases hbegun : ∃ seed, Opens W d old seed ∧ W.fromEntropy seed.bytes ≠ none ∧
        Succeed W d.ops 4
    · obtain ⟨seed, hold, hm, hbegun⟩ := hbegun
      obtain ⟨hw, hrest⟩ := hcond seed hold hm hbegun
      obtain ⟨mnemonic, hm⟩ := Option.ne_none_iff_exists'.1 hm
      obtain ⟨name, hname, heq⟩ :=
        @changePassword_begins _ dir _ new removeBackup _ _ _ _ hg hold hm hbegun
      obtain ⟨d₁, hwritten, hruns, hfails⟩ := @replaceSeed_runs _ dir new _ name removeBackup _
        (backedUp (passed d 3) text name) hW (backedUp_seedFile hname) (by simp [backedUp]) hname hm hw
      by_cases hc : Confirmed W removeBackup (d.ops + 4 + 3)
      · obtain ⟨d₂, hrun'⟩ := hruns hc
        rw [heq, hrun'] at hrun
        cases hrun
      · obtain ⟨hkey, rfl⟩ := hrest.resolve_left hc
        obtain ⟨e₂, d₂, hrun', hfiles⟩ := hfails hc
        rw [heq, hrun'] at hrun
        obtain rfl := (Prod.mk.inj hrun).2
        exact ((hwritten.opens p seed).2 ⟨hkey, rfl⟩).of_files hfiles
    · refine hopens.of_files (changePassword_refused hg (fun seed hold hm hs => ?_) hrun)
      exact hbegun ⟨seed, hold, hm, hs⟩

/-- Failed seed operations keep the old wallet exactly when they fail before the seed file is renamed,
or when they wrote a seed file that opens as the old one did. -/
theorem keepsSeed_iff (hW : W.Obeys) {d : Home} {p : String} {s : WalletSeed} (hhere : d.here = true)
    (hopens : Opens W d p s) (dir : String) :
    (∀ phrase password, KeepsSeed W (WalletSeed.recoverFromPhrase W dir phrase password) d p s ↔
      W.faults.error d.ops ≠ none ∨
        ∃ seed, W.toEntropy phrase = some seed ∧ Writable W ⟨seed⟩ password (d.ops + 1)) ∧
    ∀ old new removeBackup,
      KeepsSeed W (DefaultLCProvider.changePassword W dir old new removeBackup) d p s ↔
        ∀ seed, Opens W d old seed → W.fromEntropy seed.bytes ≠ none → Succeed W d.ops 4 →
          Replaces W p new s seed removeBackup (d.ops + 4) :=
  ⟨recoverFromPhrase_keepsSeed_iff hW hhere hopens dir,
    changePassword_keepsSeed_iff hW hopens dir⟩

/-- The seed of sixteen zero bytes, encrypted under "secret". -/
def plainFile : EncryptedWalletSeed :=
  ⟨String.ofList (PlainWorld.hexDigits (PlainWorld.lock "secret".toUTF8.toList (List.replicate 16 0))),
    String.ofList (PlainWorld.hexDigits (List.replicate 8 0)),
    String.ofList (PlainWorld.hexDigits (List.replicate 12 0))⟩

/-- The directory of a wallet with that seed. -/
def plainHome : Home :=
  ⟨true, Rows.put .empty seedFile (PlainWorld.toStringPretty plainFile), some .initNoScanning, 0⟩

theorem plainHome_opens (faults : Faults SeedError) :
    Opens (plainWorld faults) plainHome "secret" ⟨List.replicate 16 0⟩ :=
  ⟨_, plainFile, Rows.get_put_self .., PlainWorld.fromStr_toStringPretty plainFile,
    @decrypt_sealedSeed _ (plainWorld_obeys faults) 0 _ _ _ rfl⟩

/-- A phrase that is no mnemonic: the recovery fails, and the seed file is gone. -/
theorem recoverFromPhrase_loses_seed :
    Opens (plainWorld noFaults) plainHome "secret" ⟨List.replicate 16 0⟩ ∧
      ¬KeepsSeed (plainWorld noFaults)
        (WalletSeed.recoverFromPhrase (plainWorld noFaults) "wallet_data" "abandon" "secret")
        plainHome "secret" ⟨List.replicate 16 0⟩ := by
  have hopens := plainHome_opens noFaults
  refine ⟨hopens, fun h => ?_⟩
  rcases (recoverFromPhrase_keepsSeed_iff (plainWorld_obeys noFaults) rfl hopens _ _ _).1 h with
    hcon | ⟨seed, hseed, -⟩
  · exact hcon rfl
  · cases hseed

theorem keepsSeed_iff_plain :
    Opens (plainWorld noFaults) plainHome "secret" ⟨List.replicate 16 0⟩ ∧
      KeepsSeed (plainWorld noFaults) (WalletSeed.recoverFromPhrase (plainWorld noFaults) "wallet_data"
        PlainWorld.phrase "other") plainHome "secret" ⟨List.replicate 16 0⟩ ∧
      KeepsSeed (plainWorld noFaults) (DefaultLCProvider.changePassword (plainWorld noFaults)
        "wallet_data" "secret" "other" true) plainHome "secret" ⟨List.replicate 16 0⟩ := by
  have hopens := plainHome_opens noFaults
  obtain ⟨hrecover, hchange⟩ :=
    keepsSeed_iff (plainWorld_obeys noFaults) (d := plainHome) rfl hopens "wallet_data"
  refine ⟨hopens, (hrecover _ _).2 (.inr ⟨List.replicate 16 0, rfl, rfl, rfl, rfl⟩),
    (hchange _ _ _).2 fun seed hold _ _ => ?_⟩
  exact ⟨⟨rfl, rfl, rfl, rfl⟩, .inl ⟨fun _ _ => rfl, fun _ => rfl⟩⟩

end EpicWallet
