import EpicWallet.Impls.BatchSession

/-!
# The output history

`save` and `delete` write the version of an output they replace or remove to the history, unless the history
has it already; two versions are taken for the same one with their keys aside. If the cached commitment of an
output tells its key and its value, that is no mistake, and whatever a sequence of operations on a batch does,
finished or failed, the history has every version that went and every row it ever had
(`archived_of_run`). What carries it (`Filed`): the rows of the history are numbered below its counter, and
each version is one of an output that was given to be kept.
-/

namespace EpicWallet

open Lib

namespace BatchOp

/-- The output an operation is given to keep. -/
def given : BatchOp → Option OutputData
  | save out => some out
  | saveOutputHistory out => some out
  | lockOutput out => some out
  | _ => none

/-- Among some outputs the cached commitment tells the key and the value. -/
def Committing (l : List OutputData) : Prop :=
  ∀ o ∈ l, ∀ o' ∈ l, o.commit = o'.commit → o.keyId = o'.keyId ∧ o.value = o'.value

/-- A version of an output of the list. -/
def Known (l : List OutputData) (o : OutputData) : Prop :=
  ∃ o' ∈ l, o'.commit = o.commit ∧ o'.keyId = o.keyId ∧ o'.value = o.value

theorem Known.keyId_eq {l : List OutputData} {o o' : OutputData} (hl : Committing l) (h : Known l o)
    (h' : Known l o') (hcommit : o.commit = o'.commit) : o.keyId = o'.keyId := by
  obtain ⟨p, hp, hpc, hpk, -⟩ := h
  obtain ⟨p', hp', hpc', hpk', -⟩ := h'
  have hsame := hl p hp p' hp' (by rw [hpc, hpc', hcommit])
  rw [← hpk, ← hpk', hsame.1]

/-! ### What a store keeps -/

theorem mem_historyOf {d : Rows Key Serializable} {o : OutputData} :
    o ∈ historyOf d ↔ ∃ n, d.get (.outputHistory n) = some (.outputData o) := by
  unfold historyOf
  simp only [List.mem_filterMap, mem_rowsOf, Serializable.asOutputData_eq]
  constructor
  · rintro ⟨_, ⟨k, hk, hg⟩, rfl⟩
    cases k <;> cases hk
    exact ⟨_, hg⟩
  · rintro ⟨n, hg⟩
    exact ⟨_, ⟨_, rfl, hg⟩, rfl⟩

/-- The history of a store is numbered below the counter, outputs are stored under their key, and all
versions are of known outputs. -/
structure Filed (l : List OutputData) (d : Rows Key Serializable) : Prop where
  numbered : ∀ n v, d.get (.outputHistory n) = some v → n < asU32 (numericOf d .outputHistoryId)
  outputs : ∀ id m o, d.get (.output id m) = some (.outputData o) → o.keyId = id ∧ Known l o
  history : ∀ n o, d.get (.outputHistory n) = some (.outputData o) → Known l o

/-- Every row of the history is still there. -/
def Grows (d d' : Rows Key Serializable) : Prop :=
  ∀ n v, d.get (.outputHistory n) = some v → d'.get (.outputHistory n) = some v

theorem Grows.mem {d d' : Rows Key Serializable} (h : Grows d d') {o : OutputData}
    (ho : o ∈ historyOf d) : o ∈ historyOf d' := by
  obtain ⟨n, hn⟩ := mem_historyOf.1 ho
  exact mem_historyOf.2 ⟨n, h n _ hn⟩

/-- A step keeps the store filed, and its history. -/
def Files (l : List OutputData) (w w' : Wallet) : Prop :=
  Filed l w.db → Filed l w'.db ∧ Grows w.db w'.db

variable {l : List OutputData}

instance : Std.Refl (Files l) := ⟨fun _ h => ⟨h, fun _ _ hn => hn⟩⟩

instance : IsTrans Wallet (Files l) where
  trans _ _ _ h h' ha :=
    let ⟨hb, hab⟩ := h ha
    let ⟨hc, hbc⟩ := h' hb
    ⟨hc, fun n v hn => hbc n v (hab n v hn)⟩

theorem files_of_get {w w' : Wallet} (hhistory : ∀ k, k.isHistory = true → w'.db.get k = w.db.get k)
    (houtputs : ∀ id m o, w'.db.get (.output id m) = some (.outputData o) →
      w.db.get (.output id m) = some (.outputData o) ∨ o.keyId = id ∧ Known l o) : Files l w w' :=
  fun h => by
    refine ⟨⟨fun n v hn => ?_, fun id m o ho => ?_, fun n o hn => ?_⟩, fun n v hn => ?_⟩
    · rw [hhistory _ rfl] at hn
      unfold numericOf
      rw [hhistory _ rfl]
      exact h.numbered n v hn
    · exact (houtputs id m o ho).elim (h.outputs id m o) fun hnew => hnew
    · rw [hhistory _ rfl] at hn
      exact h.history n o hn
    · rw [hhistory _ rfl]
      exact hn

/-- A row that is no part of the history may be written, if what it holds of an output is known. -/
theorem put_files {k : Key} (hk : k.isHistory = false) {v : Serializable}
    (hv : ∀ id m o, k = .output id m → v = .outputData o → o.keyId = id ∧ Known l o) :
    Prog.Keeps (Files l) (put k v) := fun w => by
  unfold put
  split
  · refine files_of_get (fun k' hk' => Rows.get_put_ne _ _ ?_) fun id m o ho => ?_
    · rintro rfl
      exact Bool.noConfusion (hk.symm.trans hk')
    · rw [Rows.get_put] at ho
      split at ho
      · next hkey => exact .inr (hv id m o hkey.symm (Option.some.inj ho))
      · exact .inl ho
  · exact Std.Refl.refl w

theorem deleteRow_files {k : Key} (hk : k.isHistory = false) :
    Prog.Keeps (Files l) (deleteRow k) := fun w => by
  refine files_of_get (fun k' hk' => Rows.get_erase_ne _ ?_) fun id m o ho => .inl ?_
  · rintro rfl
    exact Bool.noConfusion (hk.symm.trans hk')
  · have ho : (w.db.erase k).get (.output id m) = some (.outputData o) := ho
    rw [Rows.get_erase] at ho
    split at ho
    · cases ho
    · exact ho

/-! ### The steps of an operation -/

/-- A number that is handed out is that of no row. -/
theorem counted_files {w : Wallet} (hf : ¬Full w.db .outputHistoryId) : Files l w (counted w) := fun h => by
  have hget : ∀ k, k ≠ .outputHistoryId → (counted w).db.get k = w.db.get k := fun k hk =>
    Rows.get_put_ne _ _ hk
  refine ⟨⟨fun n v hn => ?_, fun id m o ho => ?_, fun n o hn => ?_⟩, fun n v hn => ?_⟩
  · rw [hget _ (by simp)] at hn
    have := h.numbered n v hn
    have := historyCount_counted hf
    unfold historyCount at this
    omega
  · rw [hget _ (by simp)] at ho
    exact h.outputs id m o ho
  · rw [hget _ (by simp)] at hn
    exact h.history n o hn
  · rw [hget _ (by simp)]
    exact hn

theorem nextOutputHistoryId_files :
    Prog.Keeps (Files l) (do let _ ← Batch.nextOutputHistoryId : WalletM Unit) := fun w => by
  show Files l w ((do let _ ← counter .outputHistoryId : WalletM Unit) w).2
  by_cases hf : Full w.db .outputHistoryId
  · rw [Prog.bind_of_error (counter_of_full hf)]
    exact Std.Refl.refl w
  · rw [Prog.bind_of_ok (counter_of_not_full hf)]
    exact counted_files hf

/-- A version that is registered is in the history under its own key. -/
theorem mem_of_registered {d : Rows Key Serializable} {out : OutputData} (hl : Committing l)
    (hd : Filed l d) (hout : Known l out) (hr : Batch.registered d out = true) : out ∈ historyOf d := by
  unfold Batch.registered at hr
  obtain ⟨o, ho, hsame⟩ := List.any_eq_true.1 hr
  have hsame : { o with keyId := out.keyId } = out := of_decide_eq_true hsame
  obtain ⟨n, hn⟩ := mem_historyOf.1 ho
  have hkey : o.keyId = out.keyId := (hd.history n o hn).keyId_eq hl hout (by rw [← hsame])
  rw [← hsame, ← hkey]
  exact ho

/-- `save_output_history` loses nothing, and if it returns, the history has the version. -/
theorem saveOutputHistory_files (out : OutputData) {w : Wallet} (hl : Committing l)
    (hd : Filed l w.db) (hout : Known l out) :
    Files l w (Batch.saveOutputHistory out w).2 ∧
    ((Batch.saveOutputHistory out w).1 = .ok () → out ∈ historyOf (Batch.saveOutputHistory out w).2.db) := by
  unfold Batch.saveOutputHistory
  rw [Prog.bind_of_ok (rows_apply w)]
  split_ifs with hr
  · exact ⟨Std.Refl.refl w, fun _ => mem_of_registered hl hd hout hr⟩
  by_cases hf : Full w.db .outputHistoryId
  · have ha : Prog.attempt Batch.nextOutputHistoryId w = (.error .panic, w) := by
      show Prog.attempt (counter .outputHistoryId) w = _
      unfold Prog.attempt
      rw [counter_of_full hf]
    rw [Prog.bind_of_error ha]
    exact ⟨Std.Refl.refl w, nofun⟩
  rw [Prog.bind_of_ok (attempt_nextOutputHistoryId hf)]
  show Files l w (put (.outputHistory (historyCount w)) (.outputData out) (counted w)).2 ∧ _
  unfold put
  split
  · -- the new row's number is that of no row, so none is overwritten
    have hcounted := counted_files (l := l) hf
    have hnew : ∀ n v, w.db.get (.outputHistory n) = some v → n ≠ historyCount w := by
      rintro n v hn rfl
      exact Nat.lt_irrefl _ (hd.numbered _ _ hn)
    refine ⟨fun h => ⟨⟨fun n v hn => ?_, fun id m o ho => ?_, fun n o hn => ?_⟩, fun n v hn => ?_⟩, fun _ => ?_⟩
    · show n < asU32 (numericOf ((counted w).db.put _ _) .outputHistoryId)
      have hcount := historyCount_counted hf
      unfold historyCount at hcount
      unfold numericOf at hcount ⊢
      rw [Rows.get_put_ne _ _ (by simp), hcount]
      rw [Rows.get_put] at hn
      split at hn
      · next hkey =>
        obtain rfl := Key.outputHistory.inj hkey
        exact Nat.lt_succ_self _
      · exact Nat.lt_of_lt_of_eq ((hcounted h).1.numbered n v hn) hcount
    · exact (hcounted h).1.outputs id m o (by simpa [Rows.get_put_ne] using ho)
    · rw [Rows.get_put] at hn
      split at hn
      · obtain rfl := Serializable.outputData.inj (Option.some.inj hn)
        exact hout
      · exact (hcounted h).1.history n o hn
    · show ((counted w).db.put _ _).get _ = _
      rw [Rows.get_put_ne _ _ fun hkey => hnew n v hn (Key.outputHistory.inj hkey)]
      exact (hcounted h).2 n v hn
    · exact mem_historyOf.2 ⟨_, Rows.get_put_self ..⟩
  · refine ⟨counted_files hf, fun h => ?_⟩
    cases h

/-- Each version that is no longer stored is in the history. -/
def Archives (w w' : Wallet) : Prop :=
  ∀ id m previous, w.db.get (.output id m) = some (.outputData previous) →
    w'.db.get (.output id m) ≠ some (.outputData previous) → previous ∈ historyOf w'.db

theorem archives_of_get {w w' : Wallet}
    (h : ∀ id m, w'.db.get (.output id m) = w.db.get (.output id m)) : Archives w w' :=
  fun id m _ hw hw' => absurd ((h id m).trans hw) hw'

/-- What went at one key is in the history; nothing went at the others. -/
theorem archives_of_key {w w₁ w' : Wallet} (id₀ : Identifier) (m₀ : Option Nat)
    (hother : ∀ id m, ¬(id = id₀ ∧ m = m₀) → w'.db.get (.output id m) = w.db.get (.output id m))
    (hkey : ∀ previous, w.db.get (.output id₀ m₀) = some (.outputData previous) →
      w'.db.get (.output id₀ m₀) ≠ some (.outputData previous) → previous ∈ historyOf w₁.db)
    (hgrows : Grows w₁.db w'.db) : Archives w w' := fun id m previous hw hw' => by
  by_cases hsame : id = id₀ ∧ m = m₀
  · obtain ⟨rfl, rfl⟩ := hsame
    exact hgrows.mem (hkey previous hw hw')
  · exact absurd ((hother id m hsame).trans hw) hw'

theorem savePrevious_files (out : OutputData) {w : Wallet} (hl : Committing l) (hd : Filed l w.db) :
    Files l w (Batch.savePrevious out w).2 ∧
    ∀ previous, w.db.get (.output out.keyId out.mmrIndex) = some (.outputData previous) → previous ≠ out →
      (Batch.savePrevious out w).1 = .ok () → previous ∈ historyOf (Batch.savePrevious out w).2.db := by
  rcases h : w.db.get (.output out.keyId out.mmrIndex) with _ | v
  · have hs : Batch.savePrevious out w = (.ok (), w) := by
      unfold Batch.savePrevious
      rw [Prog.bind_of_ok (getOutput_of_none h)]
      rfl
    rw [hs]
    exact ⟨Std.Refl.refl w, nofun⟩
  by_cases hv : ∃ previous, v = .outputData previous
  · obtain ⟨previous, rfl⟩ := hv
    by_cases hsame : previous = out
    · subst hsame
      rw [savePrevious_of_eq h]
      refine ⟨Std.Refl.refl w, ?_⟩
      rintro _ ⟨⟩ hne
      exact absurd rfl hne
    · rw [savePrevious_of_ne h hsame]
      have hfiles := saveOutputHistory_files previous hl hd (hd.outputs _ _ _ h).2
      refine ⟨hfiles.1, ?_⟩
      rintro _ ⟨⟩ -
      exact hfiles.2
  · have hs : Batch.savePrevious out w = (.error .panic, w) :=
      Prog.bind_of_error (getOutput_of_other h (asOutputData_eq_none fun o ho => hv ⟨o, ho⟩))
    rw [hs]
    exact ⟨Std.Refl.refl w, fun _ _ _ => nofun⟩

/-- `save` stores the output, and the version it replaces is in the history. -/
theorem save_archives {out : OutputData} {w : Wallet} (hl : Committing l) (hd : Filed l w.db)
    (hout : Known l out) :
    Files l w (Batch.save out w).2 ∧ Archives w (Batch.save out w).2 := by
  obtain ⟨hfiles, hprevious⟩ := savePrevious_files out hl hd
  have honly := Batch.savePrevious_onlyHistory out w
  unfold Batch.save
  rw [Prog.bind_apply]
  rcases hrun : Batch.savePrevious out w with ⟨e | ⟨⟩, w₁⟩
  · rw [hrun] at hfiles honly
    exact ⟨hfiles, archives_of_get fun id m => honly.get _ rfl⟩
  rw [hrun] at hfiles hprevious honly
  have hput : Files l w₁ (put (.output out.keyId out.mmrIndex) (.outputData out) w₁).2 := by
    refine put_files rfl (fun id m o hkey ho => ?_) w₁
    cases hkey
    cases ho
    exact ⟨rfl, hout⟩
  refine ⟨IsTrans.trans _ _ _ hfiles hput, ?_⟩
  have hgrows := (hput (hfiles hd).1).2
  show Archives w (put (.output out.keyId out.mmrIndex) (.outputData out) w₁).2
  unfold put at hgrows ⊢
  split
  · next hplain =>
    rw [if_pos hplain] at hgrows
    refine archives_of_key out.keyId out.mmrIndex (fun id m hne => ?_)
      (fun previous hw hgone => ?_) hgrows
    · refine (Rows.get_put_ne _ _ fun hkey => hne ?_).trans (honly.get _ rfl)
      cases hkey
      exact ⟨rfl, rfl⟩
    · refine hprevious previous hw (fun hsame => hgone ?_) rfl
      rw [hsame]
      exact Rows.get_put_self ..
  · exact archives_of_get fun id m => honly.get _ rfl

/-- The version `delete` leaves of an output: deleted, by the transaction that cancelled it. -/
def deletedVersion (txId : Option Nat) (previous : OutputData) : OutputData :=
  { previous with status := .deleted, txLogEntry := txId }

theorem deletePrevious_files (id : Identifier) (m txId : Option Nat) {w : Wallet} (hl : Committing l)
    (hd : Filed l w.db) :
    Files l w (Batch.deletePrevious id m txId w).2 ∧
    ∀ previous, w.db.get (.output id m) = some (.outputData previous) →
      (Batch.deletePrevious id m txId w).1 = .ok () →
      previous ∈ historyOf (Batch.deletePrevious id m txId w).2.db ∧
      deletedVersion txId previous ∈ historyOf (Batch.deletePrevious id m txId w).2.db := by
  rcases h : w.db.get (.output id m) with _ | v
  · have hs : Batch.deletePrevious id m txId w = (.ok (), w) := by
      unfold Batch.deletePrevious
      rw [Prog.bind_of_ok (getOutput_of_none h)]
      rfl
    rw [hs]
    exact ⟨Std.Refl.refl w, nofun⟩
  by_cases hv : ∃ previous, v = .outputData previous
  · obtain ⟨previous, rfl⟩ := hv
    have hknown := (hd.outputs _ _ _ h).2
    obtain ⟨hfirst, hmem⟩ := saveOutputHistory_files previous hl hd hknown
    rw [deletePrevious_of_output txId h, Prog.bind_apply]
    rcases hrun : Batch.saveOutputHistory previous w with ⟨e | ⟨⟩, w₁⟩
    · rw [hrun] at hfirst
      exact ⟨hfirst, fun _ _ => nofun⟩
    rw [hrun] at hfirst hmem
    obtain ⟨hsecond, hmem'⟩ := saveOutputHistory_files (deletedVersion txId previous) (w := w₁)
      hl (hfirst hd).1 hknown
    refine ⟨IsTrans.trans _ _ _ hfirst hsecond, ?_⟩
    rintro _ ⟨⟩ hok
    exact ⟨(hsecond (hfirst hd).1).2.mem (hmem rfl), hmem' hok⟩
  · have hs : Batch.deletePrevious id m txId w = (.error .panic, w) :=
      Prog.bind_of_error (getOutput_of_other h (asOutputData_eq_none fun o ho => hv ⟨o, ho⟩))
    rw [hs]
    exact ⟨Std.Refl.refl w, fun _ _ => nofun⟩

/-- `delete` removes the output, and both its last version and a deleted one are in the history. -/
theorem delete_archives (id : Identifier) (m txId : Option Nat) {w : Wallet} (hl : Committing l)
    (hd : Filed l w.db) :
    Files l w (Batch.delete id m txId w).2 ∧ Archives w (Batch.delete id m txId w).2 ∧
    ∀ previous, w.db.get (.output id m) = some (.outputData previous) →
      (Batch.delete id m txId w).1 = .ok () →
      deletedVersion txId previous ∈ historyOf (Batch.delete id m txId w).2.db := by
  obtain ⟨hfiles, hprevious⟩ := deletePrevious_files id m txId hl hd
  have honly := Batch.deletePrevious_onlyHistory id m txId w
  unfold Batch.delete
  rw [Prog.bind_apply]
  rcases hrun : Batch.deletePrevious id m txId w with ⟨e | ⟨⟩, w₁⟩
  · rw [hrun] at hfiles honly
    exact ⟨hfiles, archives_of_get fun id m => honly.get _ rfl, fun _ _ => nofun⟩
  rw [hrun] at hfiles hprevious honly
  have hgone : Files l w₁ (deleteRow (.output id m) w₁).2 := deleteRow_files rfl w₁
  have hgrows := (hgone (hfiles hd).1).2
  refine ⟨IsTrans.trans _ _ _ hfiles hgone, ?_, fun previous hw _ =>
    hgrows.mem (hprevious previous hw rfl).2⟩
  refine archives_of_key id m (fun id' m' hne => ?_)
    (fun previous hw _ => (hprevious previous hw rfl).1) hgrows
  refine (Rows.get_erase_ne _ fun hkey => hne ?_).trans (honly.get _ rfl)
  cases hkey
  exact ⟨rfl, rfl⟩

/-! ### Runs -/

variable {W : World} {b : Batch}

/-- The rows of outputs and of their history are as they were. -/
def Spares (w w' : Wallet) : Prop :=
  ∀ k : Key, k.isHistory = true ∨ k.asOutput = true → w'.db.get k = w.db.get k

instance : Std.Refl Spares := ⟨fun _ _ _ => rfl⟩

instance : IsTrans Wallet Spares := ⟨fun _ _ _ h h' k hk => (h' k hk).trans (h k hk)⟩

theorem put_spares {k : Key} (hk : k.isHistory = false) (hk' : k.asOutput = false) (v : Serializable) :
    Prog.Keeps Spares (put k v) := fun w => by
  unfold put
  split
  · intro k' h
    refine Rows.get_put_ne _ _ ?_
    rintro rfl
    simp [hk, hk'] at h
  · exact Std.Refl.refl w

theorem deleteRow_spares {k : Key} (hk : k.isHistory = false) (hk' : k.asOutput = false) :
    Prog.Keeps Spares (deleteRow k) := fun w k' h => by
  refine Rows.get_erase_ne _ ?_
  rintro rfl
  simp [hk, hk'] at h

theorem Spares.archives {w w' : Wallet} (h : Spares w w') : Files l w w' ∧ Archives w w' := by
  refine ⟨files_of_get (fun k hk => h k (.inl hk)) fun id m o ho => .inl ?_,
    archives_of_get fun id m => h _ (.inr rfl)⟩
  rwa [h _ (.inr rfl)] at ho

/-- What an operation does to the outputs and their history. -/
theorem run_archives {op : BatchOp} {w : Wallet} (hl : Committing l) (hgiven : ∀ out ∈ op.given, out ∈ l)
    (hd : Filed l w.db) :
    Files l w (op.run W b w).2 ∧ Archives w (op.run W b w).2 := by
  have hknown : ∀ out ∈ op.given, Known l out := fun out h => ⟨out, hgiven out h, rfl, rfl, rfl⟩
  cases op with
  | get id m =>
    have hreads : Prog.Keeps Spares (do let _ ← getOutput id m : WalletM Unit) :=
      (getOutput_reads id m).keeps.bind fun _ => .pure ()
    exact (hreads w).archives
  | save out => exact save_archives hl hd (hknown out rfl)
  | saveOutputHistory out =>
    exact ⟨(saveOutputHistory_files out hl hd (hknown out rfl)).1,
      archives_of_get fun id m => (Batch.saveOutputHistory_onlyHistory out w).get _ rfl⟩
  | delete id m txId =>
    obtain ⟨hfiles, harchives, -⟩ := delete_archives id m txId hl hd
    exact ⟨hfiles, harchives⟩
  | nextOutputHistoryId =>
    have honly : Prog.Keeps OnlyHistory (do let _ ← Batch.nextOutputHistoryId : WalletM Unit) :=
      Batch.nextOutputHistoryId_onlyHistory.bind fun _ => .pure ()
    exact ⟨nextOutputHistoryId_files w, archives_of_get fun id m => (honly w).get _ rfl⟩
  | nextTxLogId parent =>
    have hspares : Prog.Keeps Spares (do let _ ← counter (.txLogId parent) : WalletM Unit) :=
      (rows_reads.keeps.bind fun _ => (addU32_reads _ _).keeps.bind fun _ =>
        (put_spares rfl rfl _).bind fun _ => .pure _).bind fun _ => .pure ()
    exact (hspares w).archives
  | lockOutput out => exact save_archives hl hd (hknown out rfl)
  | savePrivateContext slateId participantId ctx =>
    have hspares : Prog.Keeps Spares (b.savePrivateContext W slateId participantId ctx) :=
      (Prog.Keeps.unwrap _).bind fun _ => (Prog.Keeps.ofExcept _).bind fun _ => put_spares rfl rfl _
    exact (hspares w).archives
  | deletePrivateContext slateId participantId => exact (deleteRow_spares rfl rfl w).archives
  | _ => exact (put_spares rfl rfl _ w).archives

/-- The wallet after some operations, whether they return or fail. -/
def runAll (W : World) (b : Batch) : List BatchOp → Wallet → Wallet
  | [], w => w
  | op :: ops, w => runAll W b ops (op.run W b w).2

/-- A run keeps the store filed and every row of the history. -/
theorem runAll_files (hl : Committing l) :
    ∀ {ops : List BatchOp} {w : Wallet}, (∀ op ∈ ops, ∀ out ∈ op.given, out ∈ l) → Filed l w.db →
      Filed l (runAll W b ops w).db ∧ Grows w.db (runAll W b ops w).db
  | [], _, _, hd => ⟨hd, fun _ _ h => h⟩
  | op :: ops, w, hgiven, hd => by
    obtain ⟨hfiled, hgrows⟩ := (run_archives (W := W) (b := b) hl (hgiven op List.mem_cons_self) hd).1 hd
    obtain ⟨hfiled', hgrows'⟩ :=
      runAll_files hl (fun op' h => hgiven op' (List.mem_cons_of_mem _ h)) hfiled
    exact ⟨hfiled', fun n v h => hgrows' n v (hgrows n v h)⟩

/-- The store of a new wallet has neither outputs nor a history. -/
theorem opened_filed (k : Keychain) (checksum : Nat) : Filed l (WalletBackend.opened k checksum).db := by
  have hget : ∀ key, key ≠ .accountPathMapping "default" →
      (WalletBackend.opened k checksum).db.get key = none := fun key hkey =>
    Rows.get_put_ne _ _ hkey
  refine ⟨fun n v h => ?_, fun id m o h => ?_, fun n o h => ?_⟩
  · rw [hget _ (by simp)] at h
    cases h
  · rw [hget _ (by simp)] at h
    cases h
  · rw [hget _ (by simp)] at h
    cases h

/-- In every sequence of operations on a new wallet, if the cached commitments tell the keys and values
of the outputs, the version of an output that an operation replaces or removes is in the history from then
on, under its own key; so is a deleted version, with the transaction, of an output that was deleted; and no
row of the history is lost or overwritten. -/
theorem archived_of_run (W : World) (b : Batch) (k : Keychain) (checksum : Nat) (before : List BatchOp)
    (op : BatchOp) (after : List BatchOp) (hcommit : Committing ((before ++ op :: after).filterMap given)) :
    let found := runAll W b before (WalletBackend.opened k checksum)
    let left := (op.run W b found).2
    let last := runAll W b after left
    (∀ id m previous, found.db.get (.output id m) = some (.outputData previous) →
      left.db.get (.output id m) ≠ some (.outputData previous) →
      previous.keyId = id ∧ previous ∈ historyOf last.db) ∧
    (∀ id m txId previous, op = .delete id m txId → (op.run W b found).1 = .ok () →
      found.db.get (.output id m) = some (.outputData previous) →
      { previous with status := .deleted, txLogEntry := txId } ∈ historyOf last.db) ∧
    ∀ n v, found.db.get (.outputHistory n) = some v → last.db.get (.outputHistory n) = some v := by
  intro found left last
  have hgiven : ∀ op' ∈ before ++ op :: after, ∀ out ∈ op'.given,
      out ∈ (before ++ op :: after).filterMap given := fun op' hop' out hout =>
    List.mem_filterMap.2 ⟨op', hop', hout⟩
  have hlater : ∀ op' ∈ op :: after, op' ∈ before ++ op :: after := fun op' => List.mem_append_right _
  have hfound : Filed _ found.db := (runAll_files hcommit
    (fun op' h => hgiven op' (List.mem_append_left _ h)) (opened_filed k checksum)).1
  obtain ⟨hfiles, harchives⟩ := run_archives (W := W) (b := b) hcommit
    (hgiven op (hlater op List.mem_cons_self)) hfound
  have hlast : Grows left.db last.db := (runAll_files hcommit
    (fun op' h => hgiven op' (hlater op' (List.mem_cons_of_mem _ h))) (hfiles hfound).1).2
  refine ⟨fun id m previous hprevious hgone => ?_, fun id m txId previous hop hok hprevious => ?_,
    fun n v h => hlast n v ((hfiles hfound).2 n v h)⟩
  · exact ⟨(hfound.outputs id m previous hprevious).1, hlast.mem (harchives id m previous hprevious hgone)⟩
  · subst hop
    exact hlast.mem ((delete_archives id m txId hcommit hfound).2.2 previous hprevious hok)

/-- An output that was received. -/
def received : OutputData where
  rootKeyId := WalletBackend.defaultPath
  keyId := Identifier.derive 3 0 0 1 0
  nChild := 1
  commit := some "08aa"
  mmrIndex := none
  value := 7
  status := .unconfirmed
  height := 0
  lockHeight := 0
  isCoinbase := false
  txLogEntry := some 0

/-- The output is received, confirmed, and deleted by the transaction 2. -/
theorem archived_of_run_confirmed :
    let found := runAll World.small ⟨none⟩ [.save received] (WalletBackend.opened ⟨5⟩ 5)
    let left := (run World.small ⟨none⟩ (.save { received with status := .unspent }) found).2
    let last := runAll World.small ⟨none⟩ [.delete received.keyId none (some 2)] left
    (∀ id m previous, found.db.get (.output id m) = some (.outputData previous) →
      left.db.get (.output id m) ≠ some (.outputData previous) →
      previous.keyId = id ∧ previous ∈ historyOf last.db) ∧
    (∀ id m txId previous, BatchOp.save { received with status := .unspent } = .delete id m txId →
      (run World.small ⟨none⟩ (.save { received with status := .unspent }) found).1 = .ok () →
      found.db.get (.output id m) = some (.outputData previous) →
      { previous with status := .deleted, txLogEntry := txId } ∈ historyOf last.db) ∧
    ∀ n v, found.db.get (.outputHistory n) = some v → last.db.get (.outputHistory n) = some v :=
  archived_of_run World.small ⟨none⟩ ⟨5⟩ 5 [.save received] (.save { received with status := .unspent })
    [.delete received.keyId none (some 2)] (by unfold Committing; decide)

end BatchOp

end EpicWallet
