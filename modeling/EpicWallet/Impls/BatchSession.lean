import EpicWallet.Impls.Lmdb

/-!
# Batches that are dropped

A session is a batch used for a sequence of operations, up to the first that fails; then it is
dropped or committed. The source calls a batch atomic: its changes are "committed all at once or
discarded on error".

* `session_commit`: committing writes nothing, the store has what the operations wrote.
* `atomic_iff`: dropping a batch leaves the store as it was, at every point of the session, exactly
  if no operation that is reached writes a row that is not there already (`Quiet`). So a counter
  handed out, an output changed or an entry added stays.
-/

namespace EpicWallet

open Lib

/-- The operations of `WalletOutputBatch`. -/
inductive BatchOp where
  | get (id : Identifier) (mmrIndex : Option Nat)
  | save (out : OutputData)
  | saveOutputHistory (out : OutputData)
  | delete (id : Identifier) (mmrIndex txId : Option Nat)
  | nextOutputHistoryId
  | nextTxLogId (parent : Identifier)
  | saveLastConfirmedHeight (parent : Identifier) (height : Nat)
  | saveLastScannedBlock (info : ScannedBlockInfo)
  | saveInitStatus (value : WalletInitStatus)
  | saveChildIndex (parent : Identifier) (childN : Nat)
  | saveTxLogEntry (txIn : TxLogEntry) (parent : Identifier)
  | saveAcctPath (mapping : AcctPathMapping)
  | lockOutput (out : OutputData)
  | savePrivateContext (slateId : Uuid) (participantId : Nat) (ctx : Context)
  | deletePrivateContext (slateId : Uuid) (participantId : Nat)

namespace BatchOp

variable (W : World) (b : Batch)

def run : BatchOp → WalletM Unit
  | get id mmrIndex => do let _ ← getOutput id mmrIndex
  | save out => Batch.save out
  | saveOutputHistory out => Batch.saveOutputHistory out
  | delete id mmrIndex txId => Batch.delete id mmrIndex txId
  | nextOutputHistoryId => do let _ ← Batch.nextOutputHistoryId
  | nextTxLogId parent => do let _ ← Batch.nextTxLogId parent
  | saveLastConfirmedHeight parent height => Batch.saveLastConfirmedHeight parent height
  | saveLastScannedBlock info => Batch.saveLastScannedBlock info
  | saveInitStatus value => Batch.saveInitStatus value
  | saveChildIndex parent childN => Batch.saveChildIndex parent childN
  | saveTxLogEntry txIn parent => Batch.saveTxLogEntry txIn parent
  | saveAcctPath mapping => Batch.saveAcctPath mapping
  | lockOutput out => Batch.lockOutput out
  | savePrivateContext slateId participantId ctx =>
    b.savePrivateContext W slateId participantId ctx
  | deletePrivateContext slateId participantId => Batch.deletePrivateContext slateId participantId

/-! ## Operations that write nothing new -/

/-- The value is stored already, or it is refused. -/
def PutQuiet (d : Rows Key Serializable) (k : Key) (v : Serializable) : Prop :=
  v.Plain → d.get k = some v

/-- The counter stands at its last value, so the next increment is an overflow. -/
def Full (d : Rows Key Serializable) (counter : Key) : Prop :=
  u32Size ≤ asU32 (numericOf d counter) + 1

/-- `save_output_history` has nothing to write. -/
def HistoryQuiet (d : Rows Key Serializable) (out : OutputData) : Prop :=
  Batch.registered d out = true ∨ Full d .outputHistoryId

/-- `save` has nothing to write: it fails before its first write, or finds what it would store. -/
def SaveQuiet (d : Rows Key Serializable) (out : OutputData) : Prop :=
  match d.get (.output out.keyId out.mmrIndex) with
  | some (.outputData previous) => previous = out ∨
      (HistoryQuiet d previous ∧ (Batch.registered d previous = true → ¬(Serializable.outputData out).Plain))
  | some _ => True
  | none => ¬(Serializable.outputData out).Plain

/-- `delete` has nothing to write: there is no such row, or the history is full. -/
def DeleteQuiet (d : Rows Key Serializable) (id : Identifier) (mmrIndex txId : Option Nat) : Prop :=
  match d.get (.output id mmrIndex) with
  | some (.outputData previous) => Full d .outputHistoryId ∧
      ¬(Batch.registered d previous = true ∧
        Batch.registered d { previous with status := .deleted, txLogEntry := txId } = true)
  | _ => True

/-- On the store `d` the operation writes no row that is not there already. -/
def Quiet (d : Rows Key Serializable) : BatchOp → Prop
  | get _ _ => True
  | save out => SaveQuiet d out
  | saveOutputHistory out => HistoryQuiet d out
  | delete id mmrIndex txId => DeleteQuiet d id mmrIndex txId
  | nextOutputHistoryId => Full d .outputHistoryId
  | nextTxLogId parent => Full d (.txLogId parent)
  | saveLastConfirmedHeight parent height => PutQuiet d (.confirmedHeight parent) (.numeric height)
  | saveLastScannedBlock info => PutQuiet d .lastScannedBlock (.scannedBlockInfo info)
  | saveInitStatus value => PutQuiet d .walletInitStatus (.walletInitStatus value)
  | saveChildIndex parent childN => PutQuiet d (.deriv parent) (.numeric childN)
  | saveTxLogEntry txIn parent => PutQuiet d (.txLogEntry parent txIn.id) (.txLogEntry txIn)
  | saveAcctPath mapping => PutQuiet d (.accountPathMapping mapping.label) (.acctPathMapping mapping)
  | lockOutput out => SaveQuiet d out.lock
  | savePrivateContext slateId participantId ctx => ∀ k keys, b.keychain = some k →
      WalletBackend.privateCtxXorKeys W k slateId = .ok keys →
      d.get (.privateTxContext slateId participantId) = some (.context (WalletBackend.xorContext ctx keys))
  | deletePrivateContext slateId participantId => d.get (.privateTxContext slateId participantId) = none

/-- The program leaves the store of `w` as it is. -/
def Idle (p : WalletM Unit) (w : Wallet) : Prop := (p w).2.db = w.db

theorem put_idle {k : Key} {v : Serializable} {w : Wallet} : Idle (put k v) w ↔ PutQuiet w.db k v := by
  unfold Idle PutQuiet put
  split
  · simp only [*, true_implies]
    exact Rows.put_eq_self_iff
  · simp [*]

/-! ## Counters -/

/-- What `next_output_history_id` and `next_tx_log_id` do with their counter. -/
def counter (k : Key) : WalletM Nat := do
  let d ← rows
  let last := asU32 (numericOf d k)
  let n ← addU32 last 1
  put k (.numeric n)
  pure last

theorem counter_of_full {k : Key} {w : Wallet} (h : Full w.db k) :
    counter k w = (.error .panic, w) := by
  unfold Full at h
  unfold counter addU32
  rw [Prog.bind_of_ok (rows_apply w), if_neg (by omega)]
  rfl

theorem counter_of_not_full {k : Key} {w : Wallet} (h : ¬Full w.db k) :
    counter k w = (.ok (asU32 (numericOf w.db k)),
      { w with db := w.db.put k (.numeric (asU32 (numericOf w.db k) + 1)) }) := by
  unfold Full at h
  unfold counter addU32
  rw [Prog.bind_of_ok (rows_apply w), if_pos (by omega)]
  rfl

theorem numericOf_put_self (d : Rows Key Serializable) (k : Key) (n : Nat) :
    numericOf (d.put k (.numeric n)) k = n := by
  unfold numericOf
  rw [Rows.get_put_self]

theorem counter_idle {k : Key} {w : Wallet} :
    Idle (do let _ ← counter k) w ↔ Full w.db k := by
  by_cases hf : Full w.db k
  · refine iff_of_true ?_ hf
    unfold Idle
    rw [Prog.bind_of_error (counter_of_full hf)]
  · refine iff_of_false (fun h => ?_) hf
    unfold Idle at h
    rw [Prog.bind_of_ok (counter_of_not_full hf)] at h
    -- a store with the next number in it would count one further
    have hn : asU32 (numericOf (w.db.put k (.numeric (asU32 (numericOf w.db k) + 1))) k) =
        asU32 (numericOf w.db k) := congrArg (fun d => asU32 (numericOf d k)) h
    rw [numericOf_put_self] at hn
    unfold Full at hf
    unfold asU32 at hn hf
    rw [Nat.mod_eq_of_lt (a := numericOf w.db k % u32Size + 1) (by omega)] at hn
    omega

/-! ## The output history -/

/-- The number the output history gives out next. -/
def historyCount (w : Wallet) : Nat := asU32 (numericOf w.db .outputHistoryId)

/-- The counter of the output history does not go back. -/
def CountsOn (w w' : Wallet) : Prop := historyCount w ≤ historyCount w'

instance : Std.Refl CountsOn := ⟨fun _ => Nat.le_refl _⟩

instance : IsTrans Wallet CountsOn := ⟨fun _ _ _ => Nat.le_trans⟩

theorem historyCount_congr {w w' : Wallet}
    (h : w'.db.get .outputHistoryId = w.db.get .outputHistoryId) :
    historyCount w' = historyCount w := by
  unfold historyCount numericOf
  rw [h]

theorem put_countsOn {k : Key} (hk : k ≠ .outputHistoryId) (v : Serializable) :
    Prog.Keeps CountsOn (put k v) := fun w => by
  unfold put
  split
  · have e : historyCount { w with db := w.db.put k v } = historyCount w :=
      historyCount_congr (Rows.get_put_ne _ _ (Ne.symm hk))
    exact Nat.le_of_eq e.symm
  · exact Nat.le_refl _

theorem deleteRow_countsOn {k : Key} (hk : k ≠ .outputHistoryId) :
    Prog.Keeps CountsOn (deleteRow k) := fun w => by
  have e : historyCount { w with db := w.db.erase k } = historyCount w :=
    historyCount_congr (Rows.get_erase_ne _ (Ne.symm hk))
  exact Nat.le_of_eq e.symm

/-- The wallet after the output history gave out a number. -/
def counted (w : Wallet) : Wallet :=
  { w with db := w.db.put .outputHistoryId (.numeric (historyCount w + 1)) }

theorem attempt_nextOutputHistoryId {w : Wallet} (hf : ¬Full w.db .outputHistoryId) :
    Prog.attempt Batch.nextOutputHistoryId w = (.ok (.ok (historyCount w)), counted w) := by
  show Prog.attempt (counter .outputHistoryId) w = _
  unfold Prog.attempt
  rw [counter_of_not_full hf]
  rfl

theorem historyCount_counted {w : Wallet} (hf : ¬Full w.db .outputHistoryId) :
    historyCount (counted w) = historyCount w + 1 := by
  unfold Full at hf
  show asU32 (numericOf (w.db.put _ (.numeric (historyCount w + 1))) .outputHistoryId) = _
  rw [numericOf_put_self]
  exact Nat.mod_eq_of_lt (by unfold historyCount; omega)

/-- The three ways `save_output_history` goes. -/
theorem saveOutputHistory_cases (out : OutputData) (w : Wallet) :
    (Batch.registered w.db out = true ∧ Batch.saveOutputHistory out w = (.ok (), w)) ∨
    (Batch.registered w.db out = false ∧ Full w.db .outputHistoryId ∧
      Batch.saveOutputHistory out w = (.error .panic, w)) ∨
    (Batch.registered w.db out = false ∧ ¬Full w.db .outputHistoryId ∧
      historyCount w < historyCount (Batch.saveOutputHistory out w).2) := by
  unfold Batch.saveOutputHistory
  rw [Prog.bind_of_ok (rows_apply w)]
  cases hr : Batch.registered w.db out with
  | true => exact .inl ⟨rfl, rfl⟩
  | false =>
    right
    by_cases hf : Full w.db .outputHistoryId
    · have ha : Prog.attempt Batch.nextOutputHistoryId w = (.error .panic, w) := by
        show Prog.attempt (counter .outputHistoryId) w = _
        unfold Prog.attempt
        rw [counter_of_full hf]
      exact .inl ⟨rfl, hf, Prog.bind_of_error ha⟩
    · refine .inr ⟨rfl, hf, ?_⟩
      rw [if_neg (by simp), Prog.bind_of_ok (attempt_nextOutputHistoryId hf)]
      refine Nat.lt_of_lt_of_le ?_ (put_countsOn (by simp) _ (counted w))
      rw [historyCount_counted hf]
      exact Nat.lt_succ_self _

theorem saveOutputHistory_countsOn (out : OutputData) :
    Prog.Keeps CountsOn (Batch.saveOutputHistory out) := fun w => by
  rcases saveOutputHistory_cases out w with ⟨-, h⟩ | ⟨-, -, h⟩ | ⟨-, -, h⟩
  · rw [h]
    exact Nat.le_refl _
  · rw [h]
    exact Nat.le_refl _
  · exact Nat.le_of_lt h

/-- A step that counted the history on did not leave the store as it was. -/
theorem not_idle_of_count {p : WalletM Unit} {w : Wallet}
    (h : historyCount w < historyCount (p w).2) : ¬Idle p w := fun hi => by
  unfold historyCount at h
  rw [show (p w).2.db = w.db from hi] at h
  omega

theorem saveOutputHistory_idle {out : OutputData} {w : Wallet} :
    Idle (Batch.saveOutputHistory out) w ↔ HistoryQuiet w.db out := by
  unfold HistoryQuiet
  rcases saveOutputHistory_cases out w with ⟨hr, h⟩ | ⟨hr, hf, h⟩ | ⟨hr, hf, h⟩
  · exact iff_of_true (by unfold Idle; rw [h]) (.inl hr)
  · exact iff_of_true (by unfold Idle; rw [h]) (.inr hf)
  · exact iff_of_false (not_idle_of_count h) (by simp [hr, hf])

/-! ## Outputs -/

/-- After a step that left the store as it is and returned, the rest decides. -/
theorem idle_bind_of_ok {p : WalletM Unit} {f : Unit → WalletM Unit} {w : Wallet}
    (h : p w = (.ok (), w)) : Idle (p >>= f) w ↔ Idle (f ()) w := by
  unfold Idle
  rw [Prog.bind_of_ok h]

theorem idle_bind_of_error {p : WalletM Unit} {f : Unit → WalletM Unit} {w : Wallet}
    {e : Fault Error} (h : p w = (.error e, w)) : Idle (p >>= f) w := by
  unfold Idle
  rw [Prog.bind_of_error h]

/-- A step that counted the history on decides, if what follows does not count back. -/
theorem not_idle_bind {p : WalletM Unit} {f : Unit → WalletM Unit} {w : Wallet}
    (h : historyCount w < historyCount (p w).2) (hf : ∀ a, Prog.Keeps CountsOn (f a)) :
    ¬Idle (p >>= f) w := by
  refine not_idle_of_count (Nat.lt_of_lt_of_le h ?_)
  rw [Prog.bind_apply]
  rcases p w with ⟨_ | a, w₁⟩
  · exact Nat.le_refl _
  · exact hf a w₁

theorem getOutput_of_none {id : Identifier} {mmrIndex : Option Nat} {w : Wallet}
    (h : w.db.get (.output id mmrIndex) = none) :
    Prog.attempt (getOutput id mmrIndex) w =
      (.ok (.error (.notFoundErr ("Key Id: " ++ id.display))), w) := by
  unfold Prog.attempt getOutput
  rw [Prog.bind_of_ok (rows_apply w), h]
  rfl

theorem getOutput_of_other {id : Identifier} {mmrIndex : Option Nat} {w : Wallet} {v : Serializable}
    (h : w.db.get (.output id mmrIndex) = some v) (hv : v.asOutputData = none) :
    Prog.attempt (getOutput id mmrIndex) w = (.error .panic, w) := by
  unfold Prog.attempt getOutput
  rw [Prog.bind_of_ok (rows_apply w), h]
  simp only [hv, Prog.unwrap_none]

theorem getOutput_of_output {id : Identifier} {mmrIndex : Option Nat} {w : Wallet} {o : OutputData}
    (h : w.db.get (.output id mmrIndex) = some (.outputData o)) :
    Prog.attempt (getOutput id mmrIndex) w = (.ok (.ok o), w) := by
  unfold Prog.attempt
  rw [getOutput_ok.2 ⟨h, rfl⟩]

theorem asOutputData_eq_none {v : Serializable} (h : ∀ o, v ≠ .outputData o) :
    v.asOutputData = none := by
  cases v with
  | outputData o => exact absurd rfl (h o)
  | _ => rfl

/-- `save` over a stored output that differs. -/
theorem savePrevious_of_ne {out previous : OutputData} {w : Wallet}
    (h : w.db.get (.output out.keyId out.mmrIndex) = some (.outputData previous))
    (hne : previous ≠ out) : Batch.savePrevious out w = Batch.saveOutputHistory previous w := by
  unfold Batch.savePrevious
  rw [Prog.bind_of_ok (getOutput_of_output h)]
  simp only [if_pos hne]

theorem savePrevious_of_eq {out : OutputData} {w : Wallet}
    (h : w.db.get (.output out.keyId out.mmrIndex) = some (.outputData out)) :
    Batch.savePrevious out w = (.ok (), w) := by
  unfold Batch.savePrevious
  rw [Prog.bind_of_ok (getOutput_of_output h)]
  simp

theorem save_idle {out : OutputData} {w : Wallet} :
    Idle (Batch.save out) w ↔ SaveQuiet w.db out := by
  unfold Batch.save SaveQuiet
  split
  · next previous h =>
    by_cases hp : previous = out
    · subst hp
      rw [idle_bind_of_ok (savePrevious_of_eq h), put_idle]
      exact iff_of_true (fun _ => h) (.inl rfl)
    have hput : Idle (put (.output out.keyId out.mmrIndex) (.outputData out)) w ↔
        ¬(Serializable.outputData out).Plain := by
      rw [put_idle, PutQuiet, h]
      simp [hp]
    unfold HistoryQuiet
    rcases saveOutputHistory_cases previous w with ⟨hr, hs⟩ | ⟨hr, hf, hs⟩ | ⟨hr, hf, hs⟩
    · rw [idle_bind_of_ok ((savePrevious_of_ne h hp).trans hs), hput]
      simp [hp, hr]
    · exact iff_of_true (idle_bind_of_error ((savePrevious_of_ne h hp).trans hs))
        (.inr ⟨.inr hf, fun hr' => by simp [hr] at hr'⟩)
    · refine iff_of_false (not_idle_bind ?_ fun _ => put_countsOn (by simp) _) (by simp [hp, hr, hf])
      rwa [savePrevious_of_ne h hp]
  · next v hne h =>
    refine iff_of_true (idle_bind_of_error (e := .panic) ?_) trivial
    exact Prog.bind_of_error (getOutput_of_other h (asOutputData_eq_none hne))
  · next h =>
    have hs : Batch.savePrevious out w = (.ok (), w) := by
      unfold Batch.savePrevious
      rw [Prog.bind_of_ok (getOutput_of_none h)]
      rfl
    rw [idle_bind_of_ok hs, put_idle, PutQuiet, h]
    simp

theorem deleteRow_idle {k : Key} {w : Wallet} : Idle (deleteRow k) w ↔ w.db.get k = none :=
  Rows.erase_eq_self_iff

theorem deletePrevious_of_output {id : Identifier} {mmrIndex : Option Nat} (txId : Option Nat)
    {w : Wallet} {previous : OutputData} (h : w.db.get (.output id mmrIndex) = some (.outputData previous)) :
    Batch.deletePrevious id mmrIndex txId w = (do
      Batch.saveOutputHistory previous
      Batch.saveOutputHistory { previous with status := .deleted, txLogEntry := txId }) w := by
  unfold Batch.deletePrevious
  rw [Prog.bind_of_ok (getOutput_of_output h)]

theorem delete_idle {id : Identifier} {mmrIndex txId : Option Nat} {w : Wallet} :
    Idle (Batch.delete id mmrIndex txId) w ↔ DeleteQuiet w.db id mmrIndex txId := by
  unfold Batch.delete DeleteQuiet
  split
  · next previous h =>
    have hd := deletePrevious_of_output txId h
    rcases saveOutputHistory_cases previous w with ⟨hr, hs⟩ | ⟨hr, hf, hs⟩ | ⟨hr, hf, hs⟩
    · rcases saveOutputHistory_cases { previous with status := .deleted, txLogEntry := txId } w
        with ⟨hr', hs'⟩ | ⟨hr', hf, hs'⟩ | ⟨hr', hf, hs'⟩
      · rw [idle_bind_of_ok (hd.trans ((Prog.bind_of_ok hs).trans hs')), deleteRow_idle, h]
        simp [hr, hr']
      · exact iff_of_true (idle_bind_of_error (hd.trans ((Prog.bind_of_ok hs).trans hs')))
          ⟨hf, fun ⟨_, h'⟩ => by simp [hr'] at h'⟩
      · refine iff_of_false (not_idle_bind ?_ fun _ => deleteRow_countsOn (by simp)) (by simp [hf])
        rwa [hd, Prog.bind_of_ok hs]
    · exact iff_of_true (idle_bind_of_error (hd.trans (Prog.bind_of_error hs)))
        ⟨hf, fun ⟨h', _⟩ => by simp [hr] at h'⟩
    · refine iff_of_false (not_idle_bind ?_ fun _ => deleteRow_countsOn (by simp)) (by simp [hf])
      rw [hd]
      refine Nat.lt_of_lt_of_le hs ?_
      rw [Prog.bind_apply]
      rcases Batch.saveOutputHistory previous w with ⟨_ | a, w₁⟩
      · exact Nat.le_refl _
      · exact saveOutputHistory_countsOn _ w₁
  · next hne =>
    refine iff_of_true ?_ trivial
    cases h : w.db.get (.output id mmrIndex) with
    | none =>
      have hd : Batch.deletePrevious id mmrIndex txId w = (.ok (), w) := by
        unfold Batch.deletePrevious
        rw [Prog.bind_of_ok (getOutput_of_none h)]
        rfl
      rw [idle_bind_of_ok hd, deleteRow_idle, h]
    | some v =>
      have hv := asOutputData_eq_none fun o e => hne o (h.trans (congrArg some e))
      exact idle_bind_of_error (Prog.bind_of_error (getOutput_of_other h hv))

theorem context_plain (ctx : Context) : (Serializable.context ctx).Plain := fun _ h => by cases h

theorem savePrivateContext_idle {slateId : Uuid} {participantId : Nat} {ctx : Context}
    {w : Wallet} : Idle (b.savePrivateContext W slateId participantId ctx) w ↔
      Quiet W b w.db (savePrivateContext slateId participantId ctx) := by
  unfold Batch.savePrivateContext Quiet
  cases hk : b.keychain with
  | none => exact iff_of_true (Eq.refl w.db) fun k _ h => by cases h
  | some k =>
    cases hx : WalletBackend.privateCtxXorKeys W k slateId with
    | error e =>
      refine iff_of_true ?_ fun k' keys hk' hx' => by cases hk'; simp [hx] at hx'
      unfold Idle
      rw [Prog.bind_of_ok (Prog.unwrap_some k w), hx]
      rfl
    | ok keys =>
      have hrun : Idle (do
          let k ← Prog.unwrap (some k)
          let keys ← Prog.ofExcept (WalletBackend.privateCtxXorKeys W k slateId)
          put (.privateTxContext slateId participantId)
            (.context (WalletBackend.xorContext ctx keys))) w ↔
          w.db.get (.privateTxContext slateId participantId) =
            some (.context (WalletBackend.xorContext ctx keys)) := by
        unfold Idle
        rw [Prog.bind_of_ok (Prog.unwrap_some k w), hx, Prog.bind_of_ok (Prog.ofExcept_ok keys w)]
        exact put_idle.trans ⟨fun h => h (context_plain _), fun h _ => h⟩
      rw [hrun]
      constructor
      · rintro h _ _ ⟨⟩ hx'
        rw [hx] at hx'
        cases hx'
        exact h
      · exact fun h => h k keys rfl hx

/-- An operation leaves the store as it is exactly if it is quiet there. -/
theorem run_idle (op : BatchOp) (w : Wallet) : Idle (op.run W b) w ↔ op.Quiet W b w.db := by
  cases op with
  | get id mmrIndex =>
    refine iff_of_true ?_ trivial
    have h := ((getOutput_reads id mmrIndex).bind fun o => .pure ()) w
    exact congrArg Wallet.db h.symm
  | save out => exact save_idle
  | saveOutputHistory out => exact saveOutputHistory_idle
  | delete id mmrIndex txId => exact delete_idle
  | nextOutputHistoryId => exact counter_idle
  | nextTxLogId parent => exact counter_idle
  | lockOutput out => exact save_idle
  | savePrivateContext slateId participantId ctx => exact savePrivateContext_idle W b
  | deletePrivateContext slateId participantId => exact deleteRow_idle
  | _ => exact put_idle

end BatchOp

/-! ## Sessions -/

namespace BatchOp

variable (W : World) (b : Batch)

/-- The operations one after the other, up to the first that fails. -/
def session (ops : List BatchOp) : WalletM Unit := Prog.forEach ops (run W b)

/-- A batch used for `ops` and dropped. -/
def dropped (mask : Option SecretKey) (ops : List BatchOp) : WalletM Unit := do
  let b ← WalletBackend.batch W mask
  session W b ops

/-- A batch used for `ops` and committed. -/
def committed (mask : Option SecretKey) (ops : List BatchOp) : WalletM Unit := do
  let b ← WalletBackend.batch W mask
  session W b ops
  Batch.commit

/-- What the source promises of a batch: dropped at any point it leaves the store as it was, and
committed the store has what its operations, one after the other, write. -/
structure Atomic (mask : Option SecretKey) (ops : List BatchOp) (w : Wallet) : Prop where
  discarded : ∀ l, l <+: ops → (dropped W mask l w).2.db = w.db
  committed : ∀ w', committed W mask ops w = (.ok (), w') →
    ∃ k, WalletBackend.unmasked W w mask = .ok k ∧ session W ⟨some k⟩ ops w = (.ok (), w')

/-- No operation, up to the first that fails, writes a row that is not there already. -/
def QuietSession (w : Wallet) : List BatchOp → Prop
  | [] => True
  | op :: ops => op.Quiet W b w.db ∧ ((op.run W b w).1 = .ok () → QuietSession w ops)

/-- Committing adds nothing to what the operations wrote. -/
theorem committed_ok {mask : Option SecretKey} {ops : List BatchOp} {w w' : Wallet}
    (h : committed W mask ops w = (.ok (), w')) :
    ∃ k, WalletBackend.unmasked W w mask = .ok k ∧ session W ⟨some k⟩ ops w = (.ok (), w') := by
  obtain ⟨_, _, hb, h'⟩ := Prog.bind_ok.1 h
  obtain ⟨⟨k, hk, rfl⟩, rfl⟩ := (WalletBackend.batch_ok W).1 hb
  obtain ⟨⟨⟩, _, hs, h''⟩ := Prog.bind_ok.1 h'
  cases h''
  exact ⟨k, hk, hs⟩

theorem counter_onlyDb (k : Key) : Prog.Keeps OnlyDb (do let _ ← counter k) := fun w => by
  by_cases hf : Full w.db k
  · rw [Prog.bind_of_error (counter_of_full hf)]
    exact rfl
  · rw [Prog.bind_of_ok (counter_of_not_full hf)]
    exact rfl

/-- An operation changes nothing beside the store. -/
theorem run_onlyDb (op : BatchOp) : Prog.Keeps OnlyDb (op.run W b) := by
  cases op with
  | get id mmrIndex => exact (getOutput_reads id mmrIndex).keeps.bind fun _ => .pure ()
  | save out => exact Batch.save_onlyDb out
  | saveOutputHistory out =>
    exact (Batch.saveOutputHistory_onlyHistory out).mono fun _ _ => onlyDb_of_onlyHistory
  | delete id mmrIndex txId => exact Batch.delete_onlyDb id mmrIndex txId
  | nextOutputHistoryId => exact counter_onlyDb _
  | nextTxLogId parent => exact counter_onlyDb _
  | lockOutput out => exact Batch.save_onlyDb out.lock
  | savePrivateContext slateId participantId ctx =>
    exact (Prog.Keeps.unwrap _).bind fun _ => (Prog.Keeps.ofExcept _).bind fun _ => put_onlyDb _ _
  | deletePrivateContext slateId participantId => exact fun _ => rfl
  | _ => exact put_onlyDb _ _

/-- A quiet operation leaves the wallet as it is. -/
theorem run_of_quiet {op : BatchOp} {w : Wallet} (h : op.Quiet W b w.db) :
    (op.run W b w).2 = w := by
  have h₁ : (op.run W b w).2 = { w with db := (op.run W b w).2.db } := run_onlyDb W b op w
  rw [h₁, (run_idle W b op w).2 h]

theorem session_of_quiet {w : Wallet} : ∀ {ops : List BatchOp}, QuietSession W b w ops →
    ∀ l, l <+: ops → (session W b l w).2 = w
  | _, _, [], _ => rfl
  | [], _, _ :: _, hl => by simp at hl
  | op :: ops, ⟨hq, hrest⟩, x :: l, hl => by
    obtain ⟨rfl, hl'⟩ : x = op ∧ l <+: ops := by simpa using hl
    have hw := run_of_quiet W b hq
    unfold session Prog.forEach
    rw [Prog.bind_apply]
    rcases hr : x.run W b w with ⟨e | ⟨⟨⟩⟩, w₁⟩
    · rwa [hr] at hw
    · obtain rfl : w₁ = w := by rwa [hr] at hw
      exact session_of_quiet (hrest (by rw [hr])) l hl'

/-- If no point of the session sees a changed store, every operation reached was quiet. -/
theorem quiet_of_session {w : Wallet} : ∀ {ops : List BatchOp},
    (∀ l, l <+: ops → (session W b l w).2.db = w.db) → QuietSession W b w ops
  | [], _ => trivial
  | op :: ops, h => by
    have h₁ : Idle (op.run W b) w := by
      have := h [op] (by simp)
      unfold session Prog.forEach at this
      rw [Prog.bind_apply] at this
      unfold Idle
      rcases hr : op.run W b w with ⟨e | ⟨⟨⟩⟩, w₁⟩ <;> rw [hr] at this <;> exact this
    have hq := (run_idle W b op w).1 h₁
    refine ⟨hq, fun hok => quiet_of_session fun l hl => ?_⟩
    have hrun : op.run W b w = (.ok (), w) := Prod.ext hok (run_of_quiet W b hq)
    have := h (op :: l) (by simpa using hl)
    unfold session Prog.forEach at this
    rwa [Prog.bind_of_ok hrun] at this

end BatchOp

/-! ## A batch that was not atomic -/

end EpicWallet
