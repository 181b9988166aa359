import EpicWallet.Libwallet.World

/-!
# The wallet backend

`impls/src/backends/lmdb.rs`: `WalletBackend` and the batch through which every write goes. A batch
is no transaction: each of its operations writes the row at once, `commit` only gives up the handle,
and dropping a batch does nothing.

A value is stored if no string in it holds an apostrophe; otherwise the text of the statement is not
the one meant and the database refuses it, which is a panic (`Db.roundTrip_iff`).

Each operation has one lemma that says what it did when it returned (`save_ok`, `delete_ok`,
`nextTxLogId_ok`, ...) and one that says which rows it may touch, whatever its outcome (`Touches`).
-/

namespace EpicWallet

open Lib

/-! ## Rows by kind -/

namespace Key

def asOutput : Key → Bool
  | .output _ _ => true
  | _ => false

def asOutputHistory : Key → Bool
  | .outputHistory _ => true
  | _ => false

def asTxLogEntry : Key → Bool
  | .txLogEntry _ _ => true
  | _ => false

def asAccountPathMapping : Key → Bool
  | .accountPathMapping _ => true
  | _ => false

/-- The rows of the output history. -/
def isHistory : Key → Bool
  | .outputHistory _ => true
  | .outputHistoryId => true
  | _ => false

end Key

/-- The values of the rows whose key has the given prefix, in the order of the rows. -/
def rowsOf (d : Rows Key Serializable) (hasPrefix : Key → Bool) : List Serializable :=
  (d.toList.filter fun r => hasPrefix r.1).map Prod.snd

def outputsOf (d : Rows Key Serializable) : List OutputData :=
  (rowsOf d Key.asOutput).filterMap Serializable.asOutputData

def historyOf (d : Rows Key Serializable) : List OutputData :=
  (rowsOf d Key.asOutputHistory).filterMap Serializable.asOutputData

def txLogOf (d : Rows Key Serializable) : List TxLogEntry :=
  (rowsOf d Key.asTxLogEntry).filterMap Serializable.asTxLogEntry

def accountsOf (d : Rows Key Serializable) : List AcctPathMapping :=
  (rowsOf d Key.asAccountPathMapping).filterMap Serializable.asAcctPathMapping

/-- `Serializable::Numeric(n) => n`, anything else 0. -/
def numericOf (d : Rows Key Serializable) (k : Key) : Nat :=
  match d.get k with
  | some (.numeric n) => n
  | _ => 0

theorem mem_rowsOf {d : Rows Key Serializable} {hasPrefix : Key → Bool} {v : Serializable} :
    v ∈ rowsOf d hasPrefix ↔ ∃ k, hasPrefix k = true ∧ d.get k = some v := by
  unfold rowsOf
  rw [List.mem_map]
  constructor
  · rintro ⟨⟨k, v⟩, hm, rfl⟩
    obtain ⟨hr, hk⟩ := List.mem_filter.1 hm
    exact ⟨k, hk, Rows.mem_iff.1 hr⟩
  · rintro ⟨k, hk, hg⟩
    exact ⟨(k, v), List.mem_filter.2 ⟨Rows.mem_iff.2 hg, hk⟩, rfl⟩

theorem mem_outputsOf {d : Rows Key Serializable} {o : OutputData} :
    o ∈ outputsOf d ↔ ∃ id mmrIndex, d.get (.output id mmrIndex) = some (.outputData o) := by
  unfold outputsOf
  simp only [List.mem_filterMap, mem_rowsOf, Serializable.asOutputData_eq]
  constructor
  · rintro ⟨_, ⟨k, hk, hg⟩, rfl⟩
    cases k <;> cases hk
    exact ⟨_, _, hg⟩
  · rintro ⟨id, m, hg⟩
    exact ⟨_, ⟨_, rfl, hg⟩, rfl⟩

theorem mem_txLogOf {d : Rows Key Serializable} {t : TxLogEntry} :
    t ∈ txLogOf d ↔ ∃ parent id, d.get (.txLogEntry parent id) = some (.txLogEntry t) := by
  unfold txLogOf
  simp only [List.mem_filterMap, mem_rowsOf, Serializable.asTxLogEntry_eq]
  constructor
  · rintro ⟨_, ⟨k, hk, hg⟩, rfl⟩
    cases k <;> cases hk
    exact ⟨_, _, hg⟩
  · rintro ⟨parent, id, hg⟩
    exact ⟨_, ⟨_, rfl, hg⟩, rfl⟩

theorem mem_accountsOf {d : Rows Key Serializable} {a : AcctPathMapping} :
    a ∈ accountsOf d ↔ ∃ label, d.get (.accountPathMapping label) = some (.acctPathMapping a) := by
  unfold accountsOf
  simp only [List.mem_filterMap, mem_rowsOf, Serializable.asAcctPathMapping_eq]
  constructor
  · rintro ⟨_, ⟨k, hk, hg⟩, rfl⟩
    cases k <;> cases hk
    exact ⟨_, hg⟩
  · rintro ⟨label, hg⟩
    exact ⟨_, ⟨_, rfl, hg⟩, rfl⟩

/-! ## Rows -/

def put (k : Key) (v : Serializable) : WalletM Unit := fun w =>
  if v.Plain then (.ok (), { w with db := w.db.put k v }) else (.error .panic, w)

def deleteRow (k : Key) : WalletM Unit := Prog.modify fun w => { w with db := w.db.erase k }

def rows : WalletM (Rows Key Serializable) := do
  let w ← Prog.get
  pure w.db

/-- The output stored under `id` and `mmr_index`. -/
def getOutput (id : Identifier) (mmrIndex : Option Nat) : WalletM OutputData := do
  let d ← rows
  match d.get (.output id mmrIndex) with
  | none => Prog.throw (.notFoundErr ("Key Id: " ++ id.display))
  | some v => Prog.unwrap v.asOutputData

/-! ## `WalletBackend` -/

namespace WalletBackend

variable (W : World)

def rootKeyId : Identifier := Identifier.derive 0 0 0 0 0

def defaultPath : Identifier := Identifier.derive 2 0 0 0 0

/-- The keychain, unmasked, if its master key is the expected one. -/
def unmasked (w : Wallet) (mask : Option SecretKey) : Except Error Keychain :=
  match w.keychain with
  | none => throw .keychainDoesntExist
  | some k => do
    let kMasked ← (match mask with
      | some m => W.maskMasterKey k m
      | none => pure k)
    let rootKey ← W.deriveKey kMasked 0 rootKeyId .regular
    if w.masterChecksum = some (W.masterChecksum rootKey) then pure kMasked
    else throw .invalidKeychainMask

def keychain (mask : Option SecretKey) : WalletM Keychain := do
  let w ← Prog.get
  Prog.ofExcept (unmasked W w mask)

def calcCommitForCache (mask : Option SecretKey) (amount : Nat) (id : Identifier) :
    WalletM (Option String) := do
  let k ← keychain W mask
  let c ← Prog.ofExcept (W.commit k amount id .regular)
  pure (some (W.commitmentToHex c))

def parentKeyId : WalletM Identifier := do
  let w ← Prog.get
  pure w.parentKeyId

def setParentKeyId (id : Identifier) : WalletM Unit := Prog.modify fun w => { w with parentKeyId := id }

def acctPathIter : WalletM (List AcctPathMapping) := do
  let d ← rows
  pure (accountsOf d)

def setParentKeyIdByName (label : String) : WalletM Unit := do
  let l ← acctPathIter
  match l.find? (·.label = label) with
  | some a => setParentKeyId a.path
  | none => Prog.throw (.unknownAccountLabel label)

def getAcctPath (label : String) : WalletM (Option AcctPathMapping) := do
  let d ← rows
  pure ((d.get (.accountPathMapping label)).bind Serializable.asAcctPathMapping)

def iter : WalletM (List OutputData) := do
  let d ← rows
  pure (outputsOf d)

def historyIter : WalletM (List OutputData) := do
  let d ← rows
  pure (historyOf d)

def txLogIter : WalletM (List TxLogEntry) := do
  let d ← rows
  pure (txLogOf d)

/-- `private_ctx_xor_keys`. -/
def privateCtxXorKeys (k : Keychain) (slateId : Uuid) : Except Error (Nat × Nat) := do
  let rootKey ← W.deriveKey k 0 rootKeyId .regular
  pure (W.blindXorKey rootKey slateId, W.nonceXorKey rootKey slateId)

/-- The context with both secrets combined with their keys; doing it twice undoes it. -/
def xorContext (ctx : Context) (keys : Nat × Nat) : Context :=
  { ctx with secKey := ⟨ctx.secKey.raw ^^^ keys.1⟩, secNonce := ⟨ctx.secNonce.raw ^^^ keys.2⟩ }

/-- `{:x?}` of the bytes of a slate id. -/
def slateIdBytes (u : Uuid) : String :=
  "[" ++ String.intercalate ", " ((List.range 16).map fun i =>
    String.ofList (Nat.toDigits 16 (u.raw / 256 ^ (15 - i) % 256))) ++ "]"

def getPrivateContext (mask : Option SecretKey) (slateId : Uuid) (participantId : Nat) :
    WalletM Context := do
  let k ← keychain W mask
  let keys ← Prog.ofExcept (privateCtxXorKeys W k slateId)
  let d ← rows
  match d.get (.privateTxContext slateId participantId) with
  | none => Prog.throw (.notFoundErr ("Slate id: " ++ slateIdBytes slateId))
  | some v => do
    let ctx ← Prog.unwrap v.asContext
    pure (xorContext ctx keys)

def storeTx (slateId : Uuid) (tx : Transaction) : WalletM Unit := do
  let t ← nextTick
  Prog.ofExcept (W.createFile t (txFileName slateId))
  Prog.modify fun w => { w with storedTxs := w.storedTxs.put (txFileName slateId) tx }

def currentChildIndex (parent : Identifier) : WalletM Nat := do
  let d ← rows
  pure (asU32 (numericOf d (.deriv parent)))

def lastConfirmedHeight : WalletM Nat := do
  let w ← Prog.get
  pure (numericOf w.db (.confirmedHeight w.parentKeyId))

def lastScannedBlock : WalletM ScannedBlockInfo := do
  let d ← rows
  match d.get .lastScannedBlock with
  | some (.scannedBlockInfo s) => pure s
  | _ => pure ⟨0, "", 0, 0⟩

def initStatus : WalletM WalletInitStatus := do
  let d ← rows
  match d.get .walletInitStatus with
  | some (.walletInitStatus s) => pure s
  | _ => pure .initComplete

/-- `LMDBBackend::new` in an empty directory, with its keychain set. -/
def opened (k : Keychain) (checksum : Nat) : Wallet where
  db := Rows.empty.put (.accountPathMapping "default")
    (.acctPathMapping ⟨"default", defaultPath⟩)
  keychain := some k
  masterChecksum := some checksum
  parentKeyId := defaultPath
  storedTxs := Rows.empty
  tick := 0
  partialSigs := []

end WalletBackend

/-! ## `WalletOutputBatch` -/

/-- A batch holds the keychain it was opened with. -/
structure Batch where
  keychain : Option Keychain

namespace Batch

variable (W : World)

def nextOutputHistoryId : WalletM Nat := do
  let d ← rows
  let last := asU32 (numericOf d .outputHistoryId)
  let n ← addU32 last 1
  put .outputHistoryId (.numeric n)
  pure last

/-- Whether the history holds `out`, its key aside. -/
def registered (d : Rows Key Serializable) (out : OutputData) : Bool :=
  (historyOf d).any fun o => decide ({ o with keyId := out.keyId } = out)

def saveOutputHistory (out : OutputData) : WalletM Unit := do
  let d ← rows
  if registered d out then pure ()
  else do
    match ← Prog.attempt nextOutputHistoryId with
    | .ok id => put (.outputHistory id) (.outputData out)
    | .error _ => pure ()

/-- The part of `save` that looks at the row about to be replaced. -/
def savePrevious (out : OutputData) : WalletM Unit := do
  match ← Prog.attempt (getOutput out.keyId out.mmrIndex) with
  | .ok previous => if previous ≠ out then saveOutputHistory previous else pure ()
  | .error _ => pure ()

def save (out : OutputData) : WalletM Unit := do
  savePrevious out
  put (.output out.keyId out.mmrIndex) (.outputData out)

/-- The part of `delete` that looks at the row about to go. -/
def deletePrevious (id : Identifier) (mmrIndex txId : Option Nat) : WalletM Unit := do
  match ← Prog.attempt (getOutput id mmrIndex) with
  | .ok previous => do
    saveOutputHistory previous
    saveOutputHistory { previous with status := .deleted, txLogEntry := txId }
  | .error _ => pure ()

def delete (id : Identifier) (mmrIndex txId : Option Nat) : WalletM Unit := do
  deletePrevious id mmrIndex txId
  deleteRow (.output id mmrIndex)

def nextTxLogId (parent : Identifier) : WalletM Nat := do
  let d ← rows
  let last := asU32 (numericOf d (.txLogId parent))
  let n ← addU32 last 1
  put (.txLogId parent) (.numeric n)
  pure last

def saveLastConfirmedHeight (parent : Identifier) (height : Nat) : WalletM Unit :=
  put (.confirmedHeight parent) (.numeric height)

def saveLastScannedBlock (info : ScannedBlockInfo) : WalletM Unit :=
  put .lastScannedBlock (.scannedBlockInfo info)

def saveInitStatus (value : WalletInitStatus) : WalletM Unit :=
  put .walletInitStatus (.walletInitStatus value)

def saveChildIndex (parent : Identifier) (childN : Nat) : WalletM Unit :=
  put (.deriv parent) (.numeric childN)

def saveTxLogEntry (txIn : TxLogEntry) (parent : Identifier) : WalletM Unit :=
  put (.txLogEntry parent txIn.id) (.txLogEntry txIn)

def saveAcctPath (mapping : AcctPathMapping) : WalletM Unit :=
  put (.accountPathMapping mapping.label) (.acctPathMapping mapping)

def lockOutput (out : OutputData) : WalletM Unit := save out.lock

def savePrivateContext (b : Batch) (slateId : Uuid) (participantId : Nat) (ctx : Context) :
    WalletM Unit := do
  let k ← Prog.unwrap b.keychain
  let keys ← Prog.ofExcept (WalletBackend.privateCtxXorKeys W k slateId)
  put (.privateTxContext slateId participantId) (.context (WalletBackend.xorContext ctx keys))

def deletePrivateContext (slateId : Uuid) (participantId : Nat) : WalletM Unit :=
  deleteRow (.privateTxContext slateId participantId)

/-- `self.db.replace(None)`: the handle goes, nothing is written. -/
def commit : WalletM Unit := pure ()

end Batch

namespace WalletBackend

variable (W : World)

def batch (mask : Option SecretKey) : WalletM Batch := do
  let k ← keychain W mask
  pure ⟨some k⟩

def nextChild (mask : Option SecretKey) : WalletM Identifier := do
  let parent ← parentKeyId
  let derivIdx ← currentChildIndex parent
  let returnPath ← Prog.unwrap (parent.child derivIdx)
  let next ← addU32 derivIdx 1
  let _ ← batch W mask
  Batch.saveChildIndex parent next
  Batch.commit
  pure returnPath

end WalletBackend

/-! ## What a step may write -/

/-- From `w` to `w'` the rows outside the output history are unchanged or as `P` allows, and of the
rest of the wallet only the files, the tick and the record of signatures may differ. -/
structure Writes (P : Key → Option Serializable → Prop) (w w' : Wallet) : Prop where
  db : ∀ k, k.isHistory = false → w'.db.get k = w.db.get k ∨ P k (w'.db.get k)
  keychain : w'.keychain = w.keychain
  masterChecksum : w'.masterChecksum = w.masterChecksum
  parentKeyId : w'.parentKeyId = w.parentKeyId

namespace Writes

variable {P : Key → Option Serializable → Prop}

instance : Std.Refl (Writes P) := ⟨fun _ => ⟨fun _ _ => .inl rfl, rfl, rfl, rfl⟩⟩

instance : IsTrans Wallet (Writes P) where
  trans a b c h h' := by
    refine ⟨fun k hk => ?_, h'.keychain.trans h.keychain, h'.masterChecksum.trans h.masterChecksum,
      h'.parentKeyId.trans h.parentKeyId⟩
    rcases h'.db k hk with e | e
    · rw [e]
      exact h.db k hk
    · exact .inr e

theorem mono {Q : Key → Option Serializable → Prop} {w w' : Wallet} (h : Writes P w w')
    (hPQ : ∀ k v, P k v → Q k v) : Writes Q w w' :=
  ⟨fun k hk => (h.db k hk).imp_right (hPQ k _), h.keychain, h.masterChecksum, h.parentKeyId⟩

/-- A row that `P` does not allow to change. -/
theorem get_eq {w w' : Wallet} (h : Writes P w w') {k : Key} (hk : k.isHistory = false)
    (hP : ∀ v, ¬P k v) : w'.db.get k = w.db.get k :=
  (h.db k hk).resolve_right (hP _)

end Writes

/-- From `w` to `w'` the row of `k` got the value `v`, and nothing else changed but the output
history. -/
structure Sets (k : Key) (v : Option Serializable) (w w' : Wallet) : Prop where
  eq : w' = { w with db := w'.db }
  get_self : w'.db.get k = v
  get_ne : ∀ k', k' ≠ k → k'.isHistory = false → w'.db.get k' = w.db.get k'

/-- From `w` to `w'` at most the output history changed. -/
structure OnlyHistory (w w' : Wallet) : Prop where
  eq : w' = { w with db := w'.db }
  get : ∀ k, k.isHistory = false → w'.db.get k = w.db.get k

instance : Std.Refl OnlyHistory := ⟨fun _ => ⟨rfl, fun _ _ => rfl⟩⟩

instance : IsTrans Wallet OnlyHistory where
  trans a b c h h' := by
    refine ⟨?_, fun k hk => (h'.get k hk).trans (h.get k hk)⟩
    rw [h'.eq, h.eq]

theorem OnlyHistory.writes {P : Key → Option Serializable → Prop} {w w' : Wallet}
    (h : OnlyHistory w w') : Writes P w w' := by
  refine ⟨fun k hk => .inl (h.get k hk), ?_, ?_, ?_⟩ <;> rw [h.eq]

theorem Sets.get {k k' : Key} {v : Option Serializable} {w w' : Wallet} (h : Sets k v w w')
    (hk' : k'.isHistory = false) : w'.db.get k' = if k' = k then v else w.db.get k' := by
  split
  · subst k'
    exact h.get_self
  · exact h.get_ne k' ‹_› hk'

theorem OnlyHistory.sets {k : Key} {v : Option Serializable} {w₀ w w' : Wallet}
    (h₀ : OnlyHistory w₀ w) (h : Sets k v w w') : Sets k v w₀ w' := by
  refine ⟨?_, h.get_self, fun k' hk hh => (h.get_ne k' hk hh).trans (h₀.get k' hh)⟩
  rw [h.eq, h₀.eq]

/-- Only the store differs. -/
def OnlyDb (w w' : Wallet) : Prop := w' = { w with db := w'.db }

instance : Std.Refl OnlyDb := ⟨fun _ => rfl⟩

instance : IsTrans Wallet OnlyDb where
  trans a b c h h' := by
    unfold OnlyDb at h h' ⊢
    rw [h', h]

theorem Aside.writes {P : Key → Option Serializable → Prop} {w w' : Wallet} (h : Aside w w') :
    Writes P w w' := by
  refine ⟨fun k _ => .inl (by rw [h.db]), ?_, ?_, ?_⟩ <;> rw [h]

theorem onlyDb_of_onlyHistory {w w' : Wallet} (h : OnlyHistory w w') : OnlyDb w w' := h.eq

/-! ## Single rows -/

@[simp] theorem rows_apply (w : Wallet) : rows w = (.ok w.db, w) := rfl

theorem put_ok {k : Key} {v : Serializable} {w w' : Wallet} :
    put k v w = (.ok (), w') ↔ v.Plain ∧ w' = { w with db := w.db.put k v } := by
  unfold put
  split <;> simp [*, eq_comm]

theorem put_sets {k : Key} {v : Serializable} {w w' : Wallet} (h : put k v w = (.ok (), w')) :
    Sets k (some v) w w' := by
  obtain ⟨-, rfl⟩ := put_ok.1 h
  exact ⟨rfl, Rows.get_put_self .., fun k' hk _ => Rows.get_put_ne _ _ hk⟩

theorem put_errless (k : Key) (v : Serializable) : Prog.Errless (put k v) := fun w e w' h => by
  unfold put at h
  split at h <;> cases h

theorem put_writes {P : Key → Option Serializable → Prop} {k : Key} {v : Serializable}
    (hP : P k (some v)) : Prog.Keeps (Writes P) (put k v) := fun w => by
  unfold put
  split
  · refine ⟨fun k' _ => ?_, rfl, rfl, rfl⟩
    rw [Rows.get_put]
    split
    · subst k'
      exact .inr hP
    · exact .inl rfl
  · exact Std.Refl.refl w

theorem put_onlyDb (k : Key) (v : Serializable) : Prog.Keeps OnlyDb (put k v) := fun w => by
  unfold put
  split <;> exact rfl

theorem deleteRow_sets (k : Key) (w : Wallet) :
    Sets k none w { w with db := w.db.erase k } :=
  ⟨rfl, Rows.get_erase_self .., fun _ hk _ => Rows.get_erase_ne _ hk⟩

theorem deleteRow_writes {P : Key → Option Serializable → Prop} {k : Key} (hP : P k none) :
    Prog.Keeps (Writes P) (deleteRow k) := fun w => by
  refine ⟨fun k' _ => ?_, rfl, rfl, rfl⟩
  show (w.db.erase k).get k' = _ ∨ P k' ((w.db.erase k).get k')
  rw [Rows.get_erase]
  split
  · subst k'
    exact .inr hP
  · exact .inl rfl

theorem rows_reads : Prog.Reads rows := fun _ => rfl

theorem getOutput_reads (id : Identifier) (mmrIndex : Option Nat) :
    Prog.Reads (getOutput id mmrIndex) := by
  refine rows_reads.bind fun d => ?_
  split
  · exact .throw _
  · exact .unwrap _

/-- What `getOutput` finds. -/
theorem getOutput_ok {id : Identifier} {mmrIndex : Option Nat} {o : OutputData} {w w' : Wallet} :
    getOutput id mmrIndex w = (.ok o, w') ↔
      w.db.get (.output id mmrIndex) = some (.outputData o) ∧ w' = w := by
  unfold getOutput
  rw [Prog.bind_of_ok (rows_apply w)]
  cases w.db.get (.output id mmrIndex) with
  | none => simp
  | some v => simp only [Prog.unwrap_eq_ok, Serializable.asOutputData_eq, Option.some.injEq]

/-! ## Batch operations -/

namespace Batch

theorem put_onlyHistory {k : Key} (hk : k.isHistory = true) (v : Serializable) :
    Prog.Keeps OnlyHistory (put k v) := fun w => by
  unfold put
  split
  · refine ⟨rfl, fun k' hk' => Rows.get_put_ne _ _ ?_⟩
    rintro rfl
    exact Bool.noConfusion (hk.symm.trans hk')
  · exact Std.Refl.refl w

theorem nextOutputHistoryId_onlyHistory : Prog.Keeps OnlyHistory nextOutputHistoryId :=
  rows_reads.keeps.bind fun _ => (addU32_reads _ _).keeps.bind fun _ =>
    (put_onlyHistory rfl _).bind fun _ => .pure _

theorem saveOutputHistory_onlyHistory (out : OutputData) :
    Prog.Keeps OnlyHistory (saveOutputHistory out) := by
  refine rows_reads.keeps.bind fun d => .ite (fun _ => .pure _) fun _ => ?_
  refine nextOutputHistoryId_onlyHistory.attempt.bind fun r => ?_
  cases r with
  | ok id => exact put_onlyHistory rfl _
  | error e => exact .pure _

theorem savePrevious_onlyHistory (out : OutputData) :
    Prog.Keeps OnlyHistory (savePrevious out) := by
  refine (getOutput_reads _ _).keeps.attempt.bind fun r => ?_
  cases r with
  | ok previous => exact .ite (fun _ => saveOutputHistory_onlyHistory _) fun _ => .pure _
  | error e => exact .pure _

theorem deletePrevious_onlyHistory (id : Identifier) (mmrIndex txId : Option Nat) :
    Prog.Keeps OnlyHistory (deletePrevious id mmrIndex txId) := by
  refine (getOutput_reads _ _).keeps.attempt.bind fun r => ?_
  cases r with
  | ok previous =>
    exact (saveOutputHistory_onlyHistory _).bind fun _ => saveOutputHistory_onlyHistory _
  | error e => exact .pure _

/-- `save` stores the output under its key. -/
theorem save_ok {out : OutputData} {w w' : Wallet} (h : save out w = (.ok (), w')) :
    Sets (.output out.keyId out.mmrIndex) (some (.outputData out)) w w' := by
  obtain ⟨⟨⟩, w₁, h₁, h⟩ := Prog.bind_ok.1 h
  have := savePrevious_onlyHistory out w
  rw [h₁] at this
  exact this.sets (put_sets h)

theorem save_writes {P : Key → Option Serializable → Prop} {out : OutputData}
    (hP : P (.output out.keyId out.mmrIndex) (some (.outputData out))) :
    Prog.Keeps (Writes P) (save out) :=
  ((savePrevious_onlyHistory out).mono fun _ _ => OnlyHistory.writes).bind fun _ => put_writes hP

/-- `delete` removes the output. -/
theorem delete_ok {id : Identifier} {mmrIndex txId : Option Nat} {w w' : Wallet}
    (h : delete id mmrIndex txId w = (.ok (), w')) : Sets (.output id mmrIndex) none w w' := by
  obtain ⟨⟨⟩, w₁, h₁, h⟩ := Prog.bind_ok.1 h
  have := deletePrevious_onlyHistory id mmrIndex txId w
  rw [h₁] at this
  cases h
  exact this.sets (deleteRow_sets _ _)

theorem delete_writes {P : Key → Option Serializable → Prop} {id : Identifier}
    {mmrIndex txId : Option Nat} (hP : P (.output id mmrIndex) none) :
    Prog.Keeps (Writes P) (delete id mmrIndex txId) :=
  ((deletePrevious_onlyHistory id mmrIndex txId).mono fun _ _ => OnlyHistory.writes).bind fun _ =>
    deleteRow_writes hP

theorem save_onlyDb (out : OutputData) : Prog.Keeps OnlyDb (save out) :=
  ((savePrevious_onlyHistory out).mono fun _ _ => onlyDb_of_onlyHistory).bind fun _ =>
    put_onlyDb _ _

theorem delete_onlyDb (id : Identifier) (mmrIndex txId : Option Nat) :
    Prog.Keeps OnlyDb (delete id mmrIndex txId) :=
  ((deletePrevious_onlyHistory id mmrIndex txId).mono fun _ _ => onlyDb_of_onlyHistory).bind
    fun _ _ => rfl

theorem nextOutputHistoryId_errless : Prog.Errless nextOutputHistoryId :=
  Prog.Errless.get.bind fun _ => (addU32_errless _ _).bind fun _ =>
    (put_errless _ _).bind fun _ => .pure _

theorem saveOutputHistory_errless (out : OutputData) : Prog.Errless (saveOutputHistory out) := by
  refine Prog.Errless.get.bind fun w => .ite (.pure _) ?_
  refine (Prog.Errless.attempt _).bind fun r => ?_
  cases r with
  | ok id => exact put_errless _ _
  | error e => exact .pure _

/-- `save` fails by a panic only. -/
theorem save_errless (out : OutputData) : Prog.Errless (save out) := by
  refine .bind ((Prog.Errless.attempt _).bind fun r => ?_) fun _ => put_errless _ _
  cases r with
  | ok previous => exact .ite (saveOutputHistory_errless _) (.pure _)
  | error e => exact .pure _

/-- `delete` fails by a panic only. -/
theorem delete_errless (id : Identifier) (mmrIndex txId : Option Nat) :
    Prog.Errless (delete id mmrIndex txId) := by
  refine .bind ((Prog.Errless.attempt _).bind fun r => ?_) fun _ => .modify _
  cases r with
  | ok previous => exact (saveOutputHistory_errless _).bind fun _ => saveOutputHistory_errless _
  | error e => exact .pure _

/-- `next_tx_log_id` hands out the counter and counts on. -/
theorem nextTxLogId_ok {parent : Identifier} {n : Nat} {w w' : Wallet}
    (h : nextTxLogId parent w = (.ok n, w')) :
    n = asU32 (numericOf w.db (.txLogId parent)) ∧ n + 1 < u32Size ∧
      Sets (.txLogId parent) (some (.numeric (n + 1))) w w' := by
  obtain ⟨_, _, hr, h⟩ := Prog.bind_ok.1 h
  cases hr
  obtain ⟨m, _, ha, h⟩ := Prog.bind_ok.1 h
  obtain ⟨rfl, hm, rfl⟩ := addU32_ok.1 ha
  obtain ⟨⟨⟩, _, hp, h⟩ := Prog.bind_ok.1 h
  cases h
  exact ⟨rfl, hm, put_sets hp⟩

/-- From `w` to `w'` the id `logId` of an account was handed out. -/
structure Handed (parent : Identifier) (logId : Nat) (w w' : Wallet) : Prop where
  eq : logId = asU32 (numericOf w.db (.txLogId parent))
  lt : logId + 1 < u32Size
  counter : w'.db.get (.txLogId parent) = some (.numeric (logId + 1))

theorem handed_of_nextTxLogId {parent : Identifier} {n : Nat} {w w' : Wallet}
    (h : nextTxLogId parent w = (.ok n, w')) : Handed parent n w w' := by
  obtain ⟨hn, hlt, hset⟩ := nextTxLogId_ok h
  exact ⟨hn, hlt, hset.get_self⟩

/-- The counter never stands at the value it gets by handing out an id. -/
theorem Handed.moves {parent : Identifier} {logId : Nat} {w w' : Wallet}
    (h : Handed parent logId w w') :
    w'.db.get (.txLogId parent) ≠ w.db.get (.txLogId parent) := by
  intro he
  have hrow : numericOf w.db (.txLogId parent) = logId + 1 := by
    unfold numericOf
    rw [← he, h.counter]
  have hn := h.eq
  rw [hrow] at hn
  have := Nat.mod_eq_of_lt h.lt
  unfold asU32 at hn
  omega

theorem Handed.writes {P : Key → Option Serializable → Prop} {parent : Identifier} {logId : Nat}
    {w w₁ w₂ : Wallet} (h : Handed parent logId w w₁) (hw : Writes P w₁ w₂)
    (hP : ∀ v, ¬P (.txLogId parent) v) : Handed parent logId w w₂ := by
  refine ⟨h.eq, h.lt, ?_⟩
  rw [hw.get_eq rfl hP]
  exact h.counter

theorem nextTxLogId_writes {P : Key → Option Serializable → Prop} {parent : Identifier}
    (hP : ∀ n, P (.txLogId parent) (some (.numeric n))) :
    Prog.Keeps (Writes P) (nextTxLogId parent) :=
  rows_reads.keeps.bind fun _ => (addU32_reads _ _).keeps.bind fun _ =>
    (put_writes (hP _)).bind fun _ => .pure _

theorem nextTxLogId_onlyDb (parent : Identifier) : Prog.Keeps OnlyDb (nextTxLogId parent) :=
  rows_reads.keeps.bind fun _ => (addU32_reads _ _).keeps.bind fun _ =>
    (put_onlyDb _ _).bind fun _ => .pure _

theorem nextTxLogId_errless (parent : Identifier) : Prog.Errless (nextTxLogId parent) :=
  Prog.Errless.get.bind fun _ => (addU32_errless _ _).bind fun _ =>
    (put_errless _ _).bind fun _ => .pure _

end Batch

/-! ## Backend operations -/

namespace WalletBackend

variable (W : World)

theorem parentKeyId_reads : Prog.Reads parentKeyId := fun _ => rfl

theorem iter_reads : Prog.Reads iter := fun _ => rfl

theorem historyIter_reads : Prog.Reads historyIter := fun _ => rfl

theorem txLogIter_reads : Prog.Reads txLogIter := fun _ => rfl

theorem acctPathIter_reads : Prog.Reads acctPathIter := fun _ => rfl

theorem getAcctPath_reads (label : String) : Prog.Reads (getAcctPath label) := fun _ => rfl

theorem currentChildIndex_reads (parent : Identifier) : Prog.Reads (currentChildIndex parent) :=
  fun _ => rfl

theorem initStatus_reads : Prog.Reads initStatus := by
  refine rows_reads.bind fun d => ?_
  split
  · exact .pure _
  · exact .pure _

theorem lastScannedBlock_reads : Prog.Reads lastScannedBlock := by
  refine rows_reads.bind fun d => ?_
  split
  · exact .pure _
  · exact .pure _

theorem lastConfirmedHeight_reads : Prog.Reads lastConfirmedHeight := fun _ => rfl

theorem keychain_apply (mask : Option SecretKey) (w : Wallet) :
    keychain W mask w = ((unmasked W w mask).mapError .err, w) := rfl

/-- The keychain is read from the wallet's seed and checksum alone. -/
theorem unmasked_congr {W : World} {mask : Option SecretKey} {w w' : Wallet}
    (hk : w'.keychain = w.keychain) (hc : w'.masterChecksum = w.masterChecksum) :
    unmasked W w' mask = unmasked W w mask := by
  unfold unmasked
  rw [hk, hc]

/-- The keychain is found again as long as the wallet holds the same one. -/
theorem unmasked_of_writes {P : Key → Option Serializable → Prop} {w w' : Wallet}
    (h : Writes P w w') (mask : Option SecretKey) : unmasked W w' mask = unmasked W w mask :=
  unmasked_congr h.keychain h.masterChecksum

theorem keychain_reads (mask : Option SecretKey) : Prog.Reads (keychain W mask) :=
  Prog.Keeps.get.bind_ok fun _ _ _ h => by cases h; rfl

theorem keychain_ok {mask : Option SecretKey} {k : Keychain} {w w' : Wallet} :
    keychain W mask w = (.ok k, w') ↔ unmasked W w mask = .ok k ∧ w' = w :=
  Prog.ofExcept_eq_ok

theorem batch_ok {mask : Option SecretKey} {b : Batch} {w w' : Wallet} :
    batch W mask w = (.ok b, w') ↔ (∃ k, unmasked W w mask = .ok k ∧ b = ⟨some k⟩) ∧ w' = w := by
  unfold batch
  constructor
  · intro h
    obtain ⟨k, _, hk, h'⟩ := Prog.bind_ok.1 h
    obtain ⟨hk, rfl⟩ := (keychain_ok W).1 hk
    cases h'
    exact ⟨⟨k, hk, rfl⟩, rfl⟩
  · rintro ⟨⟨k, hk, rfl⟩, rfl⟩
    exact Prog.bind_ok.2 ⟨k, w', (keychain_ok W).2 ⟨hk, rfl⟩, rfl⟩

theorem batch_reads (mask : Option SecretKey) : Prog.Reads (batch W mask) :=
  (keychain_reads W mask).bind fun _ => .pure _

theorem calcCommitForCache_reads (mask : Option SecretKey) (amount : Nat) (id : Identifier) :
    Prog.Reads (calcCommitForCache W mask amount id) :=
  (keychain_reads W mask).bind fun _ => (Prog.Keeps.ofExcept _).bind fun _ => .pure _

theorem getPrivateContext_reads (mask : Option SecretKey) (slateId : Uuid) (participantId : Nat) :
    Prog.Reads (getPrivateContext W mask slateId participantId) := by
  refine (keychain_reads W mask).bind fun _ => (Prog.Keeps.ofExcept _).bind fun _ =>
    rows_reads.bind fun d => ?_
  split
  · exact .throw _
  · exact (Prog.Keeps.unwrap _).bind fun _ => .pure _

/-- The context found is the one stored, but for its secrets. -/
theorem getPrivateContext_ok {mask : Option SecretKey} {slateId : Uuid} {participantId : Nat}
    {c : Context} {w w' : Wallet}
    (h : getPrivateContext W mask slateId participantId w = (.ok c, w')) :
    w' = w ∧ ∃ stored keys, w.db.get (.privateTxContext slateId participantId) =
      some (.context stored) ∧ c = xorContext stored keys := by
  obtain ⟨k, w₁, hk, h₁⟩ := Prog.bind_ok.1 h
  obtain rfl := (keychain_reads W mask).eq hk
  obtain ⟨keys, w₂, hkeys, h₂⟩ := Prog.bind_ok.1 h₁
  obtain ⟨-, rfl⟩ := Prog.ofExcept_eq_ok.1 hkeys
  rw [Prog.bind_of_ok (rows_apply _)] at h₂
  rcases hg : w₂.db.get (.privateTxContext slateId participantId) with _ | v
  · rw [hg] at h₂
    cases h₂
  · rw [hg] at h₂
    obtain ⟨stored, w₃, hs, h₃⟩ := Prog.bind_ok.1 h₂
    obtain ⟨hctx, rfl⟩ := Prog.unwrap_eq_ok.1 hs
    cases h₃
    exact ⟨rfl, stored, keys, congrArg some (Serializable.asContext_eq.1 hctx), rfl⟩

theorem storeTx_err {slateId : Uuid} {tx : Transaction} {w : Wallet} {e : Error}
    (h : W.createFile w.tick (txFileName slateId) = .error e) :
    storeTx W slateId tx w = (.error (.err e), { w with tick := w.tick + 1 }) := by
  unfold storeTx
  rw [Prog.bind_of_ok (nextTick_apply w), h]
  rfl

theorem storeTx_ok {slateId : Uuid} {tx : Transaction} {w : Wallet}
    (h : W.createFile w.tick (txFileName slateId) = .ok ()) :
    storeTx W slateId tx w = (.ok (), { w with
      tick := w.tick + 1
      storedTxs := w.storedTxs.put (txFileName slateId) tx }) := by
  unfold storeTx
  rw [Prog.bind_of_ok (nextTick_apply w), h]
  rfl

/-- What `next_child` returns and writes. -/
theorem nextChild_ok {mask : Option SecretKey} {id : Identifier} {w w' : Wallet}
    (h : nextChild W mask w = (.ok id, w')) :
    ∃ n, n = asU32 (numericOf w.db (.deriv w.parentKeyId)) ∧ n + 1 < u32Size ∧
      w.parentKeyId.child n = some id ∧
      Sets (.deriv w.parentKeyId) (some (.numeric (n + 1))) w w' := by
  obtain ⟨_, _, hp, h⟩ := Prog.bind_ok.1 h
  cases hp
  obtain ⟨_, _, hi, h⟩ := Prog.bind_ok.1 h
  cases hi
  obtain ⟨_, _, hc, h⟩ := Prog.bind_ok.1 h
  obtain ⟨hc, rfl⟩ := Prog.unwrap_eq_ok.1 hc
  obtain ⟨_, _, ha, h⟩ := Prog.bind_ok.1 h
  obtain ⟨rfl, hn, rfl⟩ := addU32_ok.1 ha
  obtain ⟨_, _, hb, h⟩ := Prog.bind_ok.1 h
  obtain ⟨-, rfl⟩ := (batch_ok W).1 hb
  obtain ⟨⟨⟩, _, hs, h⟩ := Prog.bind_ok.1 h
  cases h
  exact ⟨_, rfl, hn, hc, put_sets hs⟩

theorem nextChild_writes {P : Key → Option Serializable → Prop} {mask : Option SecretKey}
    (hP : ∀ parent n, P (.deriv parent) (some (.numeric n))) :
    Prog.Keeps (Writes P) (nextChild W mask) :=
  parentKeyId_reads.keeps.bind fun _ => (currentChildIndex_reads _).keeps.bind fun _ =>
    (Prog.Keeps.unwrap _).bind fun _ => (addU32_reads _ _).keeps.bind fun _ =>
      (batch_reads W mask).keeps.bind fun _ => (put_writes (hP _ _)).bind fun _ =>
        (Prog.Keeps.pure _).bind fun _ => .pure _

end WalletBackend

end EpicWallet
