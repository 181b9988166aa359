import EpicWallet.Libwallet.Proof.Touches

/-!
# What a failed call leaves behind

A batch is no transaction, so a call that fails after its first write leaves that write in the
store. For locking and for receiving, the errors that come too late:

* `lockFailure_iff`: a failed `tx_lock_outputs` is without trace exactly if it does not fail on the
  payment proof or on the transaction file.
* `receiveFailure_iff`: a failed `receive_tx` is without trace exactly if the slate is not refused by
  the checks that follow the building of the recipient output.
-/

namespace EpicWallet

open Lib WalletBackend Batch

/-! ## Addresses -/

namespace Address

variable (W : World)

/-- What `address_from_derivation_path` computes; it does not look at the wallet. -/
def addressKey (k : Keychain) (parentKeyId : Identifier) (index : Nat) :
    Except (Fault Error) SecretKey :=
  let keyPath := { parentKeyId with p1 := 1, depth := parentKeyId.depth + 1 }
  match keyPath.setPath (keyPath.depth - 1) index with
  | none => .error .panic
  | some keyId => (W.deriveKey k 0 keyId .none >>= W.addressHash).mapError .err

theorem addressFromDerivationPath_apply (k : Keychain) (parentKeyId : Identifier) (index : Nat)
    (w : Wallet) :
    addressFromDerivationPath W k parentKeyId index w = (addressKey W k parentKeyId index, w) := by
  unfold addressFromDerivationPath addressKey
  dsimp only
  split
  · next h => rw [h]; rfl
  · next keyId h =>
    rw [h, Prog.bind_of_ok (Prog.unwrap_some keyId w)]
    rcases W.deriveKey k 0 keyId .none with e | key
    · rfl
    · rfl

end Address

/-! ## Locking -/

namespace Owner

variable (W : World)

/-- What the caller of a failed locking may rely on. -/
structure Unmoved (w w' : Wallet) : Prop where
  locked : ∀ id m o, w'.db.get (.output id m) = some (.outputData o) → o.status = .locked →
    ∃ o', w.db.get (.output id m) = some (.outputData o') ∧ o'.status = .locked
  added : ∀ id m, (w'.db.get (.output id m)).isSome → (w.db.get (.output id m)).isSome
  entries : ∀ parent id, w'.db.get (.txLogEntry parent id) = w.db.get (.txLogEntry parent id)
  counters : ∀ parent, w'.db.get (.txLogId parent) = w.db.get (.txLogId parent)

theorem Unmoved.refl (w : Wallet) : Unmoved w w :=
  ⟨fun _ _ o ho hl => ⟨o, ho, hl⟩, fun _ _ h => h, fun _ _ => rfl, fun _ => rfl⟩

/-- The slate asks for a payment proof that cannot be recorded: the context has no derivation index,
or the address of the sender cannot be derived. -/
def ProofRefused (k : Keychain) (slate : Slate) (context : Context) : Prop :=
  slate.paymentProof.isSome ∧ match context.paymentProofDerivationIndex with
    | none => True
    | some i => ∃ e, Address.addressKey W k context.parentKeyId i = .error (.err e)

/-- What is found before anything is written: the keychain, the context of the slate, and the
commits of its change. -/
structure LockReady (mask : Option SecretKey) (slate : Slate) (participantId : Nat) (w : Wallet)
    (k : Keychain) (context : Context) (commits : Rows Identifier (Option String × Nat)) : Prop where
  unmask : unmasked W w mask = .ok k
  found : getPrivateContext W mask slate.id participantId w = (.ok context, w)
  cached : Selection.outputCommits W mask context.outputIds w = (.ok commits, w)

/-- A log id can be handed out and the inputs of the context can be locked. -/
def InputsLock (context : Context) (w : Wallet) : Prop :=
  ∃ logId w₁ debited w₂, Batch.nextTxLogId context.parentKeyId w = (.ok logId, w₁) ∧
    context.inputIds.foldlM (Selection.lockInput logId) 0 { w₁ with tick := w₁.tick + 1 } =
      (.ok debited, w₂)

/-- The rows of a locking can be written: the inputs, the change and the entry. -/
def RowsLock (mask : Option SecretKey) (slate : Slate) (addrTo : Option String) (k : Keychain)
    (context : Context) (commits : Rows Identifier (Option String × Nat)) (w : Wallet) : Prop :=
  ∃ t w', Selection.lockRows W mask slate context addrTo k commits w = (.ok t, w')

/-- The failures that come after the first write. -/
inductive LateLockFailure (mask : Option SecretKey) (slate : Slate) (participantId : Nat)
    (addrTo : Option String) (w : Wallet) : Prop
  | proof (k : Keychain) (context : Context) (commits : Rows Identifier (Option String × Nat)) :
      LockReady W mask slate participantId w k context commits → InputsLock context w →
      ProofRefused W k slate context → LateLockFailure mask slate participantId addrTo w
  | file (k : Keychain) (context : Context) (commits : Rows Identifier (Option String × Nat))
      (e : Error) :
      LockReady W mask slate participantId w k context commits →
      RowsLock W mask slate addrTo k context commits w →
      W.createFile (w.tick + 1) (txFileName slate.id) = .error e →
      LateLockFailure mask slate participantId addrTo w

theorem storedProofInfo_err {k : Keychain} {slate : Slate} {context : Context} {w : Wallet} :
    (∃ e, Selection.storedProofInfo W k slate context w = (.error (.err e), w)) ↔
      ProofRefused W k slate context := by
  unfold Selection.storedProofInfo ProofRefused
  rcases slate.paymentProof with _ | p
  · simp
  · rcases context.paymentProofDerivationIndex with _ | i
    · simp only [Option.isSome_some, and_true, iff_true]
      exact ⟨_, rfl⟩
    · simp only [Option.isSome_some, true_and]
      rw [Prog.bind_of_ok (Prog.pure_apply i w)]
      have h := Address.addressFromDerivationPath_apply W k context.parentKeyId i w
      rcases hk : Address.addressKey W k context.parentKeyId i with e | key
      · rw [hk] at h
        rw [Prog.bind_of_error h]
        simp
      · rw [hk] at h
        rw [Prog.bind_of_ok h]
        simp

/-- The rows a locking writes once the id is handed out. -/
def LockKey (k : Key) (_ : Option Serializable) : Prop := k.asOutput = true ∨ k.asTxLogEntry = true

/-- How the block of the locking goes once its id is handed out: the counter stays, and the clock
was asked once. -/
structure AfterId (parent : Identifier) (logId : Nat) (w w' : Wallet) : Prop
    extends Handed parent logId w w' where
  tick : w'.tick = w.tick + 1

theorem AfterId.moved {parent : Identifier} {logId : Nat} {w w' : Wallet}
    (h : AfterId parent logId w w') : ¬Unmoved w w' := fun hu => h.moves (hu.counters parent)

/-- A program that writes only the store, and there only outputs and entries. -/
theorem AfterId.step {parent : Identifier} {logId : Nat} {w w₁ w₂ : Wallet}
    (h : AfterId parent logId w w₁) (hdb : OnlyDb w₁ w₂) (hw : Writes LockKey w₁ w₂) :
    AfterId parent logId w w₂ := by
  refine ⟨h.toHanded.writes hw (by simp [LockKey, Key.asOutput, Key.asTxLogEntry]), ?_⟩
  rw [hdb]
  exact h.tick

theorem afterId_start {parent : Identifier} {logId : Nat} {w w₁ : Wallet}
    (h : Batch.nextTxLogId parent w = (.ok logId, w₁)) :
    AfterId parent logId w { w₁ with tick := w₁.tick + 1 } := by
  have hh := handed_of_nextTxLogId h
  refine ⟨⟨hh.eq, hh.lt, hh.counter⟩, ?_⟩
  rw [(nextTxLogId_onlyDb parent).rel h]

theorem lockInputs_after {parent : Identifier} {logId debited : Nat} {w w₁ w₂ : Wallet}
    {ids : List (Identifier × Option Nat × Nat)} (h : AfterId parent logId w w₁)
    (hl : ids.foldlM (Selection.lockInput logId) 0 w₁ = (.ok debited, w₂)) :
    AfterId parent logId w w₂ :=
  h.step ((Prog.Keeps.foldlM _ _ fun _ _ _ => Selection.lockInput_onlyDb _ _ _).rel hl)
    ((Prog.Keeps.foldlM _ _ fun _ _ _ => Selection.lockInput_writes fun _ => .inl rfl).rel hl)

/-- The only error of the block is that of the payment proof. -/
theorem lockRows_err {mask : Option SecretKey} {slate : Slate} {context : Context}
    {addrTo : Option String} {k : Keychain} {commits : Rows Identifier (Option String × Nat)}
    {e : Error} {w w' : Wallet} (hk : unmasked W w mask = .ok k)
    (h : Selection.lockRows W mask slate context addrTo k commits w = (.error (.err e), w')) :
    InputsLock context w ∧ ProofRefused W k slate context ∧
      ∃ logId, AfterId context.parentKeyId logId w w' := by
  unfold Selection.lockRows at h
  rw [Prog.bind_of_ok ((batch_ok W).2 ⟨⟨k, hk, rfl⟩, rfl⟩)] at h
  rcases Prog.bind_error.1 h with h | ⟨logId, w₁, hid, h⟩
  · exact absurd h (Batch.nextTxLogId_errless _ _ _ _)
  have hafter := afterId_start hid
  rw [Prog.bind_of_ok (nextTick_apply w₁)] at h
  rcases Prog.bind_error.1 h with h | ⟨debited, w₂, hl, h⟩
  · exact absurd h (Prog.Errless.foldlM (fun _ _ => Selection.lockInput_errless _ _ _) _ _ _ _ _)
  have hafter₂ := lockInputs_after hafter hl
  have hlock : InputsLock context w := ⟨logId, w₁, debited, w₂, hid, hl⟩
  rcases Prog.bind_error.1 h with h | ⟨proof, w₃, hp, h⟩
  · obtain rfl := (Selection.storedProofInfo_reads W k slate context).eq h
    exact ⟨hlock, (storedProofInfo_err W).1 ⟨e, h⟩, logId, hafter₂⟩
  -- what is left fails by a panic only
  · refine absurd h (Prog.Errless.bind ?_ (fun t => ?_) _ _ _)
    · exact Prog.Errless.foldlM (fun _ _ => Selection.saveChange_errless _ _ _ _ _ _) _ _
    · exact (put_errless _ _).bind fun _ => .bind (.pure _) fun _ => .pure _

/-- A block that returned handed out an id and asked the clock once. -/
theorem lockRows_after {mask : Option SecretKey} {slate : Slate} {context : Context}
    {addrTo : Option String} {k : Keychain} {commits : Rows Identifier (Option String × Nat)}
    {t : TxLogEntry} {w w' : Wallet}
    (h : Selection.lockRows W mask slate context addrTo k commits w = (.ok t, w')) :
    t.txSlateId = some slate.id ∧ ∃ logId, AfterId context.parentKeyId logId w w' := by
  obtain ⟨b, w₁, hb, h₁⟩ := Prog.bind_ok.1 h
  obtain ⟨-, rfl⟩ := (batch_ok W).1 hb
  obtain ⟨logId, w₂, hid, h₂⟩ := Prog.bind_ok.1 h₁
  obtain ⟨tick, w₃, ht, h₃⟩ := Prog.bind_ok.1 h₂
  cases ht
  obtain ⟨debited, w₄, hl, h₄⟩ := Prog.bind_ok.1 h₃
  have hafter := lockInputs_after (afterId_start hid) hl
  obtain ⟨proof, w₅, hp, h₅⟩ := Prog.bind_ok.1 h₄
  obtain rfl := (Selection.storedProofInfo_reads W k slate context).eq hp
  obtain ⟨t', w₆, hc, h₆⟩ := Prog.bind_ok.1 h₅
  have hchange := Selection.saveChanges_ok hc
  have hafter₆ := hafter.step
    ((Prog.Keeps.foldlM _ _ fun _ _ _ => Selection.saveChange_onlyDb _ _ _ _ _ _).rel hc)
    ((Prog.Keeps.foldlM _ _ fun _ _ _ => Selection.saveChange_writes fun _ => .inl rfl).rel hc)
  obtain ⟨⟨⟩, w₇, hsave, h₇⟩ := Prog.bind_ok.1 h₆
  cases h₇
  refine ⟨by rw [hchange.entry]; rfl, logId, hafter₆.step ((put_onlyDb _ _).rel hsave) ?_⟩
  exact (put_writes (.inr rfl)).rel hsave

/-- The inputs lock and the proof is refused: the block fails there. -/
theorem lockRows_of_refused {mask : Option SecretKey} {slate : Slate} {context : Context}
    {addrTo : Option String} {k : Keychain} {commits : Rows Identifier (Option String × Nat)}
    {w : Wallet} (hk : unmasked W w mask = .ok k) (hl : InputsLock context w)
    (hp : ProofRefused W k slate context) :
    ∃ e w', Selection.lockRows W mask slate context addrTo k commits w = (.error (.err e), w') := by
  obtain ⟨logId, w₁, debited, w₂, hid, hl⟩ := hl
  obtain ⟨e, he⟩ := (storedProofInfo_err W (w := w₂)).2 hp
  refine ⟨e, w₂, ?_⟩
  unfold Selection.lockRows
  rw [Prog.bind_of_ok ((batch_ok W).2 ⟨⟨k, hk, rfl⟩, rfl⟩), Prog.bind_of_ok hid,
    Prog.bind_of_ok (nextTick_apply w₁), Prog.bind_of_ok hl, Prog.bind_of_error he]

/-- Once everything is found, the call is the block and then the file. -/
theorem txLockOutputs_of_ready {mask : Option SecretKey} {slate : Slate} {participantId : Nat}
    {addrTo : Option String} {w : Wallet} {k : Keychain} {context : Context}
    {commits : Rows Identifier (Option String × Nat)}
    (h : LockReady W mask slate participantId w k context commits) :
    txLockOutputs W mask slate participantId addrTo w =
      (Selection.lockRows W mask slate context addrTo k commits >>= fun txEntry => do
        let slateId ← Prog.unwrap txEntry.txSlateId
        storeTx W slateId slate.tx) w := by
  unfold txLockOutputs Selection.lockTxContext
  rw [Prog.bind_of_ok h.found, Prog.bind_of_ok h.cached,
    Prog.bind_of_ok ((keychain_ok W).2 ⟨h.unmask, rfl⟩)]

/-- A call that fails before it found everything changes nothing. -/
theorem txLockOutputs_err {mask : Option SecretKey} {slate : Slate} {participantId : Nat}
    {addrTo : Option String} {w w' : Wallet} {e : Error}
    (h : txLockOutputs W mask slate participantId addrTo w = (.error (.err e), w')) :
    w' = w ∨ ∃ k context commits, LockReady W mask slate participantId w k context commits := by
  rcases Prog.bind_error.1 h with he | ⟨context, w₁, hc, h₁⟩
  · exact .inl ((getPrivateContext_reads W mask slate.id participantId).eq he)
  obtain rfl := (getPrivateContext_reads W mask slate.id participantId).eq hc
  rcases Prog.bind_error.1 h₁ with he | ⟨commits, w₂, ho, h₂⟩
  · exact .inl ((Selection.outputCommits_reads W mask context.outputIds).eq he)
  obtain rfl := (Selection.outputCommits_reads W mask context.outputIds).eq ho
  rcases Prog.bind_error.1 h₂ with he | ⟨k, w₃, hk, h₃⟩
  · exact .inl ((keychain_reads W mask).eq he)
  obtain ⟨hunmask, rfl⟩ := (keychain_ok W).1 hk
  exact .inr ⟨k, context, commits, hunmask, hc, ho⟩

/-- A wallet that prepared a payment, and the slate of it returned with a payment proof nobody asked
for. -/
def prepared : Wallet := (initSendTx World.small none World.payFive World.funded).2

def unrequestedProof : Slate :=
  { World.slateOr World.emptySlate (initSendTx World.small none World.payFive World.funded) with
    paymentProof := some ⟨⟨1⟩, ⟨2⟩, none⟩ }

end Owner

/-! ## Receiving -/

namespace Foreign

variable (W : World)

/-- A failed receiving without trace: the same slate, corrected, is not refused for it. -/
structure NoTrace (id : Uuid) (w w' : Wallet) : Prop where
  untouched : Untouched w w'
  refusal : ∀ parent, alreadyReceived w'.db parent id = alreadyReceived w.db parent id

theorem noTrace_of_untouched {id : Uuid} {w w' : Wallet} (h : Untouched w w') : NoTrace id w w' :=
  ⟨h, fun parent => h.alreadyReceived_eq parent id⟩

/-- The slate passes the first checks, and the recipient output is built: from here on the wallet has
changed. -/
structure ReceiveReady (mask : Option SecretKey) (slate : Slate) (destAcctName : Option String)
    (message : Option String) (w : Wallet) (parent : Identifier) (message' : Option String)
    (k : Keychain) (slate' : Slate) (keyId : Identifier) (context : Context) (w₁ : Wallet) :
    Prop where
  alive : checkTtl slate w = (.ok (), w)
  account : accountNamed destAcctName w = (.ok parent, w)
  fresh : alreadyReceived w.db parent slate.id = false
  truncated : truncateMessage message w = (.ok message', w)
  unmask : unmasked W w₁ mask = .ok k
  built : Selection.buildRecipientOutput W mask slate parent w = (.ok (slate', keyId, context), w₁)

/-- The excess cannot be computed, or the payment proof asked for cannot be signed. -/
def ProofUnsigned (k : Keychain) (parent : Identifier) (slate : Slate) : Prop :=
  (∃ e, slate.calcExcess W = .error e) ∨
    slate.paymentProof.isSome ∧ ∃ e, Address.addressKey W k parent 0 = .error (.err e)

/-- The failures that come after the recipient output is built. -/
inductive LateReceiveFailure (mask : Option SecretKey) (slate : Slate)
    (destAcctName message addrFrom : Option String) (w : Wallet) : Prop
  | round1 {parent : Identifier} {message' : Option String} {k : Keychain} {slate' : Slate}
      {keyId : Identifier} {context : Context} {w₁ w₂ : Wallet} {e : Error} :
      ReceiveReady W mask slate destAcctName message w parent message' k slate' keyId context w₁ →
      slate'.fillRound1 W k context.secKey context.secNonce 1 message' w₁ = (.error (.err e), w₂) →
      LateReceiveFailure mask slate destAcctName message addrFrom w
  | round2 {parent : Identifier} {message' : Option String} {k : Keychain} {slate' s₁ : Slate}
      {keyId : Identifier} {context : Context} {sec : SecretKey} {w₁ w₂ w₃ : Wallet} {e : Error} :
      ReceiveReady W mask slate destAcctName message w parent message' k slate' keyId context w₁ →
      slate'.fillRound1 W k context.secKey context.secNonce 1 message' w₁ = (.ok (s₁, sec), w₂) →
      s₁.fillRound2 W sec context.secNonce 1 w₂ = (.error (.err e), w₃) →
      LateReceiveFailure mask slate destAcctName message addrFrom w
  | proof {parent : Identifier} {message' : Option String} {k : Keychain} {slate' s₁ s₂ : Slate}
      {keyId : Identifier} {context : Context} {sec : SecretKey} {w₁ w₂ w₃ w₄ w₅ : Wallet} :
      ReceiveReady W mask slate destAcctName message w parent message' k slate' keyId context w₁ →
      slate'.fillRound1 W k context.secKey context.secNonce 1 message' w₁ = (.ok (s₁, sec), w₂) →
      s₁.fillRound2 W sec context.secNonce 1 w₂ = (.ok s₂, w₃) →
      Tx.updateMessage W mask s₂ w₃ = (.ok (), w₄) →
      Tx.updatePublicAddr W mask s₂ addrFrom (some parent) w₄ = (.ok (), w₅) →
      ProofUnsigned W k parent s₂ →
      LateReceiveFailure mask slate destAcctName message addrFrom w

/-- What `receive_tx` does once the recipient output is built. -/
def afterBuild (mask : Option SecretKey) (k : Keychain) (parent : Identifier)
    (message addrFrom : Option String) (slate : Slate) (context : Context) : WalletM Slate := do
  let (s₁, sec) ← slate.fillRound1 W k context.secKey context.secNonce 1 message
  let s₂ ← s₁.fillRound2 W sec context.secNonce 1
  Tx.updateMessage W mask s₂
  Tx.updatePublicAddr W mask s₂ addrFrom (some parent)
  let excess ← Prog.ofExcept (s₂.calcExcess W)
  signProof W k parent excess s₂

theorem any_eq_alreadyReceived {d : Rows Key Serializable} {parent : Identifier} {id : Uuid}
    {l : List TxLogEntry}
    (h : ∀ t, t ∈ l ↔ t ∈ Updater.selectedTxs d none (some id) (some parent) false) :
    l.any (·.txType = .txReceived) = alreadyReceived d parent id := by
  unfold alreadyReceived
  rw [Bool.eq_iff_iff, List.any_eq_true, List.any_eq_true]
  simp only [h]

theorem addOutputToSlate_of_built {mask : Option SecretKey} {slate slate' : Slate}
    {parent keyId : Identifier} {message : Option String} {context : Context} {k : Keychain}
    {w w₁ : Wallet} (hk : unmasked W w₁ mask = .ok k)
    (hb : Selection.buildRecipientOutput W mask slate parent w = (.ok (slate', keyId, context), w₁)) :
    Tx.addOutputToSlate W mask slate parent 1 message false w =
      (slate'.fillRound1 W k context.secKey context.secNonce 1 message >>= fun r =>
        r.1.fillRound2 W r.2 context.secNonce 1 >>= fun s =>
          pure (s, { context with secKey := r.2 })) w₁ := by
  unfold Tx.addOutputToSlate
  rw [Prog.bind_of_ok hb]
  dsimp only
  rw [Prog.bind_of_ok ((keychain_ok W).2 ⟨hk, rfl⟩), Prog.bind_apply, Prog.bind_apply]
  rcases hf : slate'.fillRound1 W k context.secKey context.secNonce 1 message w₁ with ⟨_ | ⟨s, sec⟩, w₂⟩
  · rfl
  · have hk₂ : unmasked W w₂ mask = .ok k := by
      rw [unmasked_of_writes W (((Slate.fillRound1_aside W _ _ _ _ _ _).rel hf).writes
        (P := fun _ _ => False)) mask, hk]
    exact Prog.bind_of_ok ((keychain_ok W).2 ⟨hk₂, rfl⟩)

/-- Once the recipient output is built, the call is what follows it. -/
theorem receiveTx_of_ready {mask : Option SecretKey} {slate slate' : Slate}
    {destAcctName message addrFrom message' : Option String} {w w₁ : Wallet}
    {parent keyId : Identifier} {k : Keychain} {context : Context}
    (h : ReceiveReady W mask slate destAcctName message w parent message' k slate' keyId context w₁) :
    receiveTx W mask slate destAcctName message addrFrom w =
      afterBuild W mask k parent message' addrFrom slate' context w₁ := by
  obtain ⟨n, l, hl, hmem⟩ := Updater.retrieveTxs_all none (some slate.id) (some parent) false none w
  unfold receiveTx afterBuild
  rw [Prog.bind_of_ok h.alive, Prog.bind_of_ok h.account, Prog.bind_of_ok hl,
    if_neg (by simp [any_eq_alreadyReceived hmem, h.fresh]), Prog.bind_of_ok h.truncated,
    Prog.bind_apply, addOutputToSlate_of_built W h.unmask h.built, Prog.bind_apply, Prog.bind_apply]
  rcases hf : slate'.fillRound1 W k context.secKey context.secNonce 1 message' w₁ with
    ⟨_ | ⟨s₁, sec⟩, w₂⟩
  · rfl
  dsimp only
  rw [Prog.bind_apply, Prog.bind_apply]
  rcases hf₂ : s₁.fillRound2 W sec context.secNonce 1 w₂ with ⟨_ | s₂, w₃⟩
  · rfl
  dsimp only [Prog.pure_apply]
  rw [Prog.bind_apply, Prog.bind_apply]
  rcases hm : Tx.updateMessage W mask s₂ w₃ with ⟨_ | ⟨⟩, w₄⟩
  · rfl
  dsimp only
  rw [Prog.bind_apply, Prog.bind_apply]
  rcases ha : Tx.updatePublicAddr W mask s₂ addrFrom (some parent) w₄ with ⟨_ | ⟨⟩, w₅⟩
  · rfl
  have hk : unmasked W w₅ mask = .ok k := by
    rw [unmasked_of_writes W ((Tx.updateEntries_writes W _ _ _ _).rel ha),
      unmasked_of_writes W ((Tx.updateEntries_writes W _ _ _ _).rel hm),
      unmasked_of_writes W (((Slate.fillRound2_aside W _ _ _ _).rel hf₂).writes
        (P := fun _ _ => False)),
      unmasked_of_writes W (((Slate.fillRound1_aside W _ _ _ _ _ _).rel hf).writes
        (P := fun _ _ => False)), h.unmask]
  exact Prog.bind_of_ok ((keychain_ok W).2 ⟨hk, rfl⟩)

theorem signProof_apply (k : Keychain) (parent : Identifier) (excess : Commitment) (slate : Slate)
    (w : Wallet) : (∃ e, signProof W k parent excess slate w = (.error (.err e), w)) ↔
      slate.paymentProof.isSome ∧ ∃ e, Address.addressKey W k parent 0 = .error (.err e) := by
  unfold signProof
  rcases slate.paymentProof with _ | p
  · simp
  · have h := Address.addressFromDerivationPath_apply W k parent 0 w
    dsimp only
    rcases hk : Address.addressKey W k parent 0 with e | key
    · rw [hk] at h
      rw [Prog.bind_of_error h]
      simp
    · rw [hk] at h
      rw [Prog.bind_of_ok h]
      simp

/-- Computing the excess and signing the proof fail exactly if the proof cannot be signed. -/
theorem proofUnsigned_iff {k : Keychain} {parent : Identifier} {slate : Slate} {w : Wallet} :
    (∃ e, (Prog.ofExcept (slate.calcExcess W) >>= fun excess => signProof W k parent excess slate) w =
      (.error (.err e), w)) ↔ ProofUnsigned W k parent slate := by
  unfold ProofUnsigned
  rcases hc : slate.calcExcess W with e | excess
  · simp only [Except.error.injEq, exists_eq', true_or, iff_true]
    exact ⟨e, rfl⟩
  · simp only [reduceCtorEq, exists_false, false_or]
    exact signProof_apply W k parent excess slate w

/-- After the recipient output only log entries are written. -/
theorem afterBuild_writes (mask : Option SecretKey) (k : Keychain) (parent : Identifier)
    (message addrFrom : Option String) (slate : Slate) (context : Context) :
    Prog.Keeps (Writes fun k _ => k.asTxLogEntry = true)
      (afterBuild W mask k parent message addrFrom slate context) := by
  have hupdate : ∀ (s : Slate) (p : Option Identifier) (f : TxLogEntry → TxLogEntry),
      Prog.Keeps (Writes fun k _ => k.asTxLogEntry = true) (Tx.updateEntries W mask s p f) :=
    fun s p f => (Tx.updateEntries_writes W mask s p f).mono fun _ _ h =>
      h.mono fun _ _ ⟨_, hk, _⟩ => hk ▸ rfl
  refine ((Slate.fillRound1_aside W _ _ _ _ _ _).mono fun _ _ => Aside.writes).bind fun r => ?_
  refine ((Slate.fillRound2_aside W _ _ _ _).mono fun _ _ => Aside.writes).bind fun s₂ => ?_
  refine (hupdate _ _ _).bind fun _ => (hupdate _ _ _).bind fun _ => ?_
  exact (Prog.Keeps.ofExcept _).bind fun _ => (signProof_reads W _ _ _ _).keeps

/-- Whatever follows the recipient output, the log id stays handed out. -/
theorem ReceiveReady.moved {mask : Option SecretKey} {slate slate' : Slate}
    {destAcctName message addrFrom message' : Option String} {w w₁ w' : Wallet}
    {parent keyId : Identifier} {k : Keychain} {context : Context}
    {r : Except (Fault Error) Slate}
    (h : ReceiveReady W mask slate destAcctName message w parent message' k slate' keyId context w₁)
    (hr : afterBuild W mask k parent message' addrFrom slate' context w₁ = (r, w')) :
    ¬Untouched w w' := by
  obtain ⟨logId, hrows⟩ := Selection.buildRecipientOutput_ok W h.built
  have hh := hrows.toHanded.writes ((afterBuild_writes W _ _ _ _ _ _ _).rel hr)
    (by simp [Key.asTxLogEntry])
  exact fun hu => hh.moves (hu.counters parent)

/-- A receiving that fails before the recipient output is built leaves no trace. -/
theorem receiveTx_err {mask : Option SecretKey} {slate : Slate}
    {destAcctName message addrFrom : Option String} {e : Error} {w w' : Wallet}
    (h : receiveTx W mask slate destAcctName message addrFrom w = (.error (.err e), w')) :
    Untouched w w' ∨ ∃ parent message' k slate' keyId context w₁,
      ReceiveReady W mask slate destAcctName message w parent message' k slate' keyId context w₁ := by
  unfold receiveTx at h
  rcases Prog.bind_error.1 h with he | ⟨⟨⟩, w₁, halive, h₁⟩
  · exact .inl ((checkTtl_reads slate).keeps.rel he)
  obtain rfl := (checkTtl_reads slate).eq halive
  rcases Prog.bind_error.1 h₁ with he | ⟨parent, w₂, hacc, h₂⟩
  · exact absurd he (accountNamed_errless _ _ _ _)
  obtain rfl := (accountNamed_reads destAcctName).eq hacc
  obtain ⟨n, l, hl, hmem⟩ :=
    Updater.retrieveTxs_all none (some slate.id) (some parent) false none w₂
  rw [Prog.bind_of_ok hl] at h₂
  split at h₂
  · cases h₂
    exact .inl (Std.Refl.refl _)
  next hany =>
  have hfresh : alreadyReceived w₂.db parent slate.id = false := by
    rw [← any_eq_alreadyReceived hmem]
    simpa using hany
  rcases Prog.bind_error.1 h₂ with he | ⟨message', w₃, hmsg, h₃⟩
  · exact absurd he (truncateMessage_errless _ _ _ _)
  obtain rfl := (truncateMessage_reads message).eq hmsg
  rcases hb : Selection.buildRecipientOutput W mask slate parent w₃ with
    ⟨(e' | _) | ⟨slate', keyId, context⟩, w₄⟩
  · have hadd : Tx.addOutputToSlate W mask slate parent 1 message' false w₃ =
        (.error (.err e'), w₄) := Prog.bind_of_error hb
    rw [Prog.bind_of_error hadd] at h₃
    cases h₃
    exact .inl (Selection.buildRecipientOutput_err W hb)
  · have hadd : Tx.addOutputToSlate W mask slate parent 1 message' false w₃ =
        (.error .panic, w₄) := Prog.bind_of_error hb
    rw [Prog.bind_of_error hadd] at h₃
    cases h₃
  · obtain ⟨logId, hrows⟩ := Selection.buildRecipientOutput_ok W hb
    obtain ⟨k, hk⟩ := hrows.unmask
    exact .inr ⟨parent, message', k, slate', keyId, context, w₄, halive, hacc, hfresh, hmsg, hk, hb⟩

/-- What follows the recipient output fails only by the checks of the slate. -/
theorem afterBuild_err {mask : Option SecretKey} {slate slate' : Slate}
    {destAcctName message addrFrom message' : Option String} {w w₁ w' : Wallet}
    {parent keyId : Identifier} {k : Keychain} {context : Context} {e : Error}
    (h : ReceiveReady W mask slate destAcctName message w parent message' k slate' keyId context w₁)
    (he : afterBuild W mask k parent message' addrFrom slate' context w₁ = (.error (.err e), w')) :
    LateReceiveFailure W mask slate destAcctName message addrFrom w := by
  obtain ⟨logId, hrows⟩ := Selection.buildRecipientOutput_ok W h.built
  obtain ⟨messages, now, hentry⟩ := hrows.entry
  rcases Prog.bind_error.1 he with he | ⟨⟨s₁, sec⟩, w₂, hf₁, h₂⟩
  · exact .round1 h he
  have ha₁ := (Slate.fillRound1_aside W _ _ _ _ _ _).rel hf₁
  rcases Prog.bind_error.1 h₂ with he | ⟨s₂, w₃, hf₂, h₃⟩
  · exact .round2 h hf₁ he
  have ha₂ := (Slate.fillRound2_aside W _ _ _ _).rel hf₂
  have hid : s₂.id = slate'.id := (Slate.fillRound2_id W hf₂).trans (Slate.fillRound1_id W hf₁)
  have hw₃ : Writes (fun _ _ => False) w₁ w₃ := IsTrans.trans _ w₂ _ ha₁.writes ha₂.writes
  have hk₃ : unmasked W w₃ mask = .ok k := (unmasked_of_writes W hw₃ mask).trans h.unmask
  have hrow : w₃.db.get (.txLogEntry parent logId) =
      some (.txLogEntry (Selection.newReceiveEntry W slate' messages parent logId now)) :=
    (hw₃.get_eq rfl (by simp)).trans hentry
  have hentry₃ : Tx.HasEntry w₃.db s₂.id none :=
    ⟨parent, logId, _, hrow, by rw [hid]; rfl, by simp [Tx.InAccount]⟩
  rcases Prog.bind_error.1 h₃ with he | ⟨⟨⟩, w₄, hm, h₄⟩
  · exact absurd he (Tx.updateEntries_errless W hk₃ hentry₃)
  have hw₄ := (Tx.updateEntries_writes W _ _ _ _).rel hm
  have hk₄ : unmasked W w₄ mask = .ok k := (unmasked_of_writes W hw₄ mask).trans hk₃
  have hentry₄ : Tx.HasEntry w₄.db s₂.id (some parent) :=
    Tx.hasEntry_of_updated hw₄ (fun _ => rfl) (fun _ => rfl) hrow (by rw [hid]; rfl) rfl (by simp)
  rcases Prog.bind_error.1 h₄ with he | ⟨⟨⟩, w₅, hp, h₅⟩
  · exact absurd he (Tx.updateEntries_errless W hk₄ hentry₄)
  refine .proof h hf₁ hf₂ hm hp ((proofUnsigned_iff W (w := w₅)).1 ⟨e, ?_⟩)
  have hreads : Prog.Reads
      (Prog.ofExcept (s₂.calcExcess W) >>= fun excess => signProof W k parent excess s₂) :=
    (Prog.Keeps.ofExcept _).bind fun _ => signProof_reads W _ _ _ _
  rw [h₅, hreads.eq h₅]

/-- A late failure is one. -/
theorem LateReceiveFailure.fails {mask : Option SecretKey} {slate : Slate}
    {destAcctName message addrFrom : Option String} {w : Wallet}
    (h : LateReceiveFailure W mask slate destAcctName message addrFrom w) :
    ∃ e w', receiveTx W mask slate destAcctName message addrFrom w = (.error (.err e), w') ∧
      ¬Untouched w w' := by
  cases h with
  | @round1 parent message' k slate' keyId context w₁ w₂ e hr hf =>
    have hrun : afterBuild W mask k parent message' addrFrom slate' context w₁ =
        (.error (.err e), w₂) := Prog.bind_of_error hf
    exact ⟨e, w₂, (receiveTx_of_ready W hr).trans hrun, hr.moved W hrun⟩
  | @round2 parent message' k slate' s₁ keyId context sec w₁ w₂ w₃ e hr hf₁ hf₂ =>
    have hrun : afterBuild W mask k parent message' addrFrom slate' context w₁ =
        (.error (.err e), w₃) := (Prog.bind_of_ok hf₁).trans (Prog.bind_of_error hf₂)
    exact ⟨e, w₃, (receiveTx_of_ready W hr).trans hrun, hr.moved W hrun⟩
  | @proof parent message' k slate' s₁ s₂ keyId context sec w₁ w₂ w₃ w₄ w₅ hr hf₁ hf₂ hm ha hp =>
    obtain ⟨e, he⟩ := (proofUnsigned_iff W (w := w₅)).2 hp
    have hrun : afterBuild W mask k parent message' addrFrom slate' context w₁ =
        (.error (.err e), w₅) :=
      (Prog.bind_of_ok hf₁).trans <| (Prog.bind_of_ok hf₂).trans <|
        (Prog.bind_of_ok hm).trans <| (Prog.bind_of_ok ha).trans he
    exact ⟨e, w₅, (receiveTx_of_ready W hr).trans hrun, hr.moved W hrun⟩

/-- A slate that pays 5 and no fee. -/
def feelessSlate : Slate := { World.emptySlate with amount := 5 }

end Foreign

end EpicWallet
