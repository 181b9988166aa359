import EpicWallet.Libwallet.Proof.Interleave
import EpicWallet.Libwallet.Proof.Reward

/-!
# The account of an output

An output is stored for an account (`root_key_id`) under a key, and a scan that restores it from the
chain knows the key only. `Rooted` says that the account is the parent of the key. Keys are drawn from
the active account (`next_child`) while the account stored is the one a request names, so the two
agree as long as every request that draws keys names the active account (`Op.NamesActive`).
-/

namespace EpicWallet

open Lib WalletBackend

/-! ## Outputs in place -/

/-- The output is stored for the account its key lies under. -/
def OutputData.Rooted (o : OutputData) : Prop := o.rootKeyId = o.keyId.parentPath

/-- The outputs the context will store are keyed under its account. -/
def Context.Rooted (c : Context) : Prop := ∀ out ∈ c.outputIds, out.1.parentPath = c.parentKeyId

/-- What a row must be like. -/
def RowInPlace : Key → Serializable → Prop
  | .output _ _, .outputData o => o.Rooted
  | .privateTxContext _ _, .context c => c.Rooted
  | .accountPathMapping _, .acctPathMapping a => IsAccountPath a.path
  | _, _ => True

/-- All rows are in place, and the active account is one keys can be drawn from. -/
structure InPlace (w : Wallet) : Prop where
  rows : w.db.All RowInPlace
  active : IsAccountPath w.parentKeyId

theorem InPlace.rooted {w : Wallet} (h : InPlace w) {o : OutputData} (ho : o ∈ outputsOf w.db) :
    o.Rooted := by
  obtain ⟨id, m, hg⟩ := mem_outputsOf.1 ho
  exact h.rows _ _ hg

/-- The step keeps the rows in place and the account active. -/
def PlaceStep (w w' : Wallet) : Prop := (InPlace w → InPlace w') ∧ w'.parentKeyId = w.parentKeyId

instance : Std.Refl PlaceStep := ⟨fun _ => ⟨id, rfl⟩⟩

instance : IsTrans Wallet PlaceStep := ⟨fun _ _ _ h h' => ⟨h'.1 ∘ h.1, h'.2.trans h.2⟩⟩

/-- The step keeps the rows in place. -/
abbrev PlaceInv : Wallet → Wallet → Prop := Prog.Inv InPlace

theorem keeps_placeInv {α : Type} {p : WalletM α} (h : Prog.Keeps PlaceStep p) :
    Prog.Keeps PlaceInv p := h.mono fun _ _ hs => hs.1

theorem placeStep_of_db {w w' : Wallet} (hdb : w'.db = w.db) (hp : w'.parentKeyId = w.parentKeyId) :
    PlaceStep w w' := by
  refine ⟨fun h => ⟨?_, ?_⟩, hp⟩
  · rw [hdb]
    exact h.rows
  · rw [hp]
    exact h.active

theorem put_placeStep {k : Key} {v : Serializable} (hv : RowInPlace k v) :
    Prog.Keeps PlaceStep (put k v) := by
  intro w
  unfold put
  split
  · exact ⟨fun h => ⟨h.rows.put hv, h.active⟩, rfl⟩
  · exact Std.Refl.refl w

theorem deleteRow_placeStep (k : Key) : Prog.Keeps PlaceStep (deleteRow k) := fun _ =>
  ⟨fun h => ⟨h.rows.erase k, h.active⟩, rfl⟩

/-- The rows the invariant is not about. -/
def unplacedRows : List RowKind := [.history, .deriv, .height, .entry, .logId, .scanned, .status]

theorem rowInPlace_of_kind {k : Key} (hk : k.kind ∈ unplacedRows) (v : Serializable) :
    RowInPlace k v := by
  cases k <;> trivial

theorem placeStep_frees : Frees PlaceStep unplacedRows where
  aside w w' h := placeStep_of_db h.db (by rw [h])
  files _ _ := placeStep_of_db rfl rfl
  puts k hk v _ := put_placeStep (rowInPlace_of_kind hk v)
  erases k _ := deleteRow_placeStep k

theorem placeInv_frees : Frees PlaceInv unplacedRows where
  aside _ _ h := (placeStep_frees.aside _ _ h).1
  files _ _ := (placeStep_frees.files _ _).1
  puts k hk v hv := keeps_placeInv (placeStep_frees.puts k hk v hv)
  erases k hk := keeps_placeInv (placeStep_frees.erases k hk)

theorem setParentKeyIdByName_placeInv (label : String) :
    Prog.Keeps PlaceInv (setParentKeyIdByName label) := by
  intro w h
  unfold setParentKeyIdByName
  have hl : acctPathIter w = (.ok (accountsOf w.db), w) := rfl
  rw [Prog.bind_of_ok hl]
  rcases hf : (accountsOf w.db).find? fun a => decide (a.label = label) with _ | a
  · rw [hf]
    exact h
  · rw [hf]
    obtain ⟨l, hg⟩ := mem_accountsOf.1 (List.mem_of_find?_eq_some hf)
    exact ⟨h.rows, h.rows _ _ hg⟩

theorem walletLock_placeInv (W : World) : Prog.Keeps PlaceInv (walletLock W) :=
  placeInv_frees.nextTick.bind fun _ => .ite (fun _ => .panic) fun _ => Prog.Keeps.forEach _ fun _ _ =>
    (setParentKeyIdByName_placeInv _).attempt.bind fun _ => .pure _

/-! ## Single outputs -/

/-- The rows are in place and `p` is active. -/
def At (p : Identifier) (w : Wallet) : Prop := InPlace w ∧ w.parentKeyId = p

section
variable {p : Identifier}

theorem keeps_at {α : Type} {prog : WalletM α} (h : Prog.Keeps PlaceStep prog) :
    Prog.Triple (At p) prog (fun _ => At p) (At p) :=
  h.triple (fun _ _ _ hw hs => ⟨hs.1 hw.1, hs.2.trans hw.2⟩)
    fun _ _ hw hs => ⟨hs.1 hw.1, hs.2.trans hw.2⟩

theorem reads_at {α : Type} {prog : WalletM α} (h : Prog.Reads prog) :
    Prog.Triple (At p) prog (fun _ => At p) (At p) := keeps_at h.keeps

/-- What holds at whatever account is active is a step. -/
theorem placeStep_of_triple {α : Type} {prog : WalletM α}
    (h : ∀ p, Prog.Triple (At p) prog (fun _ => At p) (At p)) (w : Wallet) :
    InPlace w → InPlace (prog w).2 := fun hw =>
  ((h w.parentKeyId).state (I := At w.parentKeyId) (fun _ _ h => h) (fun _ h => h) ⟨hw, rfl⟩).1

theorem save_placeStep {o : OutputData} (ho : o.Rooted) : Prog.Keeps PlaceStep (Batch.save o) := by
  refine Prog.Keeps.bind ?_ fun _ => put_placeStep ho
  refine (getOutput_reads _ _).keeps.attempt.bind fun r => ?_
  split
  · exact .ite (fun _ => Batch.saveOutputHistory_keeps placeStep_frees (by decide) _) fun _ => .pure _
  · exact .pure _

theorem delete_placeStep (id : Identifier) (mmrIndex txId : Option Nat) :
    Prog.Keeps PlaceStep (Batch.delete id mmrIndex txId) := by
  refine Prog.Keeps.bind ?_ fun _ => deleteRow_placeStep _
  refine (getOutput_reads _ _).keeps.attempt.bind fun r => ?_
  split
  · exact (Batch.saveOutputHistory_keeps placeStep_frees (by decide) _).bind fun _ =>
      Batch.saveOutputHistory_keeps placeStep_frees (by decide) _
  · exact .pure _

/-- An output found in the store is in place. -/
theorem getOutput_at (id : Identifier) (mmrIndex : Option Nat) :
    Prog.Triple (At p) (getOutput id mmrIndex) (fun o w => At p w ∧ o.Rooted) (At p) := by
  refine (getOutput_reads _ _).triple (fun w o h hrun => ?_) fun _ h => h
  exact ⟨h, h.1.rows _ _ (getOutput_ok.1 hrun).1⟩

/-- A key is drawn from the active account. -/
theorem nextChild_at (W : World) (mask : Option SecretKey) :
    Prog.Triple (At p) (nextChild W mask) (fun id w => At p w ∧ id.parentPath = p) (At p) := by
  have hk := nextChild_keeps placeStep_frees W (by decide) mask
  apply Prog.Triple.intro
  · intro w id w' h hrun
    obtain ⟨n, -, -, hchild, -⟩ := nextChild_ok W hrun
    have hs := hk.rel hrun
    refine ⟨⟨hs.1 h.1, hs.2.trans h.2⟩, ?_⟩
    rw [(child_path h.1.active hchild).2, h.2]
  · intro w e w' h hrun
    have hs := hk.rel hrun
    exact ⟨hs.1 h.1, hs.2.trans h.2⟩

/-! ## Selecting, locking and receiving -/

namespace Selection

variable (W : World)

theorem changeAmounts_at (mask : Option SecretKey) (part remainder num : Nat) :
    ∀ l : List Nat, Prog.Triple (At p) (changeAmounts W mask part remainder num l)
      (fun r w => At p w ∧ ∀ a ∈ r, a.2.1.parentPath = p) (At p)
  | [] => .pure fun _ h => ⟨h, fun a ha => by cases ha⟩
  | x :: xs => by
    refine (reads_at (.ite (fun _ => addU64_reads _ _) fun _ => .pure _)).bind fun amount =>
      (nextChild_at W mask).orPanic.bind fun key => .of_and fun hkey => ?_
    refine (changeAmounts_at mask part remainder num xs).bind fun rest => .pure fun w h => ⟨h.1, ?_⟩
    intro a ha
    rcases List.mem_cons.1 ha with rfl | ha
    · exact hkey
    · exact h.2 a ha

theorem selectSendTx_at (mask : Option SecretKey)
    (amount currentHeight minimumConfirmations maxOutputs changeOutputs : Nat) (selectAll : Bool)
    (parent : Identifier) :
    Prog.Triple (At p) (selectSendTx W mask amount currentHeight minimumConfirmations maxOutputs
      changeOutputs selectAll parent) (fun r w => At p w ∧ ∀ a ∈ r.2.2.1, a.2.1.parentPath = p)
      (At p) := by
  refine (reads_at (selectCoinsAndFee_reads W _ _ _ _ _ _ _)).bind fun r => ?_
  refine Prog.Triple.bind (R := fun r w => At p w ∧ ∀ a ∈ r.2, a.2.1.parentPath = p) ?_
    fun a => .pure fun _ h => h
  refine (reads_at (sumU64_reads _)).bind fun _ => (reads_at (subU64_reads _ _)).bind fun _ =>
    (reads_at (subU64_reads _ _)).bind fun _ => ?_
  refine .ite (fun _ => .pure fun _ h => ⟨h, fun a ha => by cases ha⟩) fun _ =>
    .ite (fun _ => .panic fun _ h => h) fun _ => ?_
  exact (changeAmounts_at W mask _ _ _ _).bind fun _ => .pure fun _ h => h

theorem newContext_at (b : BlindingFactor) (parent : Identifier) (participantId : Nat) :
    Prog.Triple (At p) (newContext W b parent participantId)
      (fun c w => At p w ∧ c.outputIds = [] ∧ c.parentKeyId = parent) (At p) := by
  refine (keeps_at ((newContext_aside W b parent participantId).mono placeStep_frees.aside)).returns
    fun w c w' hrun => ?_
  obtain ⟨_, _, _, h₁⟩ := Prog.bind_ok.1 hrun
  obtain ⟨_, _, _, h₂⟩ := Prog.bind_ok.1 h₁
  cases h₂
  exact ⟨rfl, rfl⟩

/-- The context of a send from the active account is in place. -/
theorem buildSendTx_at (k : Keychain) (mask : Option SecretKey) (slate : Slate)
    (minimumConfirmations maxOutputs changeOutputs : Nat) (selectAll : Bool) :
    Prog.Triple (At p) (buildSendTx W k mask slate minimumConfirmations maxOutputs changeOutputs
      selectAll p) (fun r w => At p w ∧ r.2.Rooted) (At p) := by
  refine (selectSendTx_at W mask _ _ _ _ _ _ _).bind fun r => .of_and fun hr => ?_
  refine (reads_at (Prog.Keeps.ofExcept _)).bind fun s => (newContext_at W s.2 p 0).bind fun context =>
    .of_and fun hcontext => ?_
  refine Prog.Triple.bind (R := fun _ => At p) (Prog.Triple.forEach fun a _ =>
    (reads_at (calcCommitForCache_reads W _ _ _)).bind fun _ => .pure fun _ h => h) fun _ =>
      .pure fun w h => ⟨h, ?_⟩
  intro out hout
  rw [contextOf_eq, hcontext.1] at hout
  rw [contextOf_eq, hcontext.2]
  obtain ⟨a, ha, rfl⟩ := List.mem_map.1 hout
  exact hr a ha

theorem lockInput_at (logId acc : Nat) (i : Identifier × Option Nat × Nat) :
    Prog.Triple (At p) (lockInput logId acc i) (fun _ => At p) (At p) := by
  refine (getOutput_at _ _).orPanic.bind fun coin => .of_and fun hcoin => ?_
  have hlocked : OutputData.Rooted { coin with txLogEntry := some logId }.lock := hcoin
  have hsave : Prog.Keeps PlaceStep (Batch.lockOutput { coin with txLogEntry := some logId }) :=
    save_placeStep hlocked
  exact (reads_at (addU64_reads _ _)).bind fun _ => (keeps_at hsave).bind fun _ => .pure fun _ h => h

/-- A context in place stores outputs in place. -/
theorem lockTxContext_at {mask : Option SecretKey} {slate : Slate} {context : Context}
    {addrTo : Option String} (hc : context.Rooted) :
    Prog.Triple (At p) (lockTxContext W mask slate context addrTo) (fun _ => At p) (At p) := by
  refine (reads_at (outputCommits_reads W mask _)).bind fun commits =>
    (reads_at (keychain_reads W mask)).bind fun k => Prog.Triple.bind (R := fun _ => At p) ?_ fun t =>
      (reads_at (Prog.Keeps.unwrap _)).bind fun _ => keeps_at (storeTx_keeps placeStep_frees W _ _)
  refine (reads_at (batch_reads W mask)).bind fun _ =>
    (keeps_at (Batch.nextTxLogId_keeps placeStep_frees (by decide) _)).bind fun logId =>
      (keeps_at placeStep_frees.nextTick).bind fun _ => Prog.Triple.bind
        (Prog.Triple.foldlM (I := fun _ _ => At p) fun _ _ _ => lockInput_at _ _ _) fun _ =>
          (reads_at (storedProofInfo_reads W _ _ _)).bind fun _ => ?_
  refine Prog.Triple.bind (R := fun _ => At p) (keeps_at (Prog.Keeps.foldlM _ _ fun t i hi => ?_))
    fun _ => (keeps_at (Batch.saveTxLogEntry_keeps placeStep_frees (by decide) _ _)).bind fun _ =>
      .pure fun _ h => h
  refine (Prog.Keeps.unwrap _).bind fun commit => (addU64_reads _ _).keeps.bind fun _ =>
    (save_placeStep ?_).bind fun _ => .pure _
  exact (hc i hi).symm

/-- A payment received into the active account is stored in place. -/
theorem buildRecipientOutput_at (mask : Option SecretKey) (slate : Slate) :
    Prog.Triple (At p) (buildRecipientOutput W mask slate p) (fun r w => At p w ∧ r.2.2.Rooted)
      (At p) := by
  refine (nextChild_at W mask).orPanic.bind fun key => .of_and fun hkey => ?_
  refine (reads_at (keychain_reads W mask)).bind fun k =>
    (reads_at (Prog.Keeps.ofExcept _)).bind fun s =>
      (reads_at (keychain_reads W mask)).bind fun _ => ?_
  refine (newContext_at W s.2 p 1).bind fun context => .of_and fun hcontext => ?_
  refine (reads_at (calcCommitForCache_reads W _ _ _)).bind fun commit =>
    (reads_at (batch_reads W mask)).bind fun _ =>
      (keeps_at (Batch.nextTxLogId_keeps placeStep_frees (by decide) _)).bind fun logId =>
        (keeps_at placeStep_frees.nextTick).bind fun _ => ?_
  refine Prog.Triple.bind (R := fun _ => At p) (keeps_at (save_placeStep hkey.symm)) fun _ =>
    (keeps_at (Batch.saveTxLogEntry_keeps placeStep_frees (by decide) _ _)).bind fun _ => ?_
  refine Prog.Triple.bind (R := fun _ => At p) (.pure fun _ h => h) fun _ => .pure fun w h => ⟨h, ?_⟩
  intro out hout
  obtain ⟨hempty, hparent⟩ := hcontext
  rw [Context.addOutput, hempty] at hout
  obtain rfl := List.mem_singleton.1 hout
  exact hkey.trans hparent.symm

end Selection

/-! ## Accounts -/

namespace Keys

variable (W : World)

theorem saveAcctPath_placeStep {mapping : AcctPathMapping} (hp : IsAccountPath mapping.path) :
    Prog.Keeps PlaceStep (Batch.saveAcctPath mapping) := put_placeStep hp

theorem newAcctPath_at (mask : Option SecretKey) (label : String) :
    Prog.Triple (At p) (newAcctPath W mask label) (fun _ => At p) (At p) := by
  refine Prog.Triple.bind (R := fun l w => At p w ∧ ∀ a ∈ l, IsAccountPath a.path)
    (acctPathIter_reads.triple (fun w l h hl => ?_) fun _ h => h) fun l => .of_and fun hl => ?_
  · cases hl
    refine ⟨h, fun a ha => ?_⟩
    obtain ⟨label, hg⟩ := mem_accountsOf.1 ha
    exact h.1.rows _ _ hg
  split
  · exact .throw fun _ h => h
  · refine Prog.Triple.bind (R := fun id w => At p w ∧ IsAccountPath id) ?_ fun id =>
      .of_and fun hid => (reads_at (batch_reads W mask)).bind fun _ =>
        (keeps_at (saveAcctPath_placeStep hid)).bind fun _ => .pure fun _ h => h
    split
    · next e he =>
      refine (reads_at (addU32_reads _ _)).bind fun p0 => .pure fun w h => ⟨h, ?_⟩
      exact isAccountPath_of_p0 (hl e (highestEntry_mem he)) p0
    · exact .pure fun w h => ⟨h, by decide, rfl⟩

theorem setAcctPath_placeStep {mask : Option SecretKey} {label : String} {path : Identifier}
    (hp : IsAccountPath path) : Prog.Keeps PlaceStep (setAcctPath W mask label path) :=
  (batch_reads W mask).keeps.bind fun _ => (saveAcctPath_placeStep hp).bind fun _ => .pure _

end Keys

/-! ## Refreshing -/

namespace Updater

variable (W : World)

theorem rooted_markUnspent {o : OutputData} (h : o.Rooted) : o.markUnspent.Rooted := by
  rw [OutputData.markUnspent_eq]
  exact h

theorem rooted_markSpent {o : OutputData} (h : o.Rooted) : o.markSpent.Rooted := by
  rw [OutputData.markSpent_eq]
  exact h

theorem confirmOutput_rooted {parent : Identifier} {height onChain : Nat} {commit : Commitment}
    {o o' : OutputData} {w w' : Wallet} (ho : o.Rooted)
    (h : confirmOutput W parent height onChain commit o w = (.ok o', w')) : o'.Rooted := by
  obtain ⟨o₁, w₁, h₁, h⟩ := Prog.bind_ok.1 h
  obtain ⟨_, w₂, -, h⟩ := Prog.bind_ok.1 h
  cases h
  refine rooted_markUnspent ?_
  show o₁.Rooted
  split at h₁
  · iterate 6 obtain ⟨_, _, -, h₁⟩ := Prog.bind_ok.1 h₁
    cases h₁
    exact ho
  · cases h₁
    exact ho

theorem applyApiOutput_at (api : List (Commitment × String × Nat × Nat)) (height : Nat)
    (parent : Identifier) (row : Commitment × Identifier × Option Nat) :
    Prog.Triple (At p) (applyApiOutput W api height parent row) (fun _ => At p) (At p) := by
  refine Prog.Triple.bind (R := fun r w => At p w ∧ ∀ o, r = .ok o → o.Rooted) ?_ fun r =>
    .of_and fun hr => ?_
  · refine (getOutput_at _ _).attempt (fun o w h => ⟨h.1, ?_⟩) fun e w h => ⟨h, ?_⟩
    · rintro _ hr
      cases hr
      exact h.2
    · rintro _ hr
      cases hr
  split
  · exact .pure fun _ h => h
  next output =>
  have houtput := hr output rfl
  refine Prog.Triple.bind (R := fun o w => At p w ∧ o.Rooted) ?_ fun o => .of_and fun ho =>
    keeps_at (save_placeStep ho)
  split
  · exact (keeps_at (confirmOutput_keeps placeStep_frees W (by decide) (by decide) _ _ _ _ _)).returns
      fun _ _ _ hrun => confirmOutput_rooted W houtput hrun
  · exact .pure fun w h => ⟨h, rooted_markSpent houtput⟩

theorem refreshOutputs_at (mask : Option SecretKey) (parent : Identifier) :
    Prog.Triple (At p) (refreshOutputs W mask parent) (fun _ => At p) (At p) := by
  refine (keeps_at (getNodeStatus_keeps placeStep_frees W)).bind fun _ =>
    .ite (fun _ => .throw fun _ h => h) fun _ =>
      (keeps_at (getChainTip_keeps placeStep_frees W)).bind fun tip =>
        (reads_at (mapWalletOutputs_reads W _ _)).bind fun _ => ?_
  refine (keeps_at placeStep_frees.nextTick).bind fun _ => (reads_at (Prog.Keeps.ofExcept _)).bind
    fun api => Prog.Triple.bind (R := fun _ => At p) ?_ fun _ => ?_
  · refine (reads_at lastConfirmedHeight_reads).bind fun _ => .ite (fun _ => .pure fun _ h => h)
      fun _ => ?_
    refine (reads_at (batch_reads W mask)).bind fun _ => (keeps_at placeStep_frees.nextTick).bind
      fun _ => (Prog.Triple.forEach fun _ _ => applyApiOutput_at W _ _ _ _).bind fun _ => ?_
    exact (keeps_at (Batch.saveLastConfirmedHeight_keeps placeStep_frees (by decide) _ _)).bind
      fun _ => .pure fun _ h => h
  · refine .ite (fun _ => .pure fun _ h => h) fun _ => (reads_at iter_reads).bind fun _ =>
      (reads_at (batch_reads W mask)).bind fun _ => Prog.Triple.bind
        (Prog.Triple.forEach fun _ _ => keeps_at (delete_placeStep _ _ _)) fun _ => .pure fun _ h => h

/-- A reward that goes to a key of the active account is stored in place. -/
theorem receiveReward_at {mask : Option SecretKey} {fees : BlockFees} {amount : Nat}
    {build : Keychain → Identifier → Except Error (Output × TxKernel)} :
    Prog.Triple (fun w => At p w ∧ ∀ o ∈ fees.keyId.bind (candidate w.db), o.rootKeyId = p)
      (receiveReward W mask fees amount build) (fun _ => At p) (At p) := by
  refine Prog.Triple.bind ((addU64_reads _ _).triple (fun _ _ h _ => h) fun _ h => h.1) fun _ => ?_
  refine Prog.Triple.bind (R := fun parent w => (At p w ∧ ∀ o ∈ fees.keyId.bind (candidate w.db),
    o.rootKeyId = p) ∧ parent = p) (parentKeyId_reads.triple (fun w parent h hrun => ?_)
      fun _ h => h.1) fun parent => .of_and fun hparent => ?_
  · cases hrun
    exact ⟨h, h.1.2⟩
  subst hparent
  refine Prog.Triple.bind (R := fun id w => At parent w ∧ id.parentPath = parent) ?_ fun id =>
    .of_and fun hid => (reads_at (calcCommitForCache_reads W _ _ _)).bind fun commit =>
      (reads_at (batch_reads W mask)).bind fun _ => ?_
  · rintro w ⟨h, hroot⟩
    rcases rewardKey_cases W mask fees.keyId w with ⟨o, ho, hrun⟩ | ⟨-, hrun | hrun⟩
    · rw [hrun]
      refine ⟨h, ?_⟩
      obtain ⟨id, -, hid⟩ := Option.bind_eq_some_iff.1 ho
      have hplace : o.Rooted := h.1.rows _ _ (candidate_eq.1 hid)
      rw [← hroot o ho, hplace]
    · rw [hrun]
      exact nextChild_at W mask w h
    · rw [hrun]
      exact h
  · refine Prog.Triple.bind (R := fun _ => At parent) (keeps_at (save_placeStep hid.symm)) fun _ =>
      Prog.Triple.bind (R := fun _ => At parent) (.pure fun _ h => h) fun _ =>
        (reads_at (keychain_reads W mask)).bind fun _ => (reads_at (Prog.Keeps.ofExcept _)).bind
          fun _ => .pure fun _ h => h

/-! ## Rolling back -/

theorem retrieveOutputs_at (mask : Option SecretKey) (showSpent : Bool) (txId : Option Nat)
    (parent : Option Identifier) :
    Prog.Triple (At p) (retrieveOutputs W mask showSpent false txId parent none none none)
      (fun r w => At p w ∧ ∀ o ∈ r.2.2.map Prod.fst, o.Rooted) (At p) := by
  refine (retrieveOutputs_reads W _ _ _ _ _ _ _ _).triple (fun w r h hrun => ⟨h, fun o ho => ?_⟩)
    fun _ h => h
  exact h.1.rooted (mem_selectedOutputs.1 ((retrieveOutputs_ok W hrun o).1 ho)).1

theorem cancelTxAndOutputs_placeStep {mask : Option SecretKey} {tx : TxLogEntry}
    {outputs : List OutputData} {parent : Identifier} (ho : ∀ o ∈ outputs, o.Rooted) :
    Prog.Keeps PlaceStep (cancelTxAndOutputs W mask tx outputs parent) := by
  refine (batch_reads W mask).keeps.bind fun _ => Prog.Keeps.bind (.forEach _ fun o hmem => ?_)
    fun _ => (Batch.saveTxLogEntry_keeps placeStep_frees (by decide) _ _).bind fun _ => .pure _
  refine Prog.Keeps.bind (.ite (fun _ => delete_placeStep _ _ _) fun _ => .pure _) fun _ =>
    .ite (fun _ => save_placeStep ?_) fun _ => .pure _
  exact ho o hmem

end Updater

/-! ## Building transactions -/

namespace Tx

variable (W : World)

theorem cancelTx_at (mask : Option SecretKey) (parent : Identifier) (txId : Option Nat)
    (txSlateId : Option Uuid) :
    Prog.Triple (At p) (cancelTx W mask parent txId txSlateId) (fun _ => At p) (At p) := by
  refine (reads_at (Updater.retrieveTxs_reads _ _ _ _ _ _ _)).bind fun r => ?_
  split
  · refine .ite (fun _ => .throw fun _ h => h) fun _ => .ite (fun _ => .throw fun _ h => h) fun _ => ?_
    exact (Updater.retrieveOutputs_at W _ _ _ _).bind fun r => .of_and fun hr =>
      keeps_at (Updater.cancelTxAndOutputs_placeStep W hr)
  · exact .throw fun _ h => h

theorem fillRounds_at (slate : Slate) (k : Keychain) (mask : Option SecretKey) {context : Context}
    (participantId signer : Nat) (message : Option String) (isInitiator : Bool)
    (hc : context.Rooted) :
    Prog.Triple (At p) (slate.fillRound1 W k context.secKey context.secNonce
      participantId message >>= fun r =>
        if isInitiator then pure (r.1, { context with secKey := r.2 })
        else keychain W mask >>= fun _ =>
          r.1.fillRound2 W r.2 context.secNonce signer >>= fun s =>
            pure (s, { context with secKey := r.2 }))
      (fun r w => At p w ∧ r.2.Rooted) (At p) := by
  refine (keeps_at (fillRounds_keeps placeStep_frees W slate k mask context participantId signer message
    isInitiator)).returns fun w r w' hrun => ?_
  obtain ⟨s, _, _, h₁⟩ := Prog.bind_ok.1 hrun
  split at h₁
  · cases h₁
    exact hc
  · obtain ⟨_, _, _, h₂⟩ := Prog.bind_ok.1 h₁
    obtain ⟨_, _, _, h₃⟩ := Prog.bind_ok.1 h₂
    cases h₃
    exact hc

theorem addInputsToSlate_at (mask : Option SecretKey) (slate : Slate)
    (minimumConfirmations maxOutputs numChangeOutputs : Nat) (selectAll : Bool)
    (participantId : Nat) (message : Option String) (isInitiator : Bool) :
    Prog.Triple (At p) (addInputsToSlate W mask slate minimumConfirmations maxOutputs
      numChangeOutputs selectAll p participantId message isInitiator)
      (fun r w => At p w ∧ r.2.Rooted) (At p) :=
  (Updater.refreshOutputs_at W _ _).bind fun _ => (reads_at (keychain_reads W mask)).bind fun _ =>
    (Selection.buildSendTx_at W _ _ _ _ _ _ _).bind fun _ => .of_and fun hr =>
      (reads_at (keychain_reads W mask)).bind fun _ => fillRounds_at W _ _ _ _ _ _ _ hr

theorem addOutputToSlate_at (mask : Option SecretKey) (slate : Slate) (participantId : Nat)
    (message : Option String) (isInitiator : Bool) :
    Prog.Triple (At p) (addOutputToSlate W mask slate p participantId message isInitiator)
      (fun r w => At p w ∧ r.2.Rooted) (At p) :=
  (Selection.buildRecipientOutput_at W _ _).bind fun _ => .of_and fun hr =>
    (reads_at (keychain_reads W mask)).bind fun _ => fillRounds_at W _ _ _ _ _ _ _ hr

end Tx

/-! ## The operations -/

namespace Owner

variable (W : World)

theorem saveContext_placeStep {mask : Option SecretKey} {slateId : Uuid} {participantId : Nat}
    {context : Context} (hc : context.Rooted) :
    Prog.Keeps PlaceStep (saveContext W mask slateId participantId context) := by
  refine (batch_reads W mask).keeps.bind fun b => Prog.Keeps.bind ?_ fun _ => .pure _
  refine (Prog.Keeps.unwrap _).bind fun k => (Prog.Keeps.ofExcept _).bind fun keys => put_placeStep ?_
  exact hc

theorem deleteContext_placeStep (mask : Option SecretKey) (slateId : Uuid) (participantId : Nat) :
    Prog.Keeps PlaceStep (deleteContext W mask slateId participantId) :=
  (batch_reads W mask).keeps.bind fun _ => (deleteRow_placeStep _).bind fun _ => .pure _

theorem addProofInfo_at {mask : Option SecretKey} {parent : Identifier}
    {recipient : Option DalekPublicKey} {slate : Slate} {context : Context} (hc : context.Rooted) :
    Prog.Triple (At p) (addProofInfo W mask parent recipient slate context)
      (fun r w => At p w ∧ r.2.Rooted) (At p) := by
  unfold addProofInfo
  split
  · exact .pure fun _ h => ⟨h, hc⟩
  · exact (reads_at (keychain_reads W mask)).bind fun _ =>
      (reads_at (Selection.addressFromDerivationPath_reads W _ _ _)).bind fun _ =>
        .pure fun _ h => ⟨h, hc⟩

/-- An estimate stores nothing, whatever account it is for. -/
theorem initSendTx_estimate {mask : Option SecretKey} {args : InitTxArgs}
    (he : args.estimateOnly = some true) :
    Prog.Triple (At p) (initSendTx W mask args) (fun _ => At p) (At p) := by
  refine (reads_at (accountNamed_reads _)).bind fun parent =>
    (reads_at (truncateMessage_reads _)).bind fun message =>
      (keeps_at (Tx.newTxSlate_keeps placeStep_frees W _ _ _)).bind fun slate => ?_
  refine .ite (fun _ => ?_) fun hne => absurd he hne
  refine Prog.Triple.bind (R := fun _ => At p) ?_ fun _ => .pure fun _ h => h
  exact (keeps_at (Updater.getChainTip_keeps placeStep_frees W)).bind fun _ =>
    (Updater.refreshOutputs_at W _ _).bind fun _ =>
      (reads_at (Selection.selectCoinsAndFee_reads W _ _ _ _ _ _ _)).bind fun _ => .pure fun _ h => h

theorem initSendTx_at (mask : Option SecretKey) (args : InitTxArgs) :
    Prog.Triple (fun w => At p w ∧ (args.estimateOnly = some true ∨ accountOf w args.srcAcctName = p))
      (initSendTx W mask args) (fun _ => At p) (At p) := by
  by_cases he : args.estimateOnly = some true
  · exact (initSendTx_estimate W he).mono (fun _ h => h.1) (fun _ _ h => h) fun _ h => h
  refine Prog.Triple.mono (P := fun w => At p w ∧ accountOf w args.srcAcctName = p) ?_
    (fun _ h => ⟨h.1, h.2.resolve_left he⟩) (fun _ _ h => h) fun _ h => h
  refine (Op.accountNamed_triple (φ := (· = p)) _).bind fun parent => .of_and fun hparent => ?_
  subst hparent
  refine (reads_at (truncateMessage_reads _)).bind fun message =>
    (keeps_at (Tx.newTxSlate_keeps placeStep_frees W _ _ _)).bind fun slate =>
      .ite (fun h => absurd h he) fun _ => ?_
  exact (Tx.addInputsToSlate_at W _ _ _ _ _ _ _ _ _).bind fun r => .of_and fun hr =>
    (addProofInfo_at W hr).bind fun r => .of_and fun hr =>
      (keeps_at (saveContext_placeStep W hr)).bind fun _ => .pure fun _ h => h

theorem issueInvoiceTx_at (mask : Option SecretKey) (args : IssueInvoiceTxArgs) :
    Prog.Triple (fun w => At p w ∧ accountOf w args.destAcctName = p) (issueInvoiceTx W mask args)
      (fun _ => At p) (At p) := by
  refine (Op.accountNamed_triple (φ := (· = p)) _).bind fun parent => .of_and fun hparent => ?_
  subst hparent
  refine (reads_at (truncateMessage_reads _)).bind fun message =>
    (keeps_at (Tx.newTxSlate_keeps placeStep_frees W _ _ _)).bind fun slate => ?_
  exact (Tx.addOutputToSlate_at W _ _ _ _ _).bind fun r => .of_and fun hr =>
    (keeps_at (saveContext_placeStep W hr)).bind fun _ => .pure fun _ h => h

theorem processInvoiceTx_at (mask : Option SecretKey) (slate : Slate) (args : InitTxArgs) :
    Prog.Triple (fun w => At p w ∧ accountOf w args.srcAcctName = p)
      (processInvoiceTx W mask slate args) (fun _ => At p) (At p) := by
  refine Prog.Triple.bind ((checkTtl_reads slate).triple (fun _ _ h _ => h) fun _ h => h.1) fun _ => ?_
  refine (Op.accountNamed_triple (φ := (· = p)) _).bind fun parent => .of_and fun hparent => ?_
  subst hparent
  refine (reads_at (Updater.retrieveTxs_reads _ _ _ _ _ _ _)).bind fun tx =>
    .ite (fun _ => .throw fun _ h => h) fun _ => ?_
  refine (reads_at (truncateMessage_reads _)).bind fun message =>
    (keeps_at (Updater.getChainTip_keeps placeStep_frees W)).bind fun tip =>
      (reads_at (Owner.updateHeights_reads _ _ _)).bind fun slate => ?_
  exact (Tx.addInputsToSlate_at W _ _ _ _ _ _ _ _ _).bind fun r => .of_and fun hr =>
    (keeps_at (saveContext_placeStep W hr)).bind fun _ => .pure fun _ h => h

theorem txLockOutputs_at (mask : Option SecretKey) (slate : Slate) (participantId : Nat)
    (addrTo : Option String) :
    Prog.Triple (At p) (txLockOutputs W mask slate participantId addrTo) (fun _ => At p) (At p) := by
  refine Prog.Triple.bind (R := fun c w => At p w ∧ c.Rooted)
    ((getPrivateContext_reads W _ _ _).triple (fun w c h hrun => ⟨h, ?_⟩) fun _ h => h) fun c =>
      .of_and fun hc => Selection.lockTxContext_at W hc
  obtain ⟨-, stored, keys, hg, rfl⟩ := getPrivateContext_ok W hrun
  have hstored : stored.Rooted := h.1.rows _ _ hg
  exact hstored

theorem finalizeTx_placeStep (mask : Option SecretKey) (slate : Slate) :
    Prog.Keeps PlaceStep (finalizeTx W mask slate) :=
  (checkTtl_reads _).keeps.bind fun _ => (getPrivateContext_reads W _ _ _).keeps.bind fun _ =>
    parentKeyId_reads.keeps.bind fun _ =>
      ((Tx.completeTx_aside W _ _ _ _).mono placeStep_frees.aside).bind fun _ =>
        (Tx.verifySlatePaymentProof_reads W _ _ _ _).keeps.bind fun _ =>
          (Tx.updateStoredTx_keeps placeStep_frees W (by decide) _ _ _ _).bind fun _ =>
            (Tx.updateEntries_keeps placeStep_frees W (by decide) _ _ _ _).bind fun _ =>
              (deleteContext_placeStep W _ _ _).bind fun _ => .pure _

end Owner

namespace Foreign

variable (W : World)

theorem receiveTx_at (mask : Option SecretKey) (slate : Slate)
    (destAcctName message addrFrom : Option String) :
    Prog.Triple (fun w => At p w ∧ accountOf w destAcctName = p)
      (receiveTx W mask slate destAcctName message addrFrom) (fun _ => At p) (At p) := by
  refine Prog.Triple.bind ((checkTtl_reads slate).triple (fun _ _ h _ => h) fun _ h => h.1) fun _ => ?_
  refine (Op.accountNamed_triple (φ := (· = p)) _).bind fun parent => .of_and fun hparent => ?_
  subst hparent
  refine (reads_at (Updater.retrieveTxs_reads _ _ _ _ _ _ _)).bind fun tx =>
    .ite (fun _ => .throw fun _ h => h) fun _ => ?_
  refine (reads_at (truncateMessage_reads _)).bind fun message => ?_
  refine Prog.Triple.bind (R := fun _ => At parent)
    ((Tx.addOutputToSlate_at W _ _ _ _ _).mono (fun _ h => h) (fun _ _ h => h.1) fun _ h => h) fun r => ?_
  refine (keeps_at (Tx.updateEntries_keeps placeStep_frees W (by decide) _ _ _ _)).bind fun _ =>
    (keeps_at (Tx.updateEntries_keeps placeStep_frees W (by decide) _ _ _ _)).bind fun _ => ?_
  exact (reads_at (keychain_reads W mask)).bind fun _ => (reads_at (Prog.Keeps.ofExcept _)).bind
    fun _ => reads_at (signProof_reads W _ _ _ _)

theorem finalizeInvoiceTx_placeStep (mask : Option SecretKey) (slate : Slate) :
    Prog.Keeps PlaceStep (finalizeInvoiceTx W mask slate) :=
  (checkTtl_reads _).keeps.bind fun _ => (getPrivateContext_reads W _ _ _).keeps.bind fun _ =>
    ((Tx.completeTx_aside W _ _ _ _).mono placeStep_frees.aside).bind fun _ =>
      (Tx.updateStoredTx_keeps placeStep_frees W (by decide) _ _ _ _).bind fun _ =>
        (Tx.updateEntries_keeps placeStep_frees W (by decide) _ _ _ _).bind fun _ =>
          (Owner.deleteContext_placeStep W _ _ _).bind fun _ => .pure _

end Foreign

end

/-! ## Scanning -/

theorem save_placeInv {o : OutputData} (ho : o.Rooted) : Prog.Keeps PlaceInv (Batch.save o) :=
  keeps_placeInv (save_placeStep ho)

theorem delete_placeInv (id : Identifier) (mmrIndex txId : Option Nat) :
    Prog.Keeps PlaceInv (Batch.delete id mmrIndex txId) := keeps_placeInv (delete_placeStep _ _ _)

theorem keeps_inPlace {α : Type} {p : WalletM α} (h : Prog.Keeps PlaceInv p) :
    Prog.Triple InPlace p (fun _ => InPlace) InPlace := Prog.triple_inv.2 h

namespace Scan

variable (W : World)

theorem updateMmrIndex_placeInv {mask : Option SecretKey} {o : OutputData} {mmrIndex : Nat}
    (ho : o.Rooted) : Prog.Keeps PlaceInv (updateMmrIndex W mask o mmrIndex) := by
  refine .ite (fun _ => ?_) fun _ => .pure _
  refine (walletLock_placeInv W).bind fun _ => (batch_reads W mask).keeps.bind fun _ =>
    Prog.Keeps.bind (.ite (fun _ => delete_placeInv _ _ _) fun _ => .pure _) fun _ =>
      (save_placeInv ?_).bind fun _ => .pure _
  exact ho

theorem markUnspent_placeInv {mask : Option SecretKey} {o : OutputData} (ho : o.Rooted) :
    Prog.Keeps PlaceInv (markUnspent W mask o) := by
  refine (cancelTxLogEntry_keeps placeInv_frees W (walletLock_placeInv W) (by decide) _ _).bind
    fun _ => (walletLock_placeInv W).bind fun _ => (batch_reads W mask).keeps.bind fun _ =>
      (save_placeInv ?_).bind fun _ => .pure _
  exact ho

theorem deleteUnconfirmed_placeInv (mask : Option SecretKey) (o : OutputData) :
    Prog.Keeps PlaceInv (deleteUnconfirmed W mask o) :=
  (cancelTxLogEntry_keeps placeInv_frees W (walletLock_placeInv W) (by decide) _ _).bind fun _ =>
    (walletLock_placeInv W).bind fun _ => (batch_reads W mask).keeps.bind fun _ =>
      (delete_placeInv _ _ _).bind fun _ => .pure _

/-- The outputs a scan sorts out come from the lists it was given. -/
theorem matchOutputs_inPlace {mask : Option SecretKey} {outs : List (OutputData × Commitment)}
    (hout : ∀ o ∈ outs, o.1.Rooted) :
    ∀ l : List OutputResult, Prog.Triple InPlace (matchOutputs W mask outs l)
      (fun r w => InPlace w ∧ (∀ m ∈ r.1, m ∈ l) ∧ (∀ o ∈ r.2.1, o.Rooted) ∧ ∀ o ∈ r.2.2, o.Rooted)
      InPlace
  | [] => .pure fun w h => ⟨h, by simp, by simp, by simp⟩
  | deffo :: l => by
    unfold matchOutputs
    split
    · next s hs =>
      have hin := hout s (List.mem_of_find?_eq_some hs)
      refine (keeps_inPlace (updateMmrIndex_placeInv W hin)).bind fun _ =>
        (matchOutputs_inPlace hout l).bind fun r => .pure fun w h => ?_
      obtain ⟨hw, hm, hspent, hlocked⟩ := h
      refine ⟨hw, fun m hmem => List.mem_cons_of_mem _ (hm m hmem), fun o ho => ?_, fun o ho => ?_⟩
      · simp only at ho
        split at ho
        · rcases List.mem_cons.1 ho with rfl | ho
          · exact hin
          · exact hspent o ho
        · exact hspent o ho
      · simp only at ho
        split at ho
        · rcases List.mem_cons.1 ho with rfl | ho
          · exact hin
          · exact hlocked o ho
        · exact hlocked o ho
    · refine (matchOutputs_inPlace hout l).bind fun r => .pure fun w h => ?_
      obtain ⟨hw, hm, hspent, hlocked⟩ := h
      refine ⟨hw, fun m hmem => ?_, hspent, hlocked⟩
      rcases List.mem_cons.1 hmem with rfl | hmem
      · exact List.mem_cons_self
      · exact List.mem_cons_of_mem _ (hm m hmem)

/-- A restored output is stored for the parent of its key. -/
theorem restoreMissingOutput_inPlace {mask : Option SecretKey} {output : OutputResult}
    {found : Rows Identifier Nat} :
    Prog.Triple InPlace (restoreMissingOutput W mask output found)
      (fun found' w => InPlace w ∧ found' = foundAfter output found) InPlace := by
  rw [restoreMissingOutput_eq]
  refine (keeps_inPlace (walletLock_placeInv W)).bind fun _ =>
    (keeps_inPlace (calcCommitForCache_reads W _ _ _).keeps).bind fun commit =>
      (keeps_inPlace (batch_reads W mask).keeps).bind fun _ =>
        (keeps_inPlace (Batch.nextTxLogId_keeps placeInv_frees (by decide) _)).bind fun logId =>
          (keeps_inPlace placeInv_frees.nextTick).bind fun created =>
            (keeps_inPlace placeInv_frees.nextTick).bind fun confirmed => ?_
  refine Prog.Triple.bind (R := fun _ => InPlace)
    (keeps_inPlace (Batch.saveTxLogEntry_keeps placeInv_frees (by decide) _ _)) fun _ => ?_
  have hout : (restoredOutput output output.keyId.parentPath commit logId).Rooted := rfl
  exact (keeps_inPlace (save_placeInv hout).attempt).bind fun _ => Prog.Triple.bind (R := fun _ => InPlace)
    (.pure fun _ h => h) fun _ => .pure fun w h => ⟨h, rfl⟩

theorem restoreAll_inPlace {mask : Option SecretKey} {missing : List OutputResult} :
    ∀ {found : Rows Identifier Nat}, (∀ m ∈ missing, Sound m) → ParentsOk found.toList →
      Prog.Triple InPlace (missing.foldlM (fun found m => restoreMissingOutput W mask m found) found)
        (fun found w => InPlace w ∧ ParentsOk found.toList) InPlace := by
  induction missing with
  | nil => exact fun _ hok => .pure fun w h => ⟨h, hok⟩
  | cons m missing ih =>
    intro found hs hok
    rw [List.foldlM_cons]
    refine (restoreMissingOutput_inPlace W).bind fun found' => .of_and fun hfound => ?_
    subst hfound
    exact ih (fun m hm => hs m (List.mem_cons_of_mem _ hm))
      (parentsOk_foundAfter hok (hs m List.mem_cons_self))

theorem restorePath_placeInv {mask : Option SecretKey} {accounts : List Identifier} {acct : Nat}
    {f : Identifier × Nat} (hf : IsAccountPath f.1) :
    Prog.Keeps PlaceInv (restorePath W mask accounts acct f) := by
  have hlock := walletLock_placeInv W
  refine Prog.Keeps.bind (.ite (fun _ => .pure _) fun _ => ?_) fun _ =>
    hlock.bind fun _ => (currentChildIndex_reads _).keeps.bind fun _ => ?_
  · exact hlock.bind fun _ => (keeps_placeInv (Keys.setAcctPath_placeStep W hf)).bind fun _ => .pure _
  · refine Prog.Keeps.bind (.ite (fun _ => ?_) fun _ => .pure _) fun _ => .pure _
    exact hlock.bind fun _ => (batch_reads W mask).keeps.bind fun _ => (addU32_reads _ _).keeps.bind
      fun _ => (Batch.saveChildIndex_keeps placeInv_frees (by decide) _ _).bind fun _ => .pure _

theorem scan_placeInv (hW : DeepKeys W) (mask : Option SecretKey) (delete : Bool)
    (start stop : Nat) : Prog.Keeps PlaceInv (scan W mask delete start stop) := by
  refine Prog.triple_inv.1 ?_
  have hlock := keeps_inPlace (walletLock_placeInv W)
  refine hlock.bind fun _ => (keeps_inPlace (keychain_reads W mask).keeps).bind fun k =>
    (keeps_inPlace placeInv_frees.nextTick).bind fun tick =>
      (keeps_inPlace (Prog.Keeps.ofExcept _)).bind fun range => ?_
  have hcollect : Prog.Keeps PlaceInv (collectChainOutputs W k range.1 (some range.2)) :=
    collectFrom_keeps placeInv_frees W _ _ _ _
  refine ((keeps_inPlace hcollect).returns fun w r w' hrun => collectFrom_sound hW hrun).bind
    fun chain => .of_and fun hchain => ?_
  refine hlock.bind fun _ => Prog.Triple.bind (R := fun r w => InPlace w ∧ ∀ o ∈ r.2.2, o.1.Rooted)
    ((Updater.retrieveOutputs_reads W _ _ _ _ _ _ _ _).triple (fun w r h hrun => ⟨h, fun o ho => ?_⟩)
      fun _ h => h) fun outs => .of_and fun houts => ?_
  · exact h.rooted (Updater.mem_selectedOutputs.1
      ((Updater.retrieveOutputs_ok W hrun o.1).1 (List.mem_map_of_mem ho))).1
  refine (matchOutputs_inPlace W houts chain.1).bind fun r => .of_and fun hr => ?_
  obtain ⟨hm, hspent, hlocked⟩ := hr
  refine (keeps_inPlace (Prog.Keeps.forEach _ fun o ho => markUnspent_placeInv W (hspent o ho))).bind
    fun _ => (restoreAll_inPlace W (fun m hmem => hchain m (hm m hmem)) (fun f hf => by cases hf)).bind
      fun found => .of_and fun hfound => ?_
  refine Prog.Triple.bind (R := fun _ => InPlace) (keeps_inPlace (.ite (fun _ => ?_) fun _ => .pure _))
    fun _ => hlock.bind fun _ => (keeps_inPlace acctPathIter_reads.keeps).bind fun accounts =>
      (keeps_inPlace placeInv_frees.nextTick).bind fun tick =>
        Prog.Triple.bind (R := fun _ => InPlace) (keeps_inPlace (Prog.Keeps.foldlM _ _ fun _ f hf => ?_))
          fun _ => .pure fun _ h => h
  · exact Prog.Keeps.bind (Prog.Keeps.forEach _ fun o ho => markUnspent_placeInv W (hlocked o ho))
      fun _ => Prog.Keeps.forEach _ fun o _ => deleteUnconfirmed_placeInv W mask o
  · exact restorePath_placeInv W (hfound f ((W.mapOrder_perm tick found.toList).mem_iff.1 hf))

end Scan

namespace Owner

variable (W : World)

theorem placeInv_of_at {α : Type} {prog : WalletM α}
    (h : ∀ p, Prog.Triple (At p) prog (fun _ => At p) (At p)) : Prog.Keeps PlaceInv prog :=
  placeStep_of_triple h

theorem updateOutputs_placeInv (mask : Option SecretKey) :
    Prog.Keeps PlaceInv (updateOutputs W mask) := by
  refine (walletLock_placeInv W).bind fun _ => parentKeyId_reads.keeps.bind fun parent => ?_
  have href : Prog.Keeps PlaceInv (Updater.refreshOutputs W mask parent) :=
    placeInv_of_at fun p => Updater.refreshOutputs_at W mask parent
  refine href.attempt.bind fun r => ?_
  split
  · exact .pure _
  · exact .throw _
  · exact .pure _

theorem cancelActive_placeInv (mask : Option SecretKey) (txId : Option Nat)
    (txSlateId : Option Uuid) : Prog.Keeps PlaceInv (do
      walletLock W
      let parent ← parentKeyId
      Tx.cancelTx W mask parent txId txSlateId) :=
  (walletLock_placeInv W).bind fun _ => parentKeyId_reads.keeps.bind fun _ =>
    placeInv_of_at fun _ => Tx.cancelTx_at W _ _ _ _

theorem scanStep_placeInv (hW : Scan.DeepKeys W) (mask : Option SecretKey) (tip : Nat × String) :
    Prog.Keeps PlaceInv (scanStep W mask tip) :=
  (walletLock_placeInv W).bind fun _ => (scanStart_reads _).keeps.bind fun _ =>
    (Scan.scan_placeInv W hW _ _ _ _).bind fun _ => (walletLock_placeInv W).bind fun _ =>
      (batch_reads W mask).keeps.bind fun _ => (placeInv_frees.put (by decide) (by trivial)).bind fun _ =>
        (placeInv_frees.put (by decide) (by trivial)).bind fun _ => .pure _

theorem updateWalletState_placeInv (hW : Scan.DeepKeys W) (mask : Option SecretKey) :
    Prog.Keeps PlaceInv (updateWalletState W mask) := by
  have hlock := walletLock_placeInv W
  refine hlock.bind fun _ => parentKeyId_reads.keeps.bind fun _ => hlock.bind fun _ =>
    (updateOutputs_placeInv W mask).bind fun r => .ite (fun _ => .pure _) fun _ => hlock.bind fun _ =>
      (Updater.retrieveTxs_reads _ _ _ _ _ _ _).keeps.bind fun txs =>
        (updateTxsViaKernel_keeps placeInv_frees W hlock (by decide) _ _).bind fun r =>
          .ite (fun _ => .pure _) fun _ =>
            (Updater.getChainTip_keeps placeInv_frees W).attempt.bind fun tip => ?_
  split
  · exact .pure _
  · refine (scanStep_placeInv W hW mask _).bind fun _ => Prog.Keeps.bind (.forEach _ fun tx _ => ?_)
      fun _ => .pure _
    unfold cancelExpired
    split
    · exact .pure _
    · exact .ite (fun _ => cancelActive_placeInv W _ _ _) fun _ => .pure _

theorem cancelTx_placeInv (hW : Scan.DeepKeys W) (mask : Option SecretKey) (txId : Option Nat)
    (txSlateId : Option Uuid) : Prog.Keeps PlaceInv (cancelTx W mask txId txSlateId) :=
  (updateWalletState_placeInv W hW mask).bind fun _ => .ite (fun _ => .throw _) fun _ =>
    cancelActive_placeInv W _ _ _

theorem scan_placeInv (hW : Scan.DeepKeys W) (mask : Option SecretKey) (start : Option Nat)
    (delete : Bool) : Prog.Keeps PlaceInv (scan W mask start delete) :=
  (updateOutputs_placeInv W mask).bind fun _ => (walletLock_placeInv W).bind fun _ =>
    (Updater.getChainTip_keeps placeInv_frees W).bind fun _ => (Scan.scan_placeInv W hW _ _ _ _).bind
      fun _ => (walletLock_placeInv W).bind fun _ => (batch_reads W mask).keeps.bind fun _ =>
        (placeInv_frees.put (by decide) (by trivial)).bind fun _ => .pure _

theorem waitForTxInMempool_placeInv (mask : Option SecretKey) (txSlateId : Uuid) :
    ∀ attempts : Nat, Prog.Keeps PlaceInv (waitForTxInMempool W mask txSlateId attempts)
  | 0 => .pure _
  | attempts + 1 => by
    have hlock := walletLock_placeInv W
    refine hlock.bind fun _ => placeInv_frees.nextTick.bind fun _ => (Prog.Keeps.ofExcept _).bind
      fun _ => hlock.bind fun _ => txLogIter_reads.keeps.bind fun txs =>
        Prog.Keeps.bind (Prog.Keeps.forEach _ fun _ _ => ?_) fun _ =>
          .ite (fun _ => waitForTxInMempool_placeInv mask txSlateId attempts) fun _ => .pure _
    exact hlock.bind fun _ => parentKeyId_reads.keeps.bind fun _ => (batch_reads W mask).keeps.bind
      fun _ => (Batch.saveTxLogEntry_keeps placeInv_frees (by decide) _ _).bind fun _ => .pure _

end Owner

/-! ## Runs -/

namespace Op

/-- The operation draws its keys for the active account: the account it names is the active one, or,
for a reward that goes to the key of an output, the account of that output is. -/
def NamesActive : Op → Wallet → Prop
  | initSendTx _ args, w =>
    args.estimateOnly = some true ∨ accountOf w args.srcAcctName = w.parentKeyId
  | issueInvoiceTx _ args, w => accountOf w args.destAcctName = w.parentKeyId
  | processInvoiceTx _ _ args, w => accountOf w args.srcAcctName = w.parentKeyId
  | receiveTx _ _ destAcctName _ _, w => accountOf w destAcctName = w.parentKeyId
  | buildCoinbase _ fees, w =>
    ∀ o ∈ fees.keyId.bind (Updater.candidate w.db), o.rootKeyId = w.parentKeyId
  | buildFoundation _ fees, w =>
    ∀ o ∈ fees.keyId.bind (Updater.candidate w.db), o.rootKeyId = w.parentKeyId
  | _, _ => True

instance : (op : Op) → (w : Wallet) → Decidable (op.NamesActive w)
  | .initSendTx _ _, _ => inferInstanceAs (Decidable (_ ∨ _))
  | .issueInvoiceTx _ _, _ | .processInvoiceTx _ _ _, _ | .receiveTx _ _ _ _ _, _ =>
    inferInstanceAs (Decidable (_ = _))
  | .buildCoinbase _ fees, w | .buildFoundation _ fees, w =>
    inferInstanceAs (Decidable (∀ o ∈ fees.keyId.bind (Updater.candidate w.db), _))
  | .createAccountPath _ _, _ | .setActiveAccount _, _ | .txLockOutputs _ _ _ _, _
  | .finalizeTx _ _, _ | .finalizeInvoiceTx _ _, _ | .cancelTx _ _ _, _
  | .updateMempoolStatus _ _, _ | .waitForTxInMempool _ _ _, _ | .updateWalletState _, _
  | .scan _ _ _, _ => .isTrue trivial

variable {W : World}

/-- An operation that draws its keys for the active account keeps the rows in place. -/
theorem inPlace_step (hW : Scan.DeepKeys W) (op : Op) (w : Wallet) (hop : op.NamesActive w)
    (h : InPlace w) : InPlace (op.run W w) := by
  have hvoid : ∀ {α : Type} {p : WalletM α}, Prog.Keeps PlaceInv p →
      InPlace ((p >>= fun _ => pure ()) w).2 := fun hp => (hp.bind fun _ => .pure _) w h
  have hat : ∀ {α : Type} {P : Wallet → Prop} {p : WalletM α}, P w →
      Prog.Triple P p (fun _ => At w.parentKeyId) (At w.parentKeyId) →
      InPlace ((p >>= fun _ => pure ()) w).2 := by
    intro α P p hP ht
    have hstate : At w.parentKeyId (p w).2 := ht.state (fun _ _ h => h) (fun _ h => h) hP
    exact Prog.state_bind hstate.1 fun _ _ _ h => h
  have hw : At w.parentKeyId w := ⟨h, rfl⟩
  cases op with
  | createAccountPath mask label => exact hat hw (Keys.newAcctPath_at W mask label)
  | setActiveAccount label => exact setParentKeyIdByName_placeInv label w h
  | initSendTx mask args => exact hat (And.intro hw hop) (Owner.initSendTx_at W mask args)
  | issueInvoiceTx mask args => exact hat (And.intro hw hop) (Owner.issueInvoiceTx_at W mask args)
  | processInvoiceTx mask slate args =>
    exact hat (And.intro hw hop) (Owner.processInvoiceTx_at W mask slate args)
  | txLockOutputs mask slate participantId addrTo =>
    exact Owner.placeInv_of_at (fun _ => Owner.txLockOutputs_at W mask slate participantId addrTo) w h
  | finalizeTx mask slate => exact hvoid (keeps_placeInv (Owner.finalizeTx_placeStep W mask slate))
  | receiveTx mask slate dest message addrFrom =>
    exact hat (And.intro hw hop) (Foreign.receiveTx_at W mask slate dest message addrFrom)
  | finalizeInvoiceTx mask slate =>
    exact hvoid (keeps_placeInv (Foreign.finalizeInvoiceTx_placeStep W mask slate))
  | cancelTx mask txId txSlateId => exact Owner.cancelTx_placeInv W hW mask txId txSlateId w h
  | updateMempoolStatus mask slate =>
    exact Tx.updateMempoolStatus_keeps placeInv_frees W (by decide) mask slate w h
  | waitForTxInMempool mask txSlateId attempts =>
    exact hvoid (Owner.waitForTxInMempool_placeInv W mask txSlateId attempts)
  | updateWalletState mask => exact hvoid (Owner.updateWalletState_placeInv W hW mask)
  | scan mask start delete => exact Owner.scan_placeInv W hW mask start delete w h
  | buildCoinbase mask fees => exact hat (And.intro hw hop) (Updater.receiveReward_at W)
  | buildFoundation mask fees => exact hat (And.intro hw hop) (Updater.receiveReward_at W)

theorem inPlace_created (k : Keychain) (checksum : Nat) (status : WalletInitStatus) :
    InPlace (created k checksum status) := by
  refine ⟨fun key v hg => ?_, (by decide : 1 ≤ defaultPath.depth), rfl⟩
  rcases created_get hg with rfl | rfl
  · cases key <;> trivial
  · have hpath : IsAccountPath defaultPath := ⟨by decide, rfl⟩
    cases key <;> first | exact hpath | trivial

/-- Where the keys are drawn for the active account, every output ever stored is stored for the parent
of its key, and so a scan into a new wallet, in whatever world, restores it for the same account. -/
theorem rooted_of_run (hW : Scan.DeepKeys W) (k : Keychain) (checksum : Nat)
    (status : WalletInitStatus) (ops : List Op)
    (hops : ∀ s ∈ steps W ops (created k checksum status), s.1.NamesActive s.2) :
    (∀ s ∈ steps W ops (created k checksum status), ∀ o ∈ outputsOf s.2.db, o.Rooted) ∧
      ∀ o ∈ outputsOf (runAll W ops (created k checksum status)).db, o.Rooted ∧
        ∀ W', Scan.DeepKeys W' → ∀ k' checksum' status' mask start delete,
          ∀ o' ∈ outputsOf (runAll W' [scan mask start delete] (created k' checksum' status')).db,
            o'.keyId = o.keyId → o'.rootKeyId = o.rootKeyId := by
  have hstart := inPlace_created k checksum status
  refine ⟨fun s hs o ho => ?_, fun o ho => ?_⟩
  · exact (steps_of_steps (inPlace_step hW) hops hstart s hs).rooted ho
  have hrooted : o.Rooted := (runAll_of_steps (inPlace_step hW) hops hstart).rooted ho
  refine ⟨hrooted, fun W' hW' k' checksum' status' mask start delete o' ho' hkey => ?_⟩
  have hscan := inPlace_step hW' (scan mask start delete) _ trivial
    (inPlace_created k' checksum' status')
  have hrooted' : o'.Rooted := hscan.rooted ho'
  unfold OutputData.Rooted at hrooted hrooted'
  rw [hrooted', hrooted, hkey]

/-- An invoice of 5 into an account. -/
def invoiceFor (account : Option String) : IssueInvoiceTxArgs := ⟨account, 5, none, none⟩

/-- An invoice for an account that is not the active one: the output is stored for that account under
a key of the active one. -/
theorem invoice_misplaced :
    ¬∀ W, Scan.DeepKeys W → ∀ k checksum status ops,
      ∀ o ∈ outputsOf (runAll W ops (created k checksum status)).db, o.Rooted := by
  intro h
  have hall := h (restoringWorld none) (deepKeys_restoringWorld none) ⟨7⟩ 7 .initNoScanning
    [createAccountPath none "second", issueInvoiceTx none (invoiceFor (some "second"))]
  have hbad : ∃ o ∈ outputsOf (runAll (restoringWorld none) [createAccountPath none "second",
      issueInvoiceTx none (invoiceFor (some "second"))] (created ⟨7⟩ 7 .initNoScanning)).db,
      o.rootKeyId ≠ o.keyId.parentPath := by
    decide
  obtain ⟨o, ho, hne⟩ := hbad
  exact hne (hall o ho)

/-- The same invoice once the account is active. -/
theorem rooted_of_run_invoice :
    (∀ s ∈ steps (restoringWorld none) [createAccountPath none "second", setActiveAccount "second",
      issueInvoiceTx none (invoiceFor (some "second"))] (created ⟨7⟩ 7 .initNoScanning),
      ∀ o ∈ outputsOf s.2.db, o.Rooted) ∧
      ∀ o ∈ outputsOf (runAll (restoringWorld none) [createAccountPath none "second",
        setActiveAccount "second", issueInvoiceTx none (invoiceFor (some "second"))]
        (created ⟨7⟩ 7 .initNoScanning)).db, o.Rooted ∧
        ∀ W', Scan.DeepKeys W' → ∀ k' checksum' status' mask start delete,
          ∀ o' ∈ outputsOf (runAll W' [scan mask start delete] (created k' checksum' status')).db,
            o'.keyId = o.keyId → o'.rootKeyId = o.rootKeyId :=
  rooted_of_run (deepKeys_restoringWorld none) ⟨7⟩ 7 .initNoScanning _ (by decide)

end Op

end EpicWallet
