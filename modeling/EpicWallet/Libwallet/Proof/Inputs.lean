import EpicWallet.Libwallet.Proof.Interleave
import EpicWallet.Libwallet.Proof.LiveOutputs

/-!
# The inputs of a prepared send

A prepared send names its inputs by key and MMR index, and waits for the other wallet's reply. Meanwhile
refreshes, scans and other calls run, in sections (`Op.sections`). `Act.LeavesInputs` says when a section
neither deletes an input, nor gives it another MMR index, nor saves another output in its place; then
every input is still found, and is the same output (`Op.inputs_of_run`).
-/

namespace EpicWallet

open Lib WalletBackend

/-- The same output: its key and MMR index, its value, and whether it is a block reward. -/
structure OutputData.SameCoin (o o' : OutputData) : Prop where
  keyId : o'.keyId = o.keyId
  mmrIndex : o'.mmrIndex = o.mmrIndex
  value : o'.value = o.value
  isCoinbase : o'.isCoinbase = o.isCoinbase

namespace OutputData.SameCoin

theorem refl (o : OutputData) : o.SameCoin o := ⟨rfl, rfl, rfl, rfl⟩

theorem symm {o o' : OutputData} (h : o.SameCoin o') : o'.SameCoin o :=
  ⟨h.keyId.symm, h.mmrIndex.symm, h.value.symm, h.isCoinbase.symm⟩

theorem trans {a b c : OutputData} (h : a.SameCoin b) (h' : b.SameCoin c) : a.SameCoin c :=
  ⟨h'.keyId.trans h.keyId, h'.mmrIndex.trans h.mmrIndex, h'.value.trans h.value,
    h'.isCoinbase.trans h.isCoinbase⟩

end OutputData.SameCoin

section
variable (ids : List (Identifier × Option Nat × Nat))

/-- None of the inputs is under the key and MMR index. -/
def Unreserved (id : Identifier) (mmrIndex : Option Nat) : Prop :=
  ∀ i ∈ ids, (i.1, i.2.1) ≠ (id, mmrIndex)

/-- Saving the output replaces no input by another output. -/
def Agrees (d : Rows Key Serializable) (o : OutputData) : Prop :=
  ∀ i ∈ ids, (i.1, i.2.1) = (o.keyId, o.mmrIndex) →
    ∀ o', d.get (.output o.keyId o.mmrIndex) = some (.outputData o') → o'.SameCoin o

/-- Each input is the output it was in `d₀`. -/
structure InputsKept (d₀ : Rows Key Serializable) (w : Wallet) : Prop where
  keyed : Keyed w.db
  inputs : ∀ i ∈ ids, ∃ o o', d₀.get (.output i.1 i.2.1) = some (.outputData o) ∧
    w.db.get (.output i.1 i.2.1) = some (.outputData o') ∧ o.SameCoin o'

/-! ## When a section leaves the inputs -/

/-- No input is kept without MMR index under the key of a reward that is stale at a height the node may
report: the cleaning of a refresh deletes under that key. -/
def RewardsClear (W : World) (d : Rows Key Serializable) : Prop :=
  ∀ tick tip, W.chainTip tick = .ok tip → ∀ o ∈ outputsOf d,
    Updater.staleCoinbase tip.1 o = true → Unreserved ids o.keyId none

/-- No input is kept under the next new key. -/
def NextKeyClear (w : Wallet) : Prop :=
  ∀ id, w.parentKeyId.child (asU32 (numericOf w.db (.deriv w.parentKeyId))) = some id →
    Unreserved ids id none

/-- No input is an unconfirmed output of an entry that cancelling would find. -/
def CancelClear (d : Rows Key Serializable) (parent : Identifier) (txId : Option Nat)
    (txSlateId : Option Uuid) : Prop :=
  ∀ t ∈ Updater.selectedTxs d txId txSlateId (some parent) false,
    ∀ o ∈ Updater.selectedOutputs d false false (some t.id) (some parent), o.status = .unconfirmed →
      Unreserved ids o.keyId o.mmrIndex

/-- The outputs the operation saves or deletes are no inputs, or the same outputs. -/
def Op.LeavesInputs (W : World) : Op → Wallet → Prop
  | initSendTx _ _, w | processInvoiceTx _ _ _, w => RewardsClear ids W w.db
  | issueInvoiceTx _ _, w | receiveTx _ _ _ _ _, w => NextKeyClear ids w
  | buildCoinbase _ fees, w | buildFoundation _ fees, w =>
    NextKeyClear ids w ∧ ∀ id, fees.keyId = some id → Unreserved ids id none
  | txLockOutputs _ slate participantId _, w =>
    ∀ c, w.db.get (.privateTxContext slate.id participantId) = some (.context c) →
      ∀ o ∈ c.outputIds, Unreserved ids o.1 none
  | _, _ => True

/-- The outputs the section saves or deletes are no inputs, or the same outputs. -/
def Act.LeavesInputs (W : World) : Act → Wallet → Prop
  | call op, w => op.LeavesInputs ids W w
  | refresh, w => RewardsClear ids W w.db
  | cancel txId txSlateId, w => CancelClear ids w.db (locked W w).parentKeyId txId txSlateId
  | restore o, w => ∀ i ∈ ids, (i.1, i.2.1) = (o.keyId, some o.mmrIndex) →
      ∀ o', w.db.get (.output o.keyId (some o.mmrIndex)) = some (.outputData o') →
        o'.value = o.value ∧ o'.isCoinbase = o.isCoinbase
  | reindex o mmrIndex, w => o.mmrIndex ≠ some mmrIndex →
      (o.mmrIndex = none → Unreserved ids o.keyId none) ∧
        Agrees ids w.db { o with mmrIndex := some mmrIndex }
  | unspend o, w => Agrees ids w.db o
  | discard o, _ => Unreserved ids o.keyId o.mmrIndex
  | quiet, _ | mark _, _ | confirm _ _, _ | cancelEntry _, _ | imports _, _ => True

end

section
variable {ids : List (Identifier × Option Nat × Nat)} {d₀ : Rows Key Serializable}

theorem Unreserved.agrees {o : OutputData} (h : Unreserved ids o.keyId o.mmrIndex)
    (d : Rows Key Serializable) : Agrees ids d o := fun i hi he => absurd he (h i hi)

/-- The kinds of rows besides the outputs. -/
def rowsBesideOutputs : List RowKind :=
  [.history, .deriv, .height, .context, .entry, .logId, .account, .scanned, .status]

theorem output_notMem : RowKind.output ∉ rowsBesideOutputs := by decide

/-- A property of the output rows. -/
structure OfOutputs (I : Wallet → Prop) : Prop where
  congr : ∀ w w' : Wallet, (∀ id m, w'.db.get (.output id m) = w.db.get (.output id m)) → I w → I w'

theorem OfOutputs.touches {I : Wallet → Prop} (hI : OfOutputs I) {w w' : Wallet}
    (h : Touches rowsBesideOutputs w w') (hw : I w) : I w' :=
  hI.congr w w' (fun _ _ => h.get output_notMem) hw

theorem OfOutputs.frees {I : Wallet → Prop} (hI : OfOutputs I) : Frees (Prog.Inv I) rowsBesideOutputs := by
  have hF := touches_frees rowsBesideOutputs
  exact ⟨fun _ _ h => hI.touches (hF.aside _ _ h), fun _ _ => hI.touches (hF.files _ _),
    fun k hk v hv w => hI.touches (hF.puts k hk v hv w), fun k hk w => hI.touches (hF.erases k hk w)⟩

theorem OfOutputs.setParent {I : Wallet → Prop} (hI : OfOutputs I) (id : Identifier) :
    Prog.Keeps (Prog.Inv I) (setParentKeyId id) := fun w hw => hI.congr w _ (fun _ _ => rfl) hw

theorem mem_outputsOf_congr {d d' : Rows Key Serializable}
    (h : ∀ id m, d'.get (.output id m) = d.get (.output id m)) {o : OutputData} :
    o ∈ outputsOf d' ↔ o ∈ outputsOf d := by
  simp only [mem_outputsOf, h]

theorem inputsKept_ofOutputs : OfOutputs (InputsKept ids d₀) where
  congr w w' h hw := by
    refine ⟨fun id m o ho => hw.keyed id m o (h id m ▸ ho), fun i hi => ?_⟩
    obtain ⟨o, o', ho, ho', hs⟩ := hw.inputs i hi
    exact ⟨o, o', ho, by rw [h]; exact ho', hs⟩

/-- What a refresh needs: the inputs are as they were, and no stale reward shares a key with one. -/
structure Refreshable (ids : List (Identifier × Option Nat × Nat)) (d₀ : Rows Key Serializable)
    (W : World) (w : Wallet) : Prop where
  kept : InputsKept ids d₀ w
  clear : RewardsClear ids W w.db

theorem refreshable_ofOutputs {W : World} : OfOutputs (Refreshable ids d₀ W) where
  congr w w' h hw := ⟨inputsKept_ofOutputs.congr w w' h hw.kept,
    fun tick tip ht o ho => hw.clear tick tip ht o ((mem_outputsOf_congr h).1 ho)⟩

/-! ## Single writes -/

/-- Only rows besides the outputs differ, and the row of the output `o` may hold `o`. -/
def SavesOnly (o : OutputData) (k : Key) (v : Option Serializable) : Prop :=
  k.kind ≠ .output ∨ k = .output o.keyId o.mmrIndex ∧ v = some (.outputData o)

theorem InputsKept.saved {o : OutputData} {w w' : Wallet} (hw : InputsKept ids d₀ w)
    (ho : Agrees ids w.db o) (h : Writes (SavesOnly o) w w') : InputsKept ids d₀ w' := by
  have hrow : ∀ id m, w'.db.get (.output id m) = w.db.get (.output id m) ∨
      (o.keyId = id ∧ o.mmrIndex = m) ∧ w'.db.get (.output id m) = some (.outputData o) := by
    intro id m
    rcases h.db (.output id m) rfl with hsame | hk | ⟨hk, hv⟩
    · exact .inl hsame
    · exact absurd rfl hk
    · cases hk
      exact .inr ⟨⟨rfl, rfl⟩, hv⟩
  refine ⟨fun id m o' ho' => ?_, fun i hi => ?_⟩
  · rcases hrow id m with hsame | ⟨hkey, hv⟩
    · exact hw.keyed id m o' (hsame ▸ ho')
    · rw [hv] at ho'
      cases ho'
      exact hkey
  · obtain ⟨a, b, ha, hb, hs⟩ := hw.inputs i hi
    rcases hrow i.1 i.2.1 with hsame | ⟨⟨hid, hm⟩, hv⟩
    · exact ⟨a, b, ha, by rw [hsame]; exact hb, hs⟩
    · refine ⟨a, o, ha, hv, hs.trans (ho i hi (by rw [hid, hm]) b ?_)⟩
      rw [hid, hm]
      exact hb

theorem InputsKept.save {o : OutputData} {w : Wallet} (hw : InputsKept ids d₀ w)
    (ho : Agrees ids w.db o) : InputsKept ids d₀ (Batch.save o w).2 :=
  hw.saved ho (Batch.save_writes (.inr ⟨rfl, rfl⟩) w)

theorem InputsKept.delete {id : Identifier} {m txId : Option Nat} {w : Wallet}
    (hw : InputsKept ids d₀ w) (h : Unreserved ids id m) :
    InputsKept ids d₀ (Batch.delete id m txId w).2 := by
  have hdel : Writes (fun k v => k = .output id m ∧ v = none) w (Batch.delete id m txId w).2 :=
    Batch.delete_writes ⟨rfl, rfl⟩ w
  refine ⟨fun id' m' o ho => ?_, fun i hi => ?_⟩
  · rcases hdel.db (.output id' m') rfl with hsame | ⟨-, hv⟩
    · exact hw.keyed id' m' o (hsame ▸ ho)
    · rw [hv] at ho
      cases ho
  · obtain ⟨a, b, ha, hb, hs⟩ := hw.inputs i hi
    refine ⟨a, b, ha, ?_, hs⟩
    rcases hdel.db (.output i.1 i.2.1) rfl with hsame | ⟨hk, -⟩
    · rw [hsame]
      exact hb
    · cases hk
      exact absurd rfl (h i hi)

/-- An output saved under its key again, changed in its status only. -/
theorem agrees_of_stored {o o' : OutputData} {d : Rows Key Serializable}
    (ho : d.get (.output o.keyId o.mmrIndex) = some (.outputData o)) (hs : o.SameCoin o') :
    Agrees ids d o' := by
  intro i _ _ a ha
  rw [hs.keyId, hs.mmrIndex, ho] at ha
  cases ha
  exact hs

/-- Outputs are replaced by themselves only. -/
theorem InputsKept.inPlace {w w' : Wallet} (hw : InputsKept ids d₀ w)
    (h : ∀ id m, w'.db.get (.output id m) = w.db.get (.output id m) ∨
      ∃ o o', w.db.get (.output id m) = some (.outputData o) ∧
        w'.db.get (.output id m) = some (.outputData o') ∧ o.SameCoin o') : InputsKept ids d₀ w' := by
  refine ⟨fun id m o ho => ?_, fun i hi => ?_⟩
  · rcases h id m with hsame | ⟨a, b, ha, hb, hs⟩
    · exact hw.keyed id m o (hsame ▸ ho)
    · obtain ⟨hid, hm⟩ := hw.keyed id m a ha
      rw [hb] at ho
      cases ho
      exact ⟨hs.keyId.trans hid, hs.mmrIndex.trans hm⟩
  · obtain ⟨a, b, ha, hb, hs⟩ := hw.inputs i hi
    rcases h i.1 i.2.1 with hsame | ⟨b', c, hb', hc, hs'⟩
    · exact ⟨a, b, ha, by rw [hsame]; exact hb, hs⟩
    · rw [hb] at hb'
      cases hb'
      exact ⟨a, c, ha, hc, hs.trans hs'⟩

/-! ## Refreshing -/

namespace Updater

variable (W : World) (mask : Option SecretKey)

theorem Applied.sameCoin {listed : Bool} {o o' : OutputData} (h : Applied listed o o') :
    o.SameCoin o' := by
  rw [h.same]
  exact ⟨rfl, rfl, rfl, rfl⟩

/-- An output that is stale after a round was so before. -/
theorem Applied.stale {listed : Bool} {o o' : OutputData} (h : Applied listed o o') {height : Nat}
    (hs : staleCoinbase height o' = true) : o' = o := by
  have hun : o'.status = .unconfirmed := by
    unfold staleCoinbase at hs
    simp only [Bool.and_eq_true, decide_eq_true_eq] at hs
    exact hs.1.1.1
  by_cases ho : listed = true ∨ o.status ≠ .unconfirmed
  · exact absurd hun (h.settled ho)
  · obtain ⟨hl, hst⟩ := not_or.1 ho
    unfold Applied at h
    rw [if_neg hl] at h
    rw [h]
    unfold OutputData.markSpent
    rw [not_not.1 hst]

theorem applyApiOutput_refreshable (api : List (Commitment × String × Nat × Nat)) (height : Nat)
    (p : Identifier) (row : Commitment × Identifier × Option Nat) :
    Prog.Keeps (Prog.Inv (Refreshable ids d₀ W)) (applyApiOutput W api height p row) := by
  obtain ⟨c, id, m⟩ := row
  intro w hw
  have hwrites : Writes (RoundRow w.db (api.lookup c).isSome id m) w
      (applyApiOutput W api height p (c, id, m) w).2 := applyApiOutput_writes hw.kept.keyed
  have hrow : ∀ id' m', (applyApiOutput W api height p (c, id, m) w).2.db.get (.output id' m') =
      w.db.get (.output id' m') ∨ ∃ o o', w.db.get (.output id' m') = some (.outputData o) ∧
        (applyApiOutput W api height p (c, id, m) w).2.db.get (.output id' m') =
          some (.outputData o') ∧ Applied (api.lookup c).isSome o o' := by
    intro id' m'
    rcases hwrites.db (.output id' m') rfl with hsame | hk | ⟨hk, o, o', ho, hv, happ⟩
    · exact .inl hsame
    · simp [Key.kind] at hk
    · cases hk
      exact .inr ⟨o, o', ho, hv, happ⟩
  refine ⟨hw.kept.inPlace fun id' m' => (hrow id' m').imp_right ?_, fun tick tip ht o' ho' hst => ?_⟩
  · rintro ⟨o, o', ho, ho', happ⟩
    exact ⟨o, o', ho, ho', happ.sameCoin⟩
  · obtain ⟨id', m', hg⟩ := mem_outputsOf.1 ho'
    rcases hrow id' m' with hsame | ⟨o, b, ho, hb, happ⟩
    · exact hw.clear tick tip ht o' (mem_outputsOf.2 ⟨id', m', hsame ▸ hg⟩) hst
    · rw [hb] at hg
      cases hg
      obtain rfl := happ.stale hst
      exact hw.clear tick tip ht _ (mem_outputsOf.2 ⟨id', m', ho⟩) hst

theorem applyApiOutputs_refreshable (outputs : Rows Commitment (Identifier × Option Nat))
    (api : List (Commitment × String × Nat × Nat)) (height : Nat) (p : Identifier) :
    Prog.Keeps (Prog.Inv (Refreshable ids d₀ W)) (applyApiOutputs W mask outputs api height p) := by
  have hF := (@refreshable_ofOutputs ids d₀ W).frees
  refine lastConfirmedHeight_reads.keeps.bind fun _ => .ite (fun _ => .pure _) fun _ => ?_
  refine (batch_reads W mask).keeps.bind fun _ => hF.nextTick.bind fun _ => ?_
  exact (Prog.Keeps.forEach _ fun _ _ => applyApiOutput_refreshable W _ _ _ _).bind fun _ =>
    (Batch.saveLastConfirmedHeight_keeps hF (by decide) _ _).bind fun _ => .pure _

theorem delete_refreshable {id : Identifier} {m txId : Option Nat} (h : Unreserved ids id m) :
    Prog.Keeps (Prog.Inv (Refreshable ids d₀ W)) (Batch.delete id m txId) := by
  intro w hw
  refine ⟨hw.kept.delete h, fun tick tip ht o ho => hw.clear tick tip ht o ?_⟩
  have hdel : Writes (fun k v => k = .output id m ∧ v = none) w (Batch.delete id m txId w).2 :=
    Batch.delete_writes ⟨rfl, rfl⟩ w
  obtain ⟨id', m', hg⟩ := mem_outputsOf.1 ho
  rcases hdel.db (.output id' m') rfl with hsame | ⟨-, hv⟩
  · exact mem_outputsOf.2 ⟨id', m', hsame ▸ hg⟩
  · rw [hv] at hg
    cases hg

theorem cleanOldUnconfirmed_refreshable {tick : Nat} {tip : Nat × String}
    (ht : W.chainTip tick = .ok tip) :
    Prog.Keeps (Prog.Inv (Refreshable ids d₀ W)) (cleanOldUnconfirmed W mask tip.1) := by
  refine .ite (fun _ => .pure _) fun _ w hw => ?_
  -- what is deleted was stale when the cleaning started
  have hloop : Prog.Keeps (Prog.Inv (Refreshable ids d₀ W)) (batch W mask >>= fun _ =>
      Prog.forEach (((outputsOf w.db).filter (staleCoinbase tip.1)).map (·.keyId))
        (fun id => Batch.delete id none none) >>= fun _ => Batch.commit) := by
    refine (batch_reads W mask).keeps.bind fun _ => Prog.Keeps.bind ?_ fun _ => .pure _
    refine Prog.Keeps.forEach _ fun id hid => delete_refreshable W ?_
    obtain ⟨o, ho, rfl⟩ := List.mem_map.1 hid
    obtain ⟨hmem, hst⟩ := List.mem_filter.1 ho
    exact hw.clear tick tip ht o hmem hst
  exact hloop w hw

/-- A refresh keeps the inputs. -/
theorem refreshOutputs_refreshable (p : Identifier) :
    Prog.Keeps (Prog.Inv (Refreshable ids d₀ W)) (refreshOutputs W mask p) := by
  have hF := (@refreshable_ofOutputs ids d₀ W).frees
  refine (getNodeStatus_keeps hF W).bind fun _ => .ite (fun _ => .throw _) fun _ =>
    (getChainTip_keeps hF W).bind_ok fun tip w w' hrun => ?_
  obtain ⟨tick, w₁, -, h₁⟩ := Prog.bind_ok.1 hrun
  obtain ⟨htip, rfl⟩ := Prog.ofExcept_eq_ok.1 h₁
  have hstate : Prog.Keeps (Prog.Inv (Refreshable ids d₀ W))
      (refreshOutputState W mask tip.1 p) := by
    refine (mapWalletOutputs_reads W _ _).keeps.bind fun _ => hF.nextTick.bind fun _ =>
      (Prog.Keeps.ofExcept _).bind fun _ => ?_
    exact (applyApiOutputs_refreshable W mask _ _ _ _).bind fun _ =>
      cleanOldUnconfirmed_refreshable W mask htip
  exact hstate w'

end Updater

/-! ## Saving and deleting single outputs -/

/-- The inputs are as they were, and saving the output replaces none of them by another. -/
structure Placing (ids : List (Identifier × Option Nat × Nat)) (d₀ : Rows Key Serializable)
    (o : OutputData) (w : Wallet) : Prop where
  kept : InputsKept ids d₀ w
  agrees : Agrees ids w.db o

theorem placing_ofOutputs {o : OutputData} : OfOutputs (Placing ids d₀ o) where
  congr w w' h hw := ⟨inputsKept_ofOutputs.congr w w' h hw.kept,
    fun i hi he o' ho' => hw.agrees i hi he o' (h _ _ ▸ ho')⟩

theorem Agrees.congr {d : Rows Key Serializable} {o o' : OutputData} (h : Agrees ids d o)
    (hs : o.SameCoin o') : Agrees ids d o' := by
  intro i hi he a ha
  rw [hs.keyId, hs.mmrIndex] at he ha
  exact (h i hi he a ha).trans hs

theorem save_placing {o o' : OutputData} (hs : o.SameCoin o') :
    Prog.Keeps (Prog.Inv (Placing ids d₀ o)) (Batch.save o') := by
  intro w hw
  have hag := hw.agrees.congr hs
  have hsave : Writes (SavesOnly o') w (Batch.save o' w).2 := Batch.save_writes (.inr ⟨rfl, rfl⟩) w
  refine ⟨hw.kept.saved hag hsave, fun i hi he a ha => ?_⟩
  rcases hsave.db (.output o.keyId o.mmrIndex) rfl with hsame | hk | ⟨-, hv⟩
  · exact hw.agrees i hi he a (hsame ▸ ha)
  · exact absurd rfl hk
  · rw [hv] at ha
    cases ha
    exact hs.symm

theorem delete_placing {o : OutputData} {id : Identifier} {m txId : Option Nat}
    (h : Unreserved ids id m) : Prog.Keeps (Prog.Inv (Placing ids d₀ o)) (Batch.delete id m txId) := by
  intro w hw
  refine ⟨hw.kept.delete h, fun i hi he a ha => hw.agrees i hi he a ?_⟩
  have hdel : Writes (fun k v => k = .output id m ∧ v = none) w (Batch.delete id m txId w).2 :=
    Batch.delete_writes ⟨rfl, rfl⟩ w
  rcases hdel.db (.output o.keyId o.mmrIndex) rfl with hsame | ⟨-, hv⟩
  · exact hsame ▸ ha
  · rw [hv] at ha
    cases ha

theorem delete_inputs {id : Identifier} {m txId : Option Nat} (h : Unreserved ids id m) :
    Prog.Keeps (Prog.Inv (InputsKept ids d₀)) (Batch.delete id m txId) := fun _ hw => hw.delete h

theorem save_inputs {o : OutputData} (h : Unreserved ids o.keyId o.mmrIndex) :
    Prog.Keeps (Prog.Inv (InputsKept ids d₀)) (Batch.save o) := fun w hw => hw.save (h.agrees w.db)

/-! ## Cancelling -/

/-- The inputs are as they were, and every output is one of `w`. -/
structure Cancelling (ids : List (Identifier × Option Nat × Nat)) (d₀ : Rows Key Serializable)
    (w s : Wallet) : Prop where
  kept : InputsKept ids d₀ s
  from_ : ∀ id m o', s.db.get (.output id m) = some (.outputData o') →
    ∃ o, w.db.get (.output id m) = some (.outputData o) ∧ o.SameCoin o'

namespace Updater

theorem cancelOutput_inputs {w : Wallet} (hw : Keyed w.db) {txId : Nat} {o : OutputData}
    (ho : o ∈ outputsOf w.db) (hfree : o.status = .unconfirmed → Unreserved ids o.keyId o.mmrIndex) :
    Prog.Keeps (Prog.Inv (Cancelling ids d₀ w)) (cancelOutput txId o) := by
  refine Prog.Keeps.bind (.ite (fun hs s h => ?_) fun _ => .pure _) fun _ =>
    .ite (fun _ s h => ?_) fun _ => .pure _
  · have hdel : Writes (fun k v => k = .output o.keyId o.mmrIndex ∧ v = none) s
        (Batch.delete o.keyId o.mmrIndex (some txId) s).2 := Batch.delete_writes ⟨rfl, rfl⟩ s
    refine ⟨h.kept.delete (hfree hs), fun id m o' ho' => ?_⟩
    rcases hdel.db (.output id m) rfl with hsame | ⟨-, hv⟩
    · exact h.from_ id m o' (hsame ▸ ho')
    · rw [hv] at ho'
      cases ho'
  · have hrow := hw.stored ho
    have hsame : o.SameCoin { o with status := .unspent } := ⟨rfl, rfl, rfl, rfl⟩
    have hag : Agrees ids s.db { o with status := .unspent } := by
      intro i _ _ o' ho'
      obtain ⟨a, ha, hs'⟩ := h.from_ o.keyId o.mmrIndex o' ho'
      rw [hrow] at ha
      cases ha
      exact hs'.symm.trans hsame
    have hsave : Writes (SavesOnly { o with status := .unspent }) s
        (Batch.save { o with status := .unspent } s).2 := Batch.save_writes (.inr ⟨rfl, rfl⟩) s
    refine ⟨h.kept.saved hag hsave, fun id m o' ho' => ?_⟩
    rcases hsave.db (.output id m) rfl with hold | hk | ⟨hk, hv⟩
    · exact h.from_ id m o' (hold ▸ ho')
    · exact absurd rfl hk
    · cases hk
      rw [hv] at ho'
      cases ho'
      exact ⟨o, hrow, hsame⟩

theorem cancelling_ofOutputs {w : Wallet} : OfOutputs (Cancelling ids d₀ w) where
  congr s s' h hs := ⟨inputsKept_ofOutputs.congr s s' h hs.kept,
    fun id m o' ho' => hs.from_ id m o' (h id m ▸ ho')⟩

end Updater

theorem Tx.cancelTx_inputs (W : World) (mask : Option SecretKey) {w : Wallet} {parent : Identifier}
    {txId : Option Nat} {txSlateId : Option Uuid} (hw : InputsKept ids d₀ w)
    (hc : CancelClear ids w.db parent txId txSlateId) :
    InputsKept ids d₀ (Tx.cancelTx W mask parent txId txSlateId w).2 := by
  obtain ⟨n, l, hrun, hmem⟩ := Updater.retrieveTxs_all txId txSlateId (some parent) false none w
  unfold Tx.cancelTx
  rw [Prog.bind_of_ok hrun]
  dsimp only
  split
  case h_2 => exact hw
  case h_1 tx =>
  split
  · exact hw
  split
  · exact hw
  refine Prog.state_bind (P := InputsKept ids d₀) ?_ fun res w₁ hres _ => ?_
  · rw [← (Updater.retrieveOutputs_reads W mask false false (some tx.id) (some parent) none none none) w]
    exact hw
  · obtain rfl := (Updater.retrieveOutputs_reads W _ _ _ _ _ _ _ _).eq hres
    have hF := (@Updater.cancelling_ofOutputs ids d₀ w₁).frees
    have hbody : Prog.Keeps (Prog.Inv (Cancelling ids d₀ w₁))
        (Updater.cancelTxAndOutputs W mask tx (res.2.2.map Prod.fst) parent) := by
      refine (batch_reads W mask).keeps.bind fun _ => Prog.Keeps.bind ?_ fun _ =>
        (Batch.saveTxLogEntry_keeps hF (by decide) _ _).bind fun _ => .pure _
      refine Prog.Keeps.forEach _ fun o ho => ?_
      have hsel := (Updater.retrieveOutputs_ok W hres o).1 ho
      exact Updater.cancelOutput_inputs hw.keyed (Updater.mem_selectedOutputs.1 hsel).1
        (hc tx ((hmem tx).1 List.mem_cons_self) o hsel)
    exact (hbody w₁ ⟨hw, fun id m o ho => ⟨o, ho, .refl o⟩⟩).kept

/-! ## Sections -/

/-- The program writes rows of the kinds in `S` only: it keeps whatever each such write and activating an
account keep. -/
def Framed (S : List RowKind) {α : Type} (p : WalletM α) : Prop :=
  ∀ (R : Wallet → Wallet → Prop) [Std.Refl R] [IsTrans Wallet R], Frees R S →
    (∀ id, Prog.Keeps R (setParentKeyId id)) → Prog.Keeps R p

theorem Frees.mono {R : Wallet → Wallet → Prop} {S T : List RowKind} (h : Frees R S)
    (hT : ∀ k ∈ T, k ∈ S) : Frees R T :=
  ⟨h.aside, h.files, fun k hk => h.puts k (hT _ hk), fun k hk => h.erases k (hT _ hk)⟩

theorem Framed.mono {S T : List RowKind} {α : Type} {p : WalletM α} (h : Framed T p)
    (hT : ∀ k ∈ T, k ∈ S) : Framed S p := fun R _ _ hF hset => h R (hF.mono hT) hset

/-- What every section of every call keeps. -/
structure Orderly (W : World) {α : Type} (a : Act) (p : WalletM α) : Prop where
  framed : Framed allRows p
  inputs : ∀ ids d₀ w, a.LeavesInputs ids W w → InputsKept ids d₀ w → InputsKept ids d₀ (p w).2

variable {W : World}

/-- A section that writes no output. -/
theorem orderly_of_framed {α : Type} {a : Act} {p : WalletM α} (h : Framed rowsBesideOutputs p) :
    Orderly W a p where
  framed := h.mono fun k _ => mem_allRows k
  inputs _ _ w _ hw := h _ inputsKept_ofOutputs.frees inputsKept_ofOutputs.setParent w hw

theorem orderly_of_reads {α : Type} {a : Act} {p : WalletM α} (h : Prog.Reads p) : Orderly W a p :=
  orderly_of_framed fun _ _ _ _ _ => h.keeps

variable (W) in
/-- A section that takes the lock and reads. -/
theorem orderly_of_locked {α : Type} {a : Act} {p : WalletM α} (h : Prog.Reads p) :
    Orderly W a (walletLock W >>= fun _ => p) :=
  orderly_of_framed fun _ _ _ hF hset => (walletLock_keeps W hset hF).bind fun _ => h.keeps

/-- A section that keeps an invariant of the outputs, which its condition establishes. -/
theorem orderly_of_inv {α : Type} {a : Act} {p : WalletM α} (hp : Framed allRows p)
    {I : List (Identifier × Option Nat × Nat) → Rows Key Serializable → Wallet → Prop}
    (hI : ∀ {ids d₀ w}, I ids d₀ w → InputsKept ids d₀ w)
    (ha : ∀ {ids d₀ w}, a.LeavesInputs ids W w → InputsKept ids d₀ w → I ids d₀ w)
    (h : ∀ {ids d₀}, Prog.Keeps (Prog.Inv (I ids d₀)) p) : Orderly W a p :=
  ⟨hp, fun _ _ w hw hk => hI (h w (ha hw hk))⟩

namespace Owner

theorem updateOutputs_framed (mask : Option SecretKey) : Framed allRows (updateOutputs W mask) :=
  fun _ _ _ hF hset =>
    updateOutputs_keeps hF W (walletLock_keeps W hset hF) (fun k _ => mem_allRows k) mask

theorem updateOutputs_orderly (mask : Option SecretKey) : Orderly W .refresh (updateOutputs W mask) := by
  refine orderly_of_inv (updateOutputs_framed mask) (I := fun ids d₀ => Refreshable ids d₀ W)
    Refreshable.kept (fun ha hk => ⟨hk, ha⟩) ?_
  intro ids d₀
  have hI := @refreshable_ofOutputs ids d₀ W
  refine (walletLock_keeps W hI.setParent hI.frees).bind fun _ => parentKeyId_reads.keeps.bind fun _ => ?_
  refine (Updater.refreshOutputs_refreshable W mask _).attempt.bind fun r => ?_
  split
  · exact .pure _
  · exact .throw _
  · exact .pure _

theorem cancelActive_orderly (mask : Option SecretKey) (txId : Option Nat) (txSlateId : Option Uuid) :
    Orderly W (.cancel txId txSlateId) (walletLock W >>= fun _ => parentKeyId >>= fun parent =>
      Tx.cancelTx W mask parent txId txSlateId) where
  framed _ _ _ hF hset := (walletLock_keeps W hset hF).bind fun _ => parentKeyId_reads.keeps.bind
    fun _ => Tx.cancelTx_keeps hF W (mem_allRows _) (mem_allRows _) (mem_allRows _) _ _ _ _
  inputs ids d₀ w ha hw := by
    have hl : InputsKept ids d₀ (locked W w) :=
      inputsKept_ofOutputs.congr w _ (fun _ _ => by rw [locked_db]) hw
    refine Prog.state_bind (P := InputsKept ids d₀) hl fun _ w₁ hrun h₁ => ?_
    have hw₁ : locked W w = w₁ := by
      unfold locked
      rw [hrun]
    subst hw₁
    rw [Prog.bind_of_ok (show parentKeyId (locked W w) = (.ok (locked W w).parentKeyId, _) from rfl)]
    refine Tx.cancelTx_inputs W mask hl ?_
    rw [locked_db]
    exact ha

end Owner

namespace Scan

theorem restoreMissingOutput_orderly (mask : Option SecretKey) (o : OutputResult)
    (found : Rows Identifier Nat) : Orderly W (.restore o) (restoreMissingOutput W mask o found) := by
  refine orderly_of_inv (I := fun ids d₀ => Placing ids d₀ (restoredOutput o o.keyId none 0))
    (fun _ _ _ hF hset => restoreMissingOutput_keeps hF W (walletLock_keeps W hset hF)
      (mem_allRows _) (mem_allRows _) (mem_allRows _) (mem_allRows _) _ _ _) Placing.kept
    (fun {ids d₀ w} ha hk => ⟨hk, ?_⟩) ?_
  · intro i hi he o' ho'
    obtain ⟨hv, hc⟩ := ha i hi he o' ho'
    obtain ⟨hid, hm⟩ := hk.keyed _ _ o' ho'
    exact ⟨hid.symm, hm.symm, hv.symm, hc.symm⟩
  · intro ids d₀
    have hI := @placing_ofOutputs ids d₀ (restoredOutput o o.keyId none 0)
    have hF := hI.frees
    refine (walletLock_keeps W hI.setParent hF).bind fun _ => (calcCommitForCache_reads W _ _ _).keeps.bind
      fun _ => (batch_reads W mask).keeps.bind fun _ => ?_
    refine (Batch.nextTxLogId_keeps hF (by decide) _).bind fun _ => hF.nextTick.bind fun _ =>
      hF.nextTick.bind fun _ => (Batch.saveTxLogEntry_keeps hF (by decide) _ _).bind fun _ => ?_
    refine Prog.Keeps.bind (Prog.Keeps.attempt (save_placing ?_)) fun _ =>
      (Prog.Keeps.unwrap _).bind fun _ => (Prog.Keeps.pure _).bind fun _ => .pure _
    exact ⟨rfl, rfl, rfl, rfl⟩

theorem updateMmrIndex_orderly (mask : Option SecretKey) (o : OutputData) (mmrIndex : Nat) :
    Orderly W (.reindex o mmrIndex) (updateMmrIndex W mask o mmrIndex) where
  framed _ _ _ hF hset := updateMmrIndex_keeps hF W (walletLock_keeps W hset hF) (mem_allRows _)
    (mem_allRows _) _ _ _
  inputs ids d₀ w ha hw := by
    unfold updateMmrIndex
    split
    · next hne =>
      obtain ⟨hnone, hag⟩ := ha hne
      have hI := @placing_ofOutputs ids d₀ { o with mmrIndex := some mmrIndex }
      have hbody : Prog.Keeps (Prog.Inv (Placing ids d₀ { o with mmrIndex := some mmrIndex }))
          (walletLock W >>= fun _ => batch W mask >>= fun _ =>
            (if o.mmrIndex.isNone then Batch.delete o.keyId none o.txLogEntry else pure ()) >>= fun _ =>
              Batch.save { o with mmrIndex := some mmrIndex } >>= fun _ => Batch.commit) := by
        refine (walletLock_keeps W hI.setParent hI.frees).bind fun _ =>
          (batch_reads W mask).keeps.bind fun _ => Prog.Keeps.bind (.ite (fun h => ?_) fun _ => .pure _)
            fun _ => (save_placing (.refl _)).bind fun _ => .pure _
        exact delete_placing (hnone (Option.isNone_iff_eq_none.1 h))
      exact (hbody w ⟨hw, hag⟩).kept
    · exact hw

theorem saveUnspent_orderly (mask : Option SecretKey) (o : OutputData) :
    Orderly W (.unspend o) (walletLock W >>= fun _ => batch W mask >>= fun _ =>
      Batch.save { o with status := .unspent } >>= fun _ => Batch.commit) := by
  refine orderly_of_inv (I := fun ids d₀ => Placing ids d₀ o) (fun _ _ _ hF hset => ?_) Placing.kept
    (fun ha hk => ⟨hk, ha⟩) ?_
  · exact (walletLock_keeps W hset hF).bind fun _ => (batch_reads W mask).keeps.bind fun _ =>
      (Batch.save_keeps hF (mem_allRows _) (mem_allRows _) _).bind fun _ => .pure _
  · intro ids d₀
    have hI := @placing_ofOutputs ids d₀ o
    refine (walletLock_keeps W hI.setParent hI.frees).bind fun _ => (batch_reads W mask).keeps.bind
      fun _ => Prog.Keeps.bind (save_placing ?_) fun _ => .pure _
    exact ⟨rfl, rfl, rfl, rfl⟩

theorem deleteSeen_orderly (mask : Option SecretKey) (o : OutputData) :
    Orderly W (.discard o) (walletLock W >>= fun _ => batch W mask >>= fun _ =>
      Batch.delete o.keyId o.mmrIndex o.txLogEntry >>= fun _ => Batch.commit) where
  framed _ _ _ hF hset := (walletLock_keeps W hset hF).bind fun _ => (batch_reads W mask).keeps.bind
    fun _ => (Batch.delete_keeps hF (mem_allRows _) (mem_allRows _) _ _ _).bind fun _ => .pure _
  inputs ids d₀ w ha hw := by
    have hI := @inputsKept_ofOutputs ids d₀
    have hbody : Prog.Keeps (Prog.Inv (InputsKept ids d₀)) (walletLock W >>= fun _ =>
        batch W mask >>= fun _ => Batch.delete o.keyId o.mmrIndex o.txLogEntry >>= fun _ =>
          Batch.commit) :=
      (walletLock_keeps W hI.setParent hI.frees).bind fun _ => (batch_reads W mask).keeps.bind
        fun _ => (delete_inputs ha).bind fun _ => .pure _
    exact hbody w hw

end Scan

/-! ## Whole calls -/

/-- A call that refreshes before it selects inputs. -/
theorem Tx.addInputsToSlate_refreshable (mask : Option SecretKey) (slate : Slate)
    (minimumConfirmations maxOutputs numChangeOutputs : Nat) (selectAll : Bool) (parent : Identifier)
    (participantId : Nat) (message : Option String) (isInitiator : Bool) :
    Prog.Keeps (Prog.Inv (Refreshable ids d₀ W)) (Tx.addInputsToSlate W mask slate
      minimumConfirmations maxOutputs numChangeOutputs selectAll parent participantId message
      isInitiator) := by
  have hF := (@refreshable_ofOutputs ids d₀ W).frees
  refine (Updater.refreshOutputs_refreshable W _ _).bind fun _ => (keychain_reads W mask).keeps.bind
    fun _ => (Selection.buildSendTx_keeps hF W (by decide) _ _ _ _ _ _ _ _).bind fun r =>
      (keychain_reads W mask).keeps.bind fun _ => ?_
  exact Tx.fillRounds_keeps hF W _ _ _ _ _ _ _ _

namespace Owner

theorem initSendTx_refreshable (mask : Option SecretKey) (args : InitTxArgs) :
    Prog.Keeps (Prog.Inv (Refreshable ids d₀ W)) (initSendTx W mask args) := by
  have hF := (@refreshable_ofOutputs ids d₀ W).frees
  refine (accountNamed_reads _).keeps.bind fun _ => (truncateMessage_reads _).keeps.bind fun _ =>
    (Tx.newTxSlate_keeps hF W _ _ _).bind fun _ => .ite (fun _ => ?_) fun _ => ?_
  · refine Prog.Keeps.bind ?_ fun _ => .pure _
    exact (Updater.getChainTip_keeps hF W).bind fun _ =>
      (Updater.refreshOutputs_refreshable W _ _).bind fun _ =>
        (Selection.selectCoinsAndFee_reads W _ _ _ _ _ _ _).keeps.bind fun _ => .pure _
  · exact (Tx.addInputsToSlate_refreshable _ _ _ _ _ _ _ _ _ _).bind fun _ =>
      (addProofInfo_reads W _ _ _ _ _).keeps.bind fun _ =>
        (saveContext_keeps hF W (by decide) _ _ _ _).bind fun _ => .pure _

theorem processInvoiceTx_refreshable (mask : Option SecretKey) (slate : Slate) (args : InitTxArgs) :
    Prog.Keeps (Prog.Inv (Refreshable ids d₀ W)) (processInvoiceTx W mask slate args) := by
  have hF := (@refreshable_ofOutputs ids d₀ W).frees
  refine (checkTtl_reads _).keeps.bind fun _ => (accountNamed_reads _).keeps.bind fun _ =>
    (Updater.retrieveTxs_reads _ _ _ _ _ _ _).keeps.bind fun _ => .ite (fun _ => .throw _) fun _ => ?_
  refine (truncateMessage_reads _).keeps.bind fun _ => (Updater.getChainTip_keeps hF W).bind fun _ =>
    (updateHeights_reads _ _ _).keeps.bind fun _ => ?_
  exact (Tx.addInputsToSlate_refreshable _ _ _ _ _ _ _ _ _ _).bind fun _ =>
    (saveContext_keeps hF W (by decide) _ _ _ _).bind fun _ => .pure _

end Owner

/-- What a call needs that saves an output under the next new key. -/
structure Receiving (ids : List (Identifier × Option Nat × Nat)) (d₀ : Rows Key Serializable)
    (w : Wallet) : Prop where
  kept : InputsKept ids d₀ w
  clear : NextKeyClear ids w

/-- Answers of the world and files do not matter for it. -/
theorem receiving_frees : Frees (Prog.Inv (Receiving ids d₀)) [] where
  aside w w' h hw := by
    have hp : w'.parentKeyId = w.parentKeyId := by rw [h]
    refine ⟨inputsKept_ofOutputs.congr w w' (fun _ _ => by rw [h.db]) hw.kept, fun id hid => ?_⟩
    rw [hp, h.db] at hid
    exact hw.clear id hid
  files _ _ hw := ⟨⟨hw.kept.keyed, hw.kept.inputs⟩, hw.clear⟩
  puts _ hk := by cases hk
  erases _ hk := by cases hk

/-- The next new key is no input's. -/
theorem nextChild_receiving (mask : Option SecretKey) :
    Prog.Triple (Receiving ids d₀) (nextChild W mask)
      (fun id w => InputsKept ids d₀ w ∧ Unreserved ids id none) (InputsKept ids d₀) := by
  have hkeep := nextChild_keeps ((@inputsKept_ofOutputs ids d₀).frees) W (by decide) mask
  refine .intro (fun w id w' hw hrun => ?_) fun w _ w' hw hrun => hkeep.rel hrun hw.kept
  obtain ⟨n, rfl, -, hid, -⟩ := nextChild_ok W hrun
  exact ⟨hkeep.rel hrun hw.kept, hw.clear id hid⟩

theorem Selection.buildRecipientOutput_receiving (mask : Option SecretKey) (slate : Slate)
    (parent : Identifier) : Prog.Triple (Receiving ids d₀) (buildRecipientOutput W mask slate parent)
      (fun _ => InputsKept ids d₀) (InputsKept ids d₀) := by
  have hF := (@inputsKept_ofOutputs ids d₀).frees
  refine (nextChild_receiving mask).orPanic.bind fun keyId => .of_and fun hfree =>
    Prog.triple_inv.2 ?_
  refine (keychain_reads W mask).keeps.bind fun _ => (Prog.Keeps.ofExcept _).bind fun r =>
    (keychain_reads W mask).keeps.bind fun _ => ((newContext_aside W _ _ _).mono hF.aside).bind
      fun _ => ?_
  refine (calcCommitForCache_reads W _ _ _).keeps.bind fun _ => (batch_reads W mask).keeps.bind
    fun _ => (Batch.nextTxLogId_keeps hF (by decide) _).bind fun _ => hF.nextTick.bind fun _ => ?_
  refine Prog.Keeps.bind (save_inputs ?_) fun _ => (Batch.saveTxLogEntry_keeps hF (by decide) _ _).bind
    fun _ => (Prog.Keeps.pure _).bind fun _ => .pure _
  exact hfree

theorem Tx.addOutputToSlate_receiving (mask : Option SecretKey) (slate : Slate) (parent : Identifier)
    (participantId : Nat) (message : Option String) (isInitiator : Bool) :
    Prog.Triple (Receiving ids d₀) (addOutputToSlate W mask slate parent participantId message
      isInitiator) (fun _ => InputsKept ids d₀) (InputsKept ids d₀) := by
  have hF := (@inputsKept_ofOutputs ids d₀).frees
  refine (Selection.buildRecipientOutput_receiving mask slate parent).bind fun r => Prog.triple_inv.2 ?_
  exact (keychain_reads W mask).keeps.bind fun _ => Tx.fillRounds_keeps hF W _ _ _ _ _ _ _ _

/-- What reads, and what keeps the invariant, before an output is saved under a new key. -/
theorem receiving_step {α : Type} {p : WalletM α} (h : Prog.Keeps (Prog.Inv (Receiving ids d₀)) p) :
    Prog.Triple (Receiving ids d₀) p (fun _ => Receiving ids d₀) (InputsKept ids d₀) :=
  (Prog.triple_inv.2 h).mono (fun _ h => h) (fun _ _ h => h) fun _ h => h.kept

theorem Owner.issueInvoiceTx_receiving (mask : Option SecretKey) (args : IssueInvoiceTxArgs) :
    Prog.Triple (Receiving ids d₀) (issueInvoiceTx W mask args) (fun _ => InputsKept ids d₀)
      (InputsKept ids d₀) := by
  have hF := (@inputsKept_ofOutputs ids d₀).frees
  refine (receiving_step (accountNamed_reads _).keeps).bind fun _ =>
    (receiving_step (truncateMessage_reads _).keeps).bind fun _ =>
      (receiving_step (Tx.newTxSlate_keeps receiving_frees W _ _ _)).bind fun _ => ?_
  refine (Tx.addOutputToSlate_receiving _ _ _ _ _ _).bind fun _ => Prog.triple_inv.2 ?_
  exact (saveContext_keeps hF W (by decide) _ _ _ _).bind fun _ => .pure _

theorem Foreign.receiveTx_receiving (mask : Option SecretKey) (slate : Slate)
    (destAcctName message addrFrom : Option String) :
    Prog.Triple (Receiving ids d₀) (receiveTx W mask slate destAcctName message addrFrom)
      (fun _ => InputsKept ids d₀) (InputsKept ids d₀) := by
  have hF := (@inputsKept_ofOutputs ids d₀).frees
  refine (receiving_step (checkTtl_reads _).keeps).bind fun _ =>
    (receiving_step (accountNamed_reads _).keeps).bind fun _ =>
      (receiving_step (Updater.retrieveTxs_reads _ _ _ _ _ _ _).keeps).bind fun _ =>
        .ite (fun _ => .throw fun _ h => h.kept) fun _ => ?_
  refine (receiving_step (truncateMessage_reads _).keeps).bind fun _ =>
    (Tx.addOutputToSlate_receiving _ _ _ _ _ _).bind fun _ => Prog.triple_inv.2 ?_
  refine (Tx.updateEntries_keeps hF W (by decide) _ _ _ _).bind fun _ =>
    (Tx.updateEntries_keeps hF W (by decide) _ _ _ _).bind fun _ => ?_
  exact (keychain_reads W _).keeps.bind fun _ => (Prog.Keeps.ofExcept _).bind fun _ =>
    (signProof_reads W _ _ _ _).keeps

/-- A reward is saved under a new key, or under the one the request names. -/
theorem Updater.receiveReward_receiving (mask : Option SecretKey) (fees : BlockFees) (amount : Nat)
    (build : Keychain → Identifier → Except Error (Output × TxKernel))
    (hfees : ∀ id, fees.keyId = some id → Unreserved ids id none) :
    Prog.Triple (Receiving ids d₀) (receiveReward W mask fees amount build)
      (fun _ => InputsKept ids d₀) (InputsKept ids d₀) := by
  have hF := (@inputsKept_ofOutputs ids d₀).frees
  have hkey : Prog.Triple (Receiving ids d₀) (rewardKey W mask fees.keyId)
      (fun id w => InputsKept ids d₀ w ∧ Unreserved ids id none) (InputsKept ids d₀) := by
    unfold rewardKey
    split
    · next id hid =>
      refine Prog.Triple.bind (R := fun r w => Receiving ids d₀ w ∧ ∀ k, r = .ok k → k.1 = id) ?_
        fun r => ?_
      · refine Prog.Reads.triple (Keys.retrieveExistingKey_reads id none).attempt
          (fun w r hw hrun => ⟨hw, ?_⟩) fun _ h => h.kept
        rintro k rfl
        obtain ⟨o, w₁, ho, h₁⟩ := Prog.bind_ok.1 (Prog.attempt_eq_ok.1 hrun)
        cases h₁
        exact (hw.kept.keyed _ _ o (getOutput_ok.1 ho).1).1
      · refine .of_and fun hr => ?_
        split
        · next k =>
          refine .pure fun w hw => ⟨hw.kept, ?_⟩
          rw [hr k rfl]
          exact hfees id hid
        · exact nextChild_receiving mask
    · exact nextChild_receiving mask
  refine (receiving_step (addU64_reads _ _).keeps).bind fun _ =>
    (receiving_step parentKeyId_reads.keeps).bind fun _ => hkey.bind fun id => .of_and fun hfree =>
      Prog.triple_inv.2 ?_
  refine (calcCommitForCache_reads W _ _ _).keeps.bind fun _ => (batch_reads W mask).keeps.bind
    fun _ => Prog.Keeps.bind (save_inputs ?_) fun _ => ?_
  · exact hfree
  · exact (Prog.Keeps.pure _).bind fun _ => (keychain_reads W mask).keeps.bind fun _ =>
      (Prog.Keeps.ofExcept _).bind fun _ => .pure _

namespace Selection

/-- An input that is locked stays the output it is. -/
theorem lockInput_inputs (logId acc : Nat) (i : Identifier × Option Nat × Nat) :
    Prog.Keeps (Prog.Inv (InputsKept ids d₀)) (lockInput logId acc i) := by
  refine Prog.triple_inv.1 (Prog.Triple.bind (R := fun coin w => InputsKept ids d₀ w ∧
    w.db.get (.output coin.keyId coin.mmrIndex) = some (.outputData coin)) ?_ fun coin => ?_)
  · refine Prog.Triple.orPanic (Prog.Reads.triple (getOutput_reads _ _) (fun w o hw hrun => ⟨hw, ?_⟩)
      fun _ h => h)
    have hrow := (getOutput_ok.1 hrun).1
    obtain ⟨hid, hm⟩ := hw.keyed _ _ o hrow
    rw [hid, hm]
    exact hrow
  · refine Prog.Triple.bind (R := fun _ w => InputsKept ids d₀ w ∧
      w.db.get (.output coin.keyId coin.mmrIndex) = some (.outputData coin)) ?_ fun _ => ?_
    · exact Prog.Reads.triple (addU64_reads _ _) (fun _ _ h _ => h) fun _ h => h.1
    · refine Prog.Triple.bind (R := fun _ => InputsKept ids d₀)
        (Prog.triple_state fun w hw => ?_) fun _ => .pure fun _ h => h
      exact hw.1.save (agrees_of_stored hw.2 ⟨rfl, rfl, rfl, rfl⟩)

theorem lockTxContext_inputs (mask : Option SecretKey) (slate : Slate) {context : Context}
    (addrTo : Option String) (hc : ∀ o ∈ context.outputIds, Unreserved ids o.1 none) :
    Prog.Keeps (Prog.Inv (InputsKept ids d₀)) (lockTxContext W mask slate context addrTo) := by
  have hF := (@inputsKept_ofOutputs ids d₀).frees
  refine (outputCommits_reads W mask _).keeps.bind fun commits => (keychain_reads W mask).keeps.bind
    fun k => Prog.Keeps.bind ?_ fun t => (Prog.Keeps.unwrap _).bind fun _ => storeTx_keeps hF W _ _
  refine (batch_reads W mask).keeps.bind fun _ => (Batch.nextTxLogId_keeps hF (by decide) _).bind
    fun _ => hF.nextTick.bind fun _ => ?_
  refine Prog.Keeps.bind (Prog.Keeps.foldlM _ _ fun _ _ _ => lockInput_inputs _ _ _) fun _ =>
    (storedProofInfo_reads W _ _ _).keeps.bind fun _ => Prog.Keeps.bind ?_ fun _ =>
      (Batch.saveTxLogEntry_keeps hF (by decide) _ _).bind fun _ => (Prog.Keeps.pure _).bind
        fun _ => .pure _
  refine Prog.Keeps.foldlM _ _ fun _ o ho => (Prog.Keeps.unwrap _).bind fun _ =>
    (addU64_reads _ _).keeps.bind fun _ => Prog.Keeps.bind (save_inputs ?_) fun _ => .pure _
  exact hc o ho

end Selection

/-- A locking keeps the inputs of other sends. -/
theorem Owner.txLockOutputs_inputs (mask : Option SecretKey) (slate : Slate) (participantId : Nat)
    (addrTo : Option String) {w : Wallet} (hw : InputsKept ids d₀ w)
    (hc : ∀ c, w.db.get (.privateTxContext slate.id participantId) = some (.context c) →
      ∀ o ∈ c.outputIds, Unreserved ids o.1 none) :
    InputsKept ids d₀ (txLockOutputs W mask slate participantId addrTo w).2 := by
  refine Prog.state_bind (P := InputsKept ids d₀) ?_ fun c w₁ hrun h₁ => ?_
  · rw [← (getPrivateContext_reads W mask slate.id participantId) w]
    exact hw
  · obtain ⟨rfl, stored, keys, hrow, rfl⟩ := getPrivateContext_ok W hrun
    exact Selection.lockTxContext_inputs mask slate addrTo (hc stored hrow) w₁ h₁

namespace Op

/-- A call that holds the lock from start to end, its answer aside. -/
theorem orderly_of_call {op : Op} {α : Type} {p : WalletM α} (h : Orderly W (.call op) p) :
    Orderly W (.call op) (p >>= fun _ => pure () : WalletM Unit) where
  framed R _ _ hF hset := (h.framed R hF hset).bind fun _ => .pure _
  inputs ids d₀ w ha hw := Prog.state_bind (h.inputs ids d₀ w ha hw) fun _ _ _ h => h

/-- A call that saves outputs after it took a new key. -/
theorem orderly_of_receiving {op : Op} {α : Type} {p : WalletM α} (hp : Framed allRows p)
    (ha : ∀ {ids w}, op.LeavesInputs ids W w → NextKeyClear ids w)
    (h : ∀ {ids d₀ w}, op.LeavesInputs ids W w → Prog.Triple (Receiving ids d₀) p
      (fun _ => InputsKept ids d₀) (InputsKept ids d₀)) : Orderly W (.call op) p :=
  ⟨hp, fun _ _ _ hw hk => (h hw).state (fun _ _ h => h) (fun _ h => h) ⟨hk, ha hw⟩⟩

theorem call_orderly {op : Op} (hlock : op.holdsLock = true) : Orderly W (.call op) (op.prog W) := by
  have hall : Framed allRows (op.prog W) := fun _ _ _ hF hset => op.prog_keeps W hF hset
  cases op with
  | createAccountPath mask label =>
    exact orderly_of_call (orderly_of_framed fun _ _ _ hF _ =>
      Keys.newAcctPath_keeps hF W (by decide) _ _)
  | setActiveAccount label =>
    exact orderly_of_framed fun _ _ _ _ hset => setParentKeyIdByName_keeps hset _
  | initSendTx mask args =>
    exact orderly_of_call (orderly_of_inv (fun _ _ _ hF _ => Owner.initSendTx_keeps W hF _ _)
      (I := fun ids d₀ => Refreshable ids d₀ W) Refreshable.kept (fun ha hk => ⟨hk, ha⟩)
        (Owner.initSendTx_refreshable _ _))
  | processInvoiceTx mask slate args =>
    exact orderly_of_call (orderly_of_inv (fun _ _ _ hF _ => Owner.processInvoiceTx_keeps W hF _ _ _)
      (I := fun ids d₀ => Refreshable ids d₀ W) Refreshable.kept (fun ha hk => ⟨hk, ha⟩)
        (Owner.processInvoiceTx_refreshable _ _ _))
  | issueInvoiceTx mask args =>
    exact orderly_of_call (orderly_of_receiving (fun _ _ _ hF _ => Owner.issueInvoiceTx_keeps W hF _ _)
      id fun _ => Owner.issueInvoiceTx_receiving _ _)
  | receiveTx mask slate dest message addrFrom =>
    exact orderly_of_call (orderly_of_receiving
      (fun _ _ _ hF _ => Foreign.receiveTx_keeps W hF _ _ _ _ _) id
        fun _ => Foreign.receiveTx_receiving _ _ _ _ _)
  | buildCoinbase mask fees =>
    exact orderly_of_call (orderly_of_receiving (fun _ _ _ hF _ => Updater.receiveReward_keeps hF W
      (mem_allRows _) (mem_allRows _) (mem_allRows _) _ _ _ _) And.left
        fun h => Updater.receiveReward_receiving _ _ _ _ h.2)
  | buildFoundation mask fees =>
    exact orderly_of_call (orderly_of_receiving (fun _ _ _ hF _ => Updater.receiveReward_keeps hF W
      (mem_allRows _) (mem_allRows _) (mem_allRows _) _ _ _ _) And.left
        fun h => Updater.receiveReward_receiving _ _ _ _ h.2)
  | txLockOutputs mask slate participantId addrTo =>
    exact ⟨hall, fun ids d₀ w ha hw => Owner.txLockOutputs_inputs _ _ _ _ hw ha⟩
  | finalizeTx mask slate =>
    exact orderly_of_call (orderly_of_framed fun _ _ _ hF _ =>
      Owner.finalizeTx_keeps W hF (by decide) (by decide) _ _)
  | finalizeInvoiceTx mask slate =>
    exact orderly_of_call (orderly_of_framed fun _ _ _ hF _ =>
      Foreign.finalizeInvoiceTx_keeps W hF (by decide) (by decide) _ _)
  | updateMempoolStatus mask slate =>
    exact orderly_of_framed fun _ _ _ hF _ => Tx.updateMempoolStatus_keeps hF W (by decide) _ _
  | waitForTxInMempool | updateWalletState | cancelTx | scan => cases hlock

end Op

theorem each_framed {α : Type} {a : Act} {p : WalletM α} (h : Framed rowsBesideOutputs p) :
    (Sections.one a p).Each (Orderly W) := .one (orderly_of_framed h)

theorem each_locked {α : Type} {a : Act} {p : WalletM α} (h : Framed rowsBesideOutputs p) :
    (Sections.one a (walletLock W >>= fun _ => p)).Each (Orderly W) :=
  each_framed fun R _ _ hF hset => (walletLock_keeps W hset hF).bind fun _ => h R hF hset

theorem framed_reads {S : List RowKind} {α : Type} {p : WalletM α} (h : Prog.Reads p) : Framed S p :=
  fun _ _ _ _ _ => h.keeps

namespace Scan

theorem matchSections_each (mask : Option SecretKey) (wo : List (OutputData × Commitment)) :
    ∀ outs : List OutputResult, (matchSections W mask wo outs).Each (Orderly W)
  | [] => .pure _
  | deffo :: outs => by
    unfold matchSections
    split
    · exact (Sections.Each.one (updateMmrIndex_orderly mask _ _)).bind fun _ =>
        (matchSections_each mask wo outs).bind fun _ => .pure _
    · exact (matchSections_each mask wo outs).bind fun _ => .pure _

theorem cancelTxLogEntry_each (mask : Option SecretKey) (o : OutputData) (a : Act) :
    (Sections.one a (cancelTxLogEntry W mask o)).Each (Orderly W) :=
  each_framed fun _ _ _ hF hset =>
    cancelTxLogEntry_keeps hF W (walletLock_keeps W hset hF) (by decide) mask o

theorem unspentSections_each (mask : Option SecretKey) (o : OutputData) :
    (unspentSections W mask o).Each (Orderly W) :=
  (cancelTxLogEntry_each mask _ _).bind fun _ => .one (saveUnspent_orderly mask o)

theorem unconfirmedSections_each (mask : Option SecretKey) (o : OutputData) :
    (unconfirmedSections W mask o).Each (Orderly W) :=
  (cancelTxLogEntry_each mask _ _).bind fun _ => .one (deleteSeen_orderly mask o)

theorem restorePathSections_each (mask : Option SecretKey) (accounts : List Identifier)
    (acctIndex : Nat) (found : Identifier × Nat) :
    (restorePathSections W mask accounts acctIndex found).Each (Orderly W) := by
  refine Sections.Each.bind (.ite (fun _ => .pure _) fun _ => ?_) fun _ => ?_
  · exact (each_locked fun _ _ _ hF _ => Keys.setAcctPath_keeps hF W (by decide) _ _ _).bind
      fun _ => .pure _
  · refine (each_locked (framed_reads (currentChildIndex_reads _))).bind fun _ =>
      Sections.Each.bind (.ite (fun _ => each_locked fun _ _ _ hF _ => ?_) fun _ => .pure _)
        fun _ => .pure _
    exact (batch_reads W mask).keeps.bind fun _ => (addU32_reads _ _).keeps.bind fun _ =>
      (Batch.saveChildIndex_keeps hF (by decide) _ _).bind fun _ => .pure _

theorem sections_each (mask : Option SecretKey) (delete : Bool) (startHeight endHeight : Nat) :
    (sections W mask delete startHeight endHeight).Each (Orderly W) := by
  refine (each_locked (framed_reads (keychain_reads W mask))).bind fun k =>
    (each_framed fun _ _ _ hF _ => hF.nextTick.bind fun _ => .ofExcept _).bind fun range =>
      (each_framed fun _ _ _ hF _ => collectFrom_keeps hF W k _ _ _).bind fun chainOuts => ?_
  refine (each_locked (framed_reads (Updater.retrieveOutputs_reads W _ _ _ _ _ _ _ _))).bind
    fun walletOutputs => (matchSections_each mask _ _).bind fun found => ?_
  refine (Sections.Each.forEach (unspentSections_each mask) _).bind fun _ =>
    (Sections.Each.foldlM (fun parents m => .one (restoreMissingOutput_orderly mask m parents)) _ _).bind
      fun foundParents => ?_
  refine Sections.Each.bind (.ite (fun _ => ?_) fun _ => .pure _) fun _ => ?_
  · exact (Sections.Each.forEach (unspentSections_each mask) _).bind fun _ =>
      Sections.Each.forEach (unconfirmedSections_each mask) _
  · refine (each_locked (framed_reads acctPathIter_reads)).bind fun accounts =>
      (each_framed fun _ _ _ hF _ => hF.nextTick).bind fun tick => ?_
    exact (Sections.Each.foldlM (fun i found => restorePathSections_each mask _ i found) _ _).bind
      fun _ => .pure _

end Scan

namespace Owner

theorem waitSections_each (mask : Option SecretKey) (txSlateId : Uuid) :
    ∀ n : Nat, (waitSections W mask txSlateId n).Each (Orderly W)
  | 0 => .pure _
  | n + 1 => by
    refine (each_locked fun _ _ _ hF _ => hF.nextTick.bind fun _ => .ofExcept _).bind fun mempool =>
      (each_locked (framed_reads txLogIter_reads)).bind fun txs => Sections.Each.bind
        (Sections.Each.forEach (fun e => each_locked fun _ _ _ hF _ => ?_) _) fun _ =>
          .ite (fun _ => waitSections_each mask txSlateId n) fun _ => .pure _
    exact parentKeyId_reads.keeps.bind fun _ => (batch_reads W mask).keeps.bind fun _ =>
      (Batch.saveTxLogEntry_keeps hF (by decide) _ _).bind fun _ => .pure _

theorem lookupSections_each (mask : Option SecretKey) (parent : Identifier) (height : Nat) :
    ∀ l : List TxLogEntry, (lookupSections W mask parent height l).Each (Orderly W)
  | [] => .pure _
  | tx :: l => by
    have hrest := lookupSections_each mask parent height l
    unfold lookupSections
    refine .ite (fun _ => hrest) fun _ => ?_
    split
    · exact hrest
    · refine (each_framed fun _ _ _ hF _ => hF.nextTick).bind fun tick => ?_
      split
      · exact .pure _
      · exact hrest
      · exact (each_framed fun _ _ _ hF hset => saveConfirmed_keeps hF W
          (walletLock_keeps W hset hF) (by decide) _ _ _ _).bind fun _ => hrest

theorem kernelSections_each (mask : Option SecretKey) (txs : List TxLogEntry) :
    (kernelSections W mask txs).Each (Orderly W) := by
  refine (each_locked (framed_reads parentKeyId_reads)).bind fun parent =>
    (each_framed fun _ _ _ hF hset => walletLock_keeps W hset hF).bind fun _ =>
      (each_framed fun _ _ _ hF _ => (Updater.getChainTip_keeps hF W).attempt).bind fun tip => ?_
  split
  · exact .pure _
  · exact lookupSections_each mask parent _ txs

theorem scanSections_each (mask : Option SecretKey) (tip : Nat × String) :
    (scanSections W mask tip).Each (Orderly W) := by
  refine (each_locked (framed_reads (scanStart_reads tip))).bind fun last =>
    (Scan.sections_each mask _ _ _).bind fun info => each_locked fun _ _ _ hF _ => ?_
  exact (batch_reads W mask).keeps.bind fun _ => (hF.put (by decide) (by trivial)).bind fun _ =>
    (hF.put (by decide) (by trivial)).bind fun _ => .pure _

theorem tipSections_each (mask : Option SecretKey) (txs : List TxLogEntry) :
    (tipSections W mask txs).Each (Orderly W) := by
  refine (each_framed fun _ _ _ hF _ => (Updater.getChainTip_keeps hF W).attempt).bind fun tip => ?_
  split
  · exact .pure _
  · refine (scanSections_each mask _).bind fun _ => Sections.Each.bind
      (Sections.Each.forEach (fun tx => ?_) _) fun _ => .pure _
    unfold expireSections
    split
    · exact .pure _
    · exact .ite (fun _ => .one (cancelActive_orderly mask _ _)) fun _ => .pure _

theorem updateSections_each (mask : Option SecretKey) :
    (updateSections W mask).Each (Orderly W) := by
  refine (each_locked (framed_reads parentKeyId_reads)).bind fun parent =>
    (each_framed fun _ _ _ hF hset => walletLock_keeps W hset hF).bind fun _ =>
      (Sections.Each.one (updateOutputs_orderly mask)).bind fun result =>
        .ite (fun _ => .pure _) fun _ => ?_
  exact (each_locked (framed_reads (Updater.retrieveTxs_reads _ _ _ _ _ _ _))).bind fun txs =>
    (kernelSections_each mask _).bind fun result =>
      .ite (fun _ => .pure _) fun _ => tipSections_each mask _

theorem cancelSections_each (mask : Option SecretKey) (txId : Option Nat) (txSlateId : Option Uuid) :
    (cancelSections W mask txId txSlateId).Each (Orderly W) :=
  (updateSections_each mask).bind fun _ => .ite (fun _ => each_framed fun _ _ _ _ _ => .throw _)
    fun _ => .one (cancelActive_orderly mask _ _)

theorem ownerScanSections_each (mask : Option SecretKey) (startHeight : Option Nat) (delete : Bool) :
    (ownerScanSections W mask startHeight delete).Each (Orderly W) := by
  refine (Sections.Each.one (updateOutputs_orderly mask)).bind fun _ =>
    (each_locked fun _ _ _ hF _ => Updater.getChainTip_keeps hF W).bind fun tip =>
      (Scan.sections_each mask _ _ _).bind fun info => each_locked fun _ _ _ hF _ => ?_
  exact (batch_reads W mask).keeps.bind fun _ => (hF.put (by decide) (by trivial)).bind fun _ => .pure _

end Owner

namespace Op

/-- Every section of every call. -/
theorem sections_each : ∀ op : Op, (op.sections W).Each (Orderly W)
  | .waitForTxInMempool mask txSlateId attempts =>
    (Owner.waitSections_each mask txSlateId attempts).bind fun _ => .pure _
  | .updateWalletState mask => (Owner.updateSections_each mask).bind fun _ => .pure _
  | .cancelTx mask txId txSlateId => Owner.cancelSections_each mask txId txSlateId
  | .scan mask startHeight delete => Owner.ownerScanSections_each mask startHeight delete
  | .createAccountPath _ _ | .setActiveAccount _ | .initSendTx _ _ | .issueInvoiceTx _ _
  | .processInvoiceTx _ _ _ | .txLockOutputs _ _ _ _ | .finalizeTx _ _ | .receiveTx _ _ _ _ _
  | .finalizeInvoiceTx _ _ | .updateMempoolStatus _ _ | .buildCoinbase _ _ | .buildFoundation _ _ =>
    .one (call_orderly rfl)

/-- In any interleaving whose sections leave the inputs, every input stays the output it is. -/
theorem inputs_of_run {x y : Calls} (h : Pool.Run (sections W) (Act.LeavesInputs ids W) x y)
    (hx : ∀ c ∈ x.progs, c.Each (Orderly W)) (hk : InputsKept ids d₀ x.state) :
    InputsKept ids d₀ y.state :=
  (h.of_each (fun hs ha hk => hs.inputs ids d₀ _ ha hk) sections_each hx hk).1

/-- What every write and activating an account keep, every interleaving keeps. -/
theorem inv_of_run {I : Wallet → Prop} {ok : Act → Wallet → Prop}
    (hF : Frees (Prog.Inv I) allRows) (hset : ∀ id, Prog.Keeps (Prog.Inv I) (setParentKeyId id))
    {x y : Calls} (h : Pool.Run (sections W) ok x y) (hx : ∀ c ∈ x.progs, c.Each (Orderly W))
    (hI : I x.state) : I y.state ∧ ∀ c ∈ y.progs, c.Each (Orderly W) :=
  h.of_each (fun hs _ hw => hs.framed _ hF hset _ hw) sections_each hx hI

end Op

end

end EpicWallet
