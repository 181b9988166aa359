import EpicWallet.Libwallet.Proof.ChildIndex
import EpicWallet.Libwallet.Proof.Coverage
import EpicWallet.Libwallet.Proof.Run

/-!
# Restored keys are not handed out again

A scan stores the outputs it restores one by one and raises the child indices of their parents in its
last step. In between, the keys are on the list of parents found (`pendingOf`); a scan that is cut
off loses the list, and a later scan finds the outputs in the wallet and raises nothing.

* `Scan.scan_keyInv`: a scan that is not cut off leaves no index to be raised.
* `Op.neverReissued_of_run`: nor does any run without such a scan, so no key is handed out twice.
-/

namespace EpicWallet

open Lib WalletBackend

section
variable {pending : Identifier → Prop} {held : List Identifier}

namespace Scan

variable (W : World)

/-- A scan up to the outputs it restores: what it will report, the outputs of the wallet, the ones
that are missing and the ones that are locked. -/
def beforeRestore (mask : Option SecretKey) (startHeight endHeight : Nat) :
    WalletM (ScannedBlockInfo × List OutputData × List OutputResult × List OutputData) := do
  walletLock W
  let k ← keychain W mask
  let tick ← nextTick
  let pmmrRange ← Prog.ofExcept (W.pmmrIndices tick startHeight (some endHeight))
  let (chainOuts, lastIndex) ← collectChainOutputs W k pmmrRange.1 (some pmmrRange.2)
  walletLock W
  let walletOutputs ← Updater.retrieveOutputs W mask true false none none none none none
  let (missing, spent, locked) ← matchOutputs W mask walletOutputs.2.2 chainOuts
  Prog.forEach spent (markUnspent W mask)
  pure (⟨endHeight, "", pmmrRange.1, lastIndex⟩, walletOutputs.2.2.map Prod.fst, missing, locked)

/-- What is left when all outputs are restored: the deletions, and the accounts and indices of the
parents found. -/
def restoreParents (mask : Option SecretKey) (delete : Bool) (outputs locked : List OutputData)
    (foundParents : Rows Identifier Nat) : WalletM Unit := do
  (if delete then do
    Prog.forEach locked (markUnspent W mask)
    Prog.forEach (outputs.filter fun o => o.status = .unconfirmed) (deleteUnconfirmed W mask)
  else pure ())
  walletLock W
  let accounts ← acctPathIter
  let tick ← nextTick
  let _ ← (W.mapOrder tick foundParents.toList).foldlM
    (restorePath W mask (accounts.map (·.path))) accounts.length
  pure ()

/-- The rest of a scan, from the parents found so far on. -/
def restoreFrom (mask : Option SecretKey) (delete : Bool) (outputs locked : List OutputData)
    (missing : List OutputResult) (foundParents : Rows Identifier Nat) : WalletM Unit := do
  let foundParents ← missing.foldlM (fun found m => restoreMissingOutput W mask m found) foundParents
  restoreParents W mask delete outputs locked foundParents

theorem scan_eq (mask : Option SecretKey) (delete : Bool) (startHeight endHeight : Nat) :
    scan W mask delete startHeight endHeight = (do
      let (info, outputs, missing, locked) ← beforeRestore W mask startHeight endHeight
      restoreFrom W mask delete outputs locked missing Rows.empty
      pure info) := by
  unfold scan beforeRestore restoreFrom restoreParents
  simp only [Prog.bind_assoc', pure_bind]

/-- The scan is cut off, by a stop or a failure, after it restored an output and before it raised the
indices. -/
def breaksOff (mask : Option SecretKey) (delete : Bool) (startHeight endHeight : Nat) (w : Wallet) :
    Bool :=
  match beforeRestore W mask startHeight endHeight w with
  | (.ok (_, outputs, m :: missing, locked), w₁) =>
    match restoreMissingOutput W mask m Rows.empty w₁ with
    | (.ok found, w₂) => match (restoreFrom W mask delete outputs locked missing found w₂).1 with
      | .ok _ => false
      | .error _ => true
    | _ => false
  | _ => false

/-! ### The outputs of the chain -/

/-- The keys of the wallet's outputs are at least two levels deep, and a range proof carries the key
it was made for. -/
def DeepKeys : Prop :=
  ∀ k b c p v id s, W.rewind k b c p = .ok (some (v, id, s)) → 2 ≤ id.depth

/-- What is known of an output found on the chain. -/
def Sound (r : OutputResult) : Prop := r.nChild = r.keyId.lastPathIndex ∧ 2 ≤ r.keyId.depth

variable {W}

theorem identifyUtxoOutputs_sound (hW : DeepKeys W) {k : Keychain} :
    ∀ {l : List ChainOutput} {res : List OutputResult} {w w' : Wallet},
      identifyUtxoOutputs W k l w = (.ok res, w') → ∀ r ∈ res, Sound r
  | [], res, w, w', h, r, hr => by
    cases h
    cases hr
  | output :: l, res, w, w', h, r, hr => by
    obtain ⟨infoNew, w₁, hn, h₁⟩ := Prog.bind_ok.1 h
    obtain ⟨hnew, rfl⟩ := Prog.ofExcept_eq_ok.1 hn
    obtain ⟨info, w₂, hi, h₂⟩ := Prog.bind_ok.1 h₁
    have hinfo : ∀ v id s, info = some (v, id, s) → 2 ≤ id.depth := by
      rintro v id s rfl
      rcases infoNew with _ | i
      · exact hW _ _ _ _ _ _ _ (Prog.ofExcept_eq_ok.1 hi).1
      · cases hi
        exact hW _ _ _ _ _ _ _ hnew
    rcases info with _ | ⟨v, id, s⟩
    · exact identifyUtxoOutputs_sound hW h₂ r hr
    · obtain ⟨_, w₃, -, h₃⟩ := Prog.bind_ok.1 h₂
      obtain ⟨rest, w₄, hrest, h₄⟩ := Prog.bind_ok.1 h₃
      cases h₄
      rcases List.mem_cons.1 hr with rfl | hr
      · exact ⟨rfl, hinfo v id s rfl⟩
      · exact identifyUtxoOutputs_sound hW hrest r hr

theorem collectFrom_sound (hW : DeepKeys W) {k : Keychain} {stop : Option Nat} :
    ∀ {rounds start : Nat} {res : List OutputResult × Nat} {w w' : Wallet},
      collectFrom W k stop rounds start w = (.ok res, w') → ∀ r ∈ res.1, Sound r
  | 0, start, res, w, w', h, r, hr => by cases h
  | rounds + 1, start, res, w, w', h, r, hr => by
    obtain ⟨tick, w₁, -, h₁⟩ := Prog.bind_ok.1 h
    obtain ⟨⟨hi, last, outputs⟩, w₂, -, h₂⟩ := Prog.bind_ok.1 h₁
    obtain ⟨result, w₃, hres, h₃⟩ := Prog.bind_ok.1 h₂
    split at h₃
    · cases h₃
      exact identifyUtxoOutputs_sound hW hres r hr
    · obtain ⟨next, w₄, -, h₄⟩ := Prog.bind_ok.1 h₃
      obtain ⟨rest, w₅, hrest, h₅⟩ := Prog.bind_ok.1 h₄
      cases h₅
      rcases List.mem_append.1 hr with hr | hr
      · exact identifyUtxoOutputs_sound hW hres r hr
      · exact collectFrom_sound hW hrest r hr

/-! ### Single outputs -/

variable (W)

theorem cancelTxLogEntry_keyStep (mask : Option SecretKey) (o : OutputData) :
    Prog.Keeps KeyStep (cancelTxLogEntry W mask o) :=
  cancelTxLogEntry_keeps keyStep_frees W (walletLock_keyStep W) (by decide) _ _

theorem markUnspent_triple {mask : Option SecretKey} {o : OutputData} (hid : o.keyId ∈ held)
    (hn : o.nChild = o.keyId.lastPathIndex) :
    Prog.Triple (KeyInv pending held) (markUnspent W mask o) (fun _ => KeyInv pending held)
      (KeyInv pending held) :=
  (keeps_keyInv (cancelTxLogEntry_keyStep W _ _)).bind fun _ =>
    (keeps_keyInv (walletLock_keyStep W)).bind fun _ => (reads_keyInv (batch_reads W mask)).bind fun _ =>
      (save_held (o := { o with status := .unspent }) hn hid).bind fun _ => .pure fun _ h => h

theorem deleteUnconfirmed_keyStep (mask : Option SecretKey) (o : OutputData) :
    Prog.Keeps KeyStep (deleteUnconfirmed W mask o) :=
  (cancelTxLogEntry_keyStep W _ _).bind fun _ => (walletLock_keyStep W).bind fun _ =>
    (batch_reads W mask).keeps.bind fun _ => (delete_keyStep _ _ _).bind fun _ => .pure _

theorem updateMmrIndex_triple {mask : Option SecretKey} {o : OutputData} {mmrIndex : Nat}
    (hid : o.keyId ∈ held) (hn : o.nChild = o.keyId.lastPathIndex) :
    Prog.Triple (KeyInv pending held) (updateMmrIndex W mask o mmrIndex)
      (fun _ => KeyInv pending held) (KeyInv pending held) := by
  refine .ite (fun _ => ?_) fun _ => .pure fun _ h => h
  refine (keeps_keyInv (walletLock_keyStep W)).bind fun _ => (reads_keyInv (batch_reads W mask)).bind
    fun _ => Prog.Triple.bind (R := fun _ => KeyInv pending held) ?_ fun _ =>
      (save_held (o := { o with mmrIndex := some mmrIndex }) hn hid).bind fun _ => .pure fun _ h => h
  exact .ite (fun _ => keeps_keyInv (delete_keyStep _ _ _)) fun _ => .pure fun _ h => h

/-- The outputs a scan sorts out come from the lists it was given. -/
theorem matchOutputs_triple {mask : Option SecretKey} {outs : List (OutputData × Commitment)}
    (hout : ∀ o ∈ outs, o.1.keyId ∈ held ∧ o.1.nChild = o.1.keyId.lastPathIndex) :
    ∀ l : List OutputResult, Prog.Triple (KeyInv pending held) (matchOutputs W mask outs l)
      (fun r w => KeyInv pending held w ∧ (∀ m ∈ r.1, m ∈ l) ∧
        (∀ o ∈ r.2.1, o.keyId ∈ held ∧ o.nChild = o.keyId.lastPathIndex) ∧
        ∀ o ∈ r.2.2, o.keyId ∈ held ∧ o.nChild = o.keyId.lastPathIndex) (KeyInv pending held)
  | [] => .pure fun w h => ⟨h, by simp, by simp, by simp⟩
  | deffo :: l => by
    unfold matchOutputs
    split
    · next s hs =>
      have hin := hout s (List.mem_of_find?_eq_some hs)
      refine (updateMmrIndex_triple W hin.1 hin.2).bind fun _ =>
        (matchOutputs_triple hout l).bind fun r => .pure fun w h => ?_
      obtain ⟨hw, hm, hspent, hlocked⟩ := h
      refine ⟨hw, fun m hmem => List.mem_cons_of_mem _ (hm m hmem), fun o ho => ?_, fun o ho => ?_⟩
      · simp only at ho
        split at ho
        · rcases List.mem_cons.1 ho with rfl | ho
          · exact hin
          · exact hspent o ho
        · exact hspent o ho
      · simp only at ho
        split at ho
        · rcases List.mem_cons.1 ho with rfl | ho
          · exact hin
          · exact hlocked o ho
        · exact hlocked o ho
    · refine (matchOutputs_triple hout l).bind fun r => .pure fun w h => ?_
      obtain ⟨hw, hm, hspent, hlocked⟩ := h
      refine ⟨hw, fun m hmem => ?_, hspent, hlocked⟩
      rcases List.mem_cons.1 hmem with rfl | hmem
      · exact List.mem_cons_self
      · exact List.mem_cons_of_mem _ (hm m hmem)

/-! ### Up to the restoring -/

/-- The outputs are among the keys in hand. -/
def Known (held : List Identifier) (l : List OutputData) : Prop :=
  ∀ o ∈ l, o.keyId ∈ held ∧ o.nChild = o.keyId.lastPathIndex

/-- What is known when the restoring starts: the outputs to save again are in hand, those to restore
are sound. -/
theorem beforeRestore_triple (hW : DeepKeys W) (mask : Option SecretKey) (start stop : Nat) :
    Prog.Triple (KeyInv pending held) (beforeRestore W mask start stop)
      (fun r w => ∃ l, KeyInv pending (l ++ held) w ∧ (∀ m ∈ r.2.2.1, Sound m) ∧
        Known (l ++ held) r.2.2.2) (KeyInv pending held) := by
  refine (keeps_keyInv (walletLock_keyStep W)).bind fun _ => (reads_keyInv (keychain_reads W mask)).bind
    fun k => (keeps_keyInv keyStep_frees.nextTick).bind fun tick =>
      (reads_keyInv (Prog.Keeps.ofExcept _)).bind fun range => ?_
  refine Prog.Triple.bind (R := fun r w => KeyInv pending held w ∧ ∀ m ∈ r.1, Sound m) ?_
    fun chain => .of_and fun hchain => ?_
  · have hk : Prog.Keeps KeyStep (collectChainOutputs W k range.1 (some range.2)) :=
      collectFrom_keeps keyStep_frees W _ _ _ _
    apply Prog.Triple.intro
    · intro w r w' h hrun
      exact ⟨hk.rel hrun _ _ h, collectFrom_sound hW hrun⟩
    · intro w e w' h hrun
      exact hk.rel hrun _ _ h
  refine (keeps_keyInv (walletLock_keyStep W)).bind fun _ =>
    (Updater.retrieveOutputs_triple W mask true none none).bind fun outs => ?_
  have hknown : ∀ {w}, Updater.AllInHand pending held (outs.2.2.map Prod.fst) w → ∀ o ∈ outs.2.2,
      o.1.keyId ∈ (outs.2.2.map Prod.fst).map (·.keyId) ++ held ∧
        o.1.nChild = o.1.keyId.lastPathIndex := fun h o ho =>
    ⟨List.mem_append_left _ (List.mem_map_of_mem (List.mem_map_of_mem ho)),
      h.2 _ (List.mem_map_of_mem ho)⟩
  intro w h
  refine Prog.Triple.mono (E := KeyInv pending ((outs.2.2.map Prod.fst).map (·.keyId) ++ held)) ?_
    (fun _ h => h) (fun _ _ h => h) drop_append w h.1
  refine (matchOutputs_triple W (hknown h) chain.1).bind fun r => .of_and fun hr => ?_
  obtain ⟨hm, hspent, hlocked⟩ := hr
  refine Prog.Triple.bind (Prog.Triple.forEach fun o ho =>
    markUnspent_triple W (hspent o ho).1 (hspent o ho).2) fun _ => .pure fun w h => ?_
  exact ⟨_, h, fun m hmem => hchain m (hm m hmem), hlocked⟩

/-! ### Restoring -/

/-- The keys whose parent's index is still to be raised to what was found. -/
def pendingOf (found : List (Identifier × Nat)) (id : Identifier) : Prop :=
  ∃ n, (id.parentPath, n) ∈ found ∧ id.lastPathIndex ≤ n

/-- The parents found are paths of accounts. -/
def ParentsOk (found : List (Identifier × Nat)) : Prop := ∀ f ∈ found, IsAccountPath f.1

/-- The greatest child index of a parent once an output of it is restored. -/
def foundAfter (output : OutputResult) (found : Rows Identifier Nat) : Rows Identifier Nat :=
  let found := match found.get output.keyId.parentPath with
    | some _ => found
    | none => found.put output.keyId.parentPath 0
  if output.nChild ≥ (found.get output.keyId.parentPath).getD 0 then
    found.put output.keyId.parentPath output.nChild
  else found

theorem foundAfter_get (output : OutputResult) (found : Rows Identifier Nat) (p : Identifier) :
    (foundAfter output found).get p = if p = output.keyId.parentPath then
      some (max output.nChild ((found.get output.keyId.parentPath).getD 0)) else found.get p := by
  unfold foundAfter
  rcases hg : found.get output.keyId.parentPath with _ | n
  · dsimp only
    have hle : (some 0).getD 0 ≤ output.nChild := Nat.zero_le _
    rw [Rows.get_put_self, if_pos hle, Rows.get_put]
    split
    · simp
    · rw [Rows.get_put_ne _ _ ‹_›]
  · dsimp only
    rw [hg]
    by_cases hle : output.nChild ≥ n
    · rw [if_pos (by simpa using hle), Rows.get_put]
      simp [Nat.max_eq_left hle]
    · rw [if_neg (by simpa using hle)]
      split
      · next heq =>
        rw [heq, hg]
        simp [Nat.max_eq_right (Nat.le_of_lt (Nat.lt_of_not_le hle))]
      · rfl

theorem pendingOf_foundAfter {output : OutputResult} {found : Rows Identifier Nat} {id : Identifier}
    (h : pendingOf found.toList id) : pendingOf (foundAfter output found).toList id := by
  obtain ⟨n, hn, hle⟩ := h
  by_cases hp : id.parentPath = output.keyId.parentPath
  · refine ⟨_, Rows.mem_iff.2 ((foundAfter_get _ _ _).trans (if_pos hp)), ?_⟩
    rw [← hp, Rows.mem_iff.1 hn]
    exact Nat.le_trans hle (Nat.le_max_right _ _)
  · exact ⟨n, Rows.mem_iff.2 ((foundAfter_get _ _ _).trans ((if_neg hp).trans (Rows.mem_iff.1 hn))), hle⟩

theorem pendingOf_restored {output : OutputResult} {found : Rows Identifier Nat}
    (h : Sound output) : pendingOf (foundAfter output found).toList output.keyId := by
  refine ⟨_, Rows.mem_iff.2 ((foundAfter_get _ _ _).trans (if_pos rfl)), ?_⟩
  rw [← h.1]
  exact Nat.le_max_left _ _

theorem parentsOk_foundAfter {output : OutputResult} {found : Rows Identifier Nat}
    (h : ParentsOk found.toList) (hs : Sound output) :
    ParentsOk (foundAfter output found).toList := by
  rintro ⟨p, n⟩ hf
  have hg := Rows.mem_iff.1 hf
  rw [foundAfter_get] at hg
  split at hg
  · next heq =>
    rw [heq]
    exact isAccountPath_parentPath hs.2
  · exact h (p, n) (Rows.mem_iff.2 hg)

/-- A `save` that fails leaves the outputs as they were. -/
theorem save_error {o : OutputData} {e : Fault Error} {w w' : Wallet}
    (h : Batch.save o w = (.error e, w')) : OnlyHistory w w' := by
  rcases Prog.bind_error.1 h with he | ⟨⟨⟩, w₁, hp, hput⟩
  · exact (Batch.savePrevious_onlyHistory o).rel he
  · have hw₁ := (Batch.savePrevious_onlyHistory o).rel hp
    unfold put at hput
    split at hput
    · cases hput
    · cases hput
      exact hw₁

theorem restoreMissingOutput_eq (mask : Option SecretKey) (output : OutputResult)
    (found : Rows Identifier Nat) :
    restoreMissingOutput W mask output found = (do
      walletLock W
      let commit ← calcCommitForCache W mask output.value output.keyId
      let _ ← batch W mask
      let logId ← Batch.nextTxLogId output.keyId.parentPath
      let created ← nextTick
      let confirmed ← nextTick
      Batch.saveTxLogEntry (restoredEntry output output.keyId.parentPath logId (W.now created)
        (W.now confirmed)) output.keyId.parentPath
      let _ ← Prog.attempt (Batch.save
        (restoredOutput output output.keyId.parentPath commit logId))
      Batch.commit
      pure (foundAfter output found)) := by
  unfold restoreMissingOutput foundAfter
  rcases hg : found.get output.keyId.parentPath with _ | n
  · simp only [hg, Rows.get_put_self, Option.getD_some]
    rfl
  · simp only [hg, Option.getD_some]
    rfl

/-- A restored output is stored with its parent on the list of those to raise; a failure comes
before it is stored. -/
theorem restoreMissingOutput_triple {mask : Option SecretKey} {output : OutputResult}
    {found : Rows Identifier Nat} (hs : Sound output) :
    Prog.Triple (KeyInv (pendingOf found.toList) held) (restoreMissingOutput W mask output found)
      (fun found' w => KeyInv (pendingOf found'.toList) held w ∧ found' = foundAfter output found)
      (KeyInv (pendingOf found.toList) held) := by
  rw [restoreMissingOutput_eq]
  refine (keeps_keyInv (walletLock_keyStep W)).bind fun _ =>
    (reads_keyInv (calcCommitForCache_reads W _ _ _)).bind fun commit =>
      (reads_keyInv (batch_reads W mask)).bind fun _ =>
        (keeps_keyInv (Batch.nextTxLogId_keeps keyStep_frees (by decide) _)).bind fun logId =>
          (keeps_keyInv keyStep_frees.nextTick).bind fun created =>
            (keeps_keyInv keyStep_frees.nextTick).bind fun confirmed => ?_
  refine Prog.Triple.bind (R := fun _ => KeyInv (pendingOf found.toList) held)
    (keeps_keyInv (Batch.saveTxLogEntry_keeps keyStep_frees (by decide) _ _)) fun _ => ?_
  refine Prog.Triple.bind (R := fun _ => KeyInv (pendingOf (foundAfter output found).toList) held)
    (Prog.Triple.attempt (Q := fun _ => KeyInv (pendingOf (foundAfter output found).toList) held) ?_
      (fun _ _ h => h) fun _ _ h => h.relax fun _ => pendingOf_foundAfter) fun _ => ?_
  · apply Prog.Triple.intro
    · intro w _ w' h hrun
      have h' : KeyInv (pendingOf (foundAfter output found).toList) held w :=
        h.relax fun _ => pendingOf_foundAfter
      have hheld : KeyInv (pendingOf (foundAfter output found).toList) (output.keyId :: held) w := by
        refine { h' with held := fun id hid => ?_ }
        rcases List.mem_cons.1 hid with rfl | hid
        · exact .inr (pendingOf_restored hs)
        · exact h'.held id hid
      have hsaved := (save_held (o := restoredOutput output output.keyId.parentPath commit logId) hs.1
        List.mem_cons_self).ok hheld hrun
      exact hsaved.drop fun _ hm => List.mem_cons_of_mem _ hm
    · intro w e w' h hrun
      have hw := save_error hrun
      refine h.same (fun k hk => hw.get k ?_) (by rw [hw.eq])
      by_contra hh
      exact not_keyRows_of_history (by simpa using hh) hk
  exact .pure fun w h => ⟨h, rfl⟩

/-! ### Raising the indices -/

/-- A parent whose index was raised is off the list. -/
theorem keyInv_of_raised {f : Identifier × Nat} {l : List (Identifier × Nat)} {w : Wallet}
    (h : KeyInv (pendingOf (f :: l)) held w) (hf : f.2 < childIndex w.db f.1) :
    KeyInv (pendingOf l) held w := by
  have hv : ∀ id, Vouched (pendingOf (f :: l)) w.db id → Vouched (pendingOf l) w.db id := by
    rintro id (hi | ⟨n, hn, hle⟩)
    · exact .inl hi
    · rcases List.mem_cons.1 hn with rfl | hn
      · exact .inl (Nat.lt_of_le_of_lt hle hf)
      · exact .inr ⟨n, hn, hle⟩
  exact ⟨fun o ho => ⟨(h.outputs o ho).1, hv _ (h.outputs o ho).2⟩,
    fun u p c hc out hm => hv _ (h.contexts u p c hc out hm), h.accounts, h.active,
    fun id hid => hv _ (h.held id hid)⟩

theorem walletLock_childIndex {p : Identifier} {w w' : Wallet} {r : Except (Fault Error) Unit}
    (h : walletLock W w = (r, w')) : childIndex w'.db p = childIndex w.db p :=
  childIndex_congr (((walletLock_touches W (S := [])).rel h).get (by simp))

/-- Raising the index of a parent found. -/
theorem raiseIndex_triple {mask : Option SecretKey} {f : Identifier × Nat}
    {l : List (Identifier × Nat)} {current : Nat} :
    Prog.Triple (fun w => KeyInv (pendingOf (f :: l)) held w ∧ childIndex w.db f.1 = current)
      (if f.2 ≥ current then do
        walletLock W
        let _ ← batch W mask
        let next ← addU32 f.2 1
        Batch.saveChildIndex f.1 next
        Batch.commit
      else pure ()) (fun _ => KeyInv (pendingOf l) held) (KeyInv (pendingOf (f :: l)) held) := by
  refine .ite (fun hle => ?_) fun hlt => .pure fun w h => ?_
  · have hlock : Prog.Triple (fun w => KeyInv (pendingOf (f :: l)) held w ∧
        childIndex w.db f.1 = current) (walletLock W) (fun _ w => KeyInv (pendingOf (f :: l)) held w ∧
          childIndex w.db f.1 = current) (KeyInv (pendingOf (f :: l)) held) := by
      apply Prog.Triple.intro
      · intro w _ w' h hrun
        exact ⟨(walletLock_keyStep W).rel hrun _ _ h.1, (walletLock_childIndex W hrun).trans h.2⟩
      · intro w e w' h hrun
        exact (walletLock_keyStep W).rel hrun _ _ h.1
    refine hlock.bind fun _ => ((batch_reads W mask).triple (fun _ _ h _ => h) fun _ h => h.1).bind
      fun _ => Prog.Triple.bind (R := fun next w => (KeyInv (pendingOf (f :: l)) held w ∧
        childIndex w.db f.1 = current) ∧ next = f.2 + 1 ∧ next < u32Size)
        ((addU32_reads _ _).triple (fun w next h hrun => ?_) fun _ h => h.1) fun next => ?_
    · obtain ⟨rfl, hsize, -⟩ := addU32_ok.1 hrun
      exact ⟨h, rfl, hsize⟩
    refine .of_and fun ⟨hnext, hsize⟩ => ?_
    subst hnext
    refine Prog.Triple.bind (R := fun _ => KeyInv (pendingOf l) held) ?_
      fun _ => .pure fun _ h => h
    intro w h
    obtain ⟨hinv, hcur⟩ := h
    have hstep := saveChildIndex_keyStep (p := f.1) (w := w) (by omega) hsize _ _ hinv
    refine keyInv_of_raised hstep ?_
    show f.2 < childIndex (w.db.put (.deriv f.1) (.numeric (f.2 + 1))) f.1
    rw [childIndex_put _ _ _ hsize, if_pos rfl]
    exact Nat.lt_succ_self _
  · exact keyInv_of_raised h.1 (by omega)

theorem restorePath_triple {mask : Option SecretKey} {accounts : List Identifier} {acct : Nat}
    {f : Identifier × Nat} {l : List (Identifier × Nat)} (hf : IsAccountPath f.1) :
    Prog.Triple (KeyInv (pendingOf (f :: l)) held) (restorePath W mask accounts acct f)
      (fun _ => KeyInv (pendingOf l) held) (KeyInv (pendingOf (f :: l)) held) := by
  refine Prog.Triple.bind (R := fun _ => KeyInv (pendingOf (f :: l)) held)
    (.ite (fun _ => .pure fun _ h => h) fun _ => ?_) fun acct => ?_
  · exact (keeps_keyInv (walletLock_keyStep W)).bind fun _ =>
      (Keys.setAcctPath_triple W hf).bind fun _ => .pure fun _ h => h
  refine (keeps_keyInv (walletLock_keyStep W)).bind fun _ => Prog.Triple.bind
    (R := fun n w => KeyInv (pendingOf (f :: l)) held w ∧ childIndex w.db f.1 = n)
    ((currentChildIndex_reads _).triple (fun w n h hrun => ?_) fun _ h => h) fun current =>
      (raiseIndex_triple W).bind fun _ => .pure fun _ h => h
  cases hrun
  exact ⟨h, rfl⟩

/-- The last step of a scan takes every parent off the list. -/
theorem restorePaths_triple {mask : Option SecretKey} {accounts : List Identifier}
    {found l : List (Identifier × Nat)} (hok : ParentsOk l) (hl : ∀ f ∈ l, f ∈ found) (acct : Nat) :
    Prog.Triple (KeyInv (pendingOf l) held) (l.foldlM (restorePath W mask accounts) acct)
      (fun _ => KeyInv (pendingOf []) held) (KeyInv (pendingOf found) held) := by
  induction l generalizing acct with
  | nil => exact .pure fun _ h => h
  | cons f l ih =>
    rw [List.foldlM_cons]
    have hcut : ∀ w, KeyInv (pendingOf (f :: l)) held w → KeyInv (pendingOf found) held w :=
      fun w h => h.relax fun id ⟨n, hn, hle⟩ => ⟨n, hl _ hn, hle⟩
    refine ((restorePath_triple W (hok f List.mem_cons_self)).mono (fun _ h => h) (fun _ _ h => h)
      hcut).bind fun acct => ih ?_ (fun f hf => hl f (List.mem_cons_of_mem _ hf)) acct
    exact fun f hf => hok f (List.mem_cons_of_mem _ hf)

theorem pendingOf_perm {l l' : List (Identifier × Nat)} (h : l.Perm l') (id : Identifier) :
    pendingOf l id → pendingOf l' id := fun ⟨n, hn, hle⟩ => ⟨n, h.mem_iff.1 hn, hle⟩

theorem restoreParents_triple {mask : Option SecretKey} {delete : Bool}
    {outputs locked : List OutputData} {found : Rows Identifier Nat} (hok : ParentsOk found.toList)
    (hlocked : Known held locked) :
    Prog.Triple (KeyInv (pendingOf found.toList) held)
      (restoreParents W mask delete outputs locked found)
      (fun _ => KeyInv (pendingOf []) held) (KeyInv (pendingOf found.toList) held) := by
  refine Prog.Triple.bind (R := fun _ => KeyInv (pendingOf found.toList) held)
    (.ite (fun _ => ?_) fun _ => .pure fun _ h => h) fun _ => ?_
  · refine (Prog.Triple.forEach fun o ho => markUnspent_triple W (hlocked o ho).1
      (hlocked o ho).2).bind fun _ => keeps_keyInv (Prog.Keeps.forEach _ fun o _ =>
        deleteUnconfirmed_keyStep W mask o)
  refine (keeps_keyInv (walletLock_keyStep W)).bind fun _ => (reads_keyInv acctPathIter_reads).bind
    fun accounts => (keeps_keyInv keyStep_frees.nextTick).bind fun tick => ?_
  have hperm := W.mapOrder_perm tick found.toList
  have hfold : Prog.Triple (KeyInv (pendingOf (W.mapOrder tick found.toList)) held)
      ((W.mapOrder tick found.toList).foldlM (restorePath W mask (accounts.map (·.path)))
        accounts.length) (fun _ => KeyInv (pendingOf []) held)
      (KeyInv (pendingOf found.toList) held) :=
    restorePaths_triple W (fun f hf => hok f (hperm.mem_iff.1 hf))
      (fun f hf => hperm.mem_iff.1 hf) accounts.length
  exact (hfold.mono (fun w h => h.relax (pendingOf_perm hperm.symm)) (fun _ _ h => h)
    fun _ h => h).bind fun _ => .pure fun _ h => h

/-! ### Whole scans -/

theorem restoreFrom_triple {mask : Option SecretKey} {delete : Bool}
    {outputs locked : List OutputData} (hlocked : Known held locked) :
    ∀ {missing : List OutputResult} {found : Rows Identifier Nat}, (∀ m ∈ missing, Sound m) →
      ParentsOk found.toList →
      Prog.Triple (KeyInv (pendingOf found.toList) held)
        (restoreFrom W mask delete outputs locked missing found)
        (fun _ => KeyInv (pendingOf []) held) fun _ => True
  | [], found, _, hok => (restoreParents_triple W hok hlocked).mono (fun _ h => h)
      (fun _ _ h => h) fun _ _ => trivial
  | m :: missing, found, hs, hok => by
    have hm := hs m List.mem_cons_self
    unfold restoreFrom
    rw [List.foldlM_cons, Prog.bind_assoc']
    refine ((restoreMissingOutput_triple W hm).mono (fun _ h => h) (fun _ _ h => h)
      fun _ _ => trivial).bind fun found' => .of_and fun hfound => ?_
    subst hfound
    exact restoreFrom_triple hlocked (fun m hmem => hs m (List.mem_cons_of_mem _ hmem))
      (parentsOk_foundAfter hok hm)

theorem not_pendingOf_nil (id : Identifier) : ¬pendingOf [] id := fun ⟨_, hn, _⟩ => by cases hn

/-- A scan that is not cut off while it restores leaves no index to be raised. -/
theorem scan_keyInv (hW : DeepKeys W) {mask : Option SecretKey} {delete : Bool} {start stop : Nat}
    {w : Wallet} (hb : breaksOff W mask delete start stop w = false)
    (h : KeyInv (pendingOf []) held w) :
    KeyInv (pendingOf []) held (scan W mask delete start stop w).2 := by
  rw [scan_eq]
  have hbefore := @beforeRestore_triple (pendingOf []) held W hW mask start stop
  refine Prog.state_bind (hbefore.state (fun _ w ⟨_, hw, _⟩ => drop_append w hw) (fun _ h => h) h)
    fun r w₁ hr _ => ?_
  obtain ⟨info, outputs, missing, locked⟩ := r
  obtain ⟨l, h₁, hs, hlocked⟩ := hbefore.ok h hr
  suffices hfrom : KeyInv (pendingOf []) (l ++ held)
      (restoreFrom W mask delete outputs locked missing Rows.empty w₁).2 from
    Prog.state_bind (drop_append _ hfrom) fun _ _ _ h => h
  rcases missing with _ | ⟨m, missing⟩
  · have hempty := @restoreParents_triple (l ++ held) W mask delete outputs locked Rows.empty
      (fun f hf => by cases hf) hlocked
    exact hempty.state (fun _ _ h => h) (fun _ h => h) h₁
  have hm := hs m List.mem_cons_self
  have hsplit : restoreFrom W mask delete outputs locked (m :: missing) Rows.empty =
      restoreMissingOutput W mask m Rows.empty >>= fun found =>
        restoreFrom W mask delete outputs locked missing found := by
    unfold restoreFrom
    rw [List.foldlM_cons, Prog.bind_assoc']
  rw [hsplit]
  have hfirst := @restoreMissingOutput_triple (l ++ held) W mask m Rows.empty hm
  unfold breaksOff at hb
  rw [hr] at hb
  rcases hmiss : restoreMissingOutput W mask m Rows.empty w₁ with ⟨e | found, w₂⟩
  · rw [Prog.bind_of_error hmiss]
    exact hfirst.error h₁ hmiss
  rw [Prog.bind_of_ok hmiss]
  obtain ⟨h₂, rfl⟩ := hfirst.ok h₁ hmiss
  simp only [hmiss] at hb
  rcases hf : restoreFrom W mask delete outputs locked missing (foundAfter m Rows.empty) w₂ with
    ⟨e | u, w₃⟩
  · rw [hf] at hb
    cases hb
  · exact (restoreFrom_triple W hlocked (fun m hmem => hs m (List.mem_cons_of_mem _ hmem))
      (parentsOk_foundAfter (by intro f hf; cases hf) hm)).ok h₂ hf

end Scan

end

namespace Owner

variable (W : World)

theorem beforeScan_keyStep (mask : Option SecretKey) : Prog.Keeps KeyStep (beforeScan W mask) := by
  have hlock := walletLock_keyStep W
  refine hlock.bind fun _ => parentKeyId_reads.keeps.bind fun _ => hlock.bind fun _ =>
    (updateOutputs_keyStep W mask).bind fun r => .ite (fun _ => .pure _) fun _ => ?_
  refine hlock.bind fun _ => (Updater.retrieveTxs_reads _ _ _ _ _ _ _).keeps.bind fun _ =>
    (updateTxsViaKernel_keeps keyStep_frees W hlock (by decide) mask _).bind fun r =>
      .ite (fun _ => .pure _) fun _ =>
        (Updater.getChainTip_keeps keyStep_frees W).attempt.bind fun r => ?_
  split
  · exact .pure _
  · exact .pure _

/-- The scan of a refresh is cut off while it restores. -/
def updateBreaksOff (mask : Option SecretKey) (w : Wallet) : Bool :=
  match beforeScan W mask w with
  | (.ok (some (_, tip)), w₁) => match (walletLock W >>= fun _ => scanStart tip) w₁ with
    | (.ok last, w₂) => Scan.breaksOff W mask false (last.height - 100) tip.1 w₂
    | _ => false
  | _ => false

/-- The scan of the owner is cut off while it restores. -/
def scanBreaksOff (mask : Option SecretKey) (start : Option Nat) (delete : Bool) (w : Wallet) :
    Bool :=
  match beforeOwnerScan W mask w with
  | (.ok tip, w₁) => Scan.breaksOff W mask delete (start.getD 1) tip.1 w₁
  | _ => false

/-- The invariant between calls: no index is left to be raised. -/
def Settled (w : Wallet) : Prop := KeyInv (Scan.pendingOf []) [] w

variable {W}

theorem keeps_settled {α : Type} {p : WalletM α} (h : Prog.Keeps KeyStep p) (w : Wallet)
    (hw : Settled w) : Settled (p w).2 := h w _ _ hw

theorem scanStep_settled (hW : Scan.DeepKeys W) {mask : Option SecretKey} {tip : Nat × String}
    {w : Wallet} (h : Settled w)
    (hb : ∀ last w₁, (walletLock W >>= fun _ => scanStart tip) w = (.ok last, w₁) →
      Scan.breaksOff W mask false (last.height - 100) tip.1 w₁ = false) :
    Settled (scanStep W mask tip w).2 := by
  have hstart : Prog.Keeps KeyStep (walletLock W >>= fun _ => scanStart tip) :=
    (walletLock_keyStep W).bind fun _ => (scanStart_reads _).keeps
  unfold scanStep
  rw [← Prog.bind_assoc']
  refine Prog.state_bind (keeps_settled hstart w h) fun last w₁ hs h₁ => ?_
  refine Prog.state_bind (Scan.scan_keyInv W hW (hb last w₁ hs) h₁) fun info w₂ _ h₂ => ?_
  refine keeps_settled ?_ w₂ h₂
  exact (walletLock_keyStep W).bind fun _ => (batch_reads W mask).keeps.bind fun _ =>
    Prog.Keeps.bind (keyStep_frees.put (by decide) trivial) fun _ =>
      Prog.Keeps.bind (keyStep_frees.put (by decide) trivial) fun _ => .pure _

theorem updateWalletState_settled (hW : Scan.DeepKeys W) {mask : Option SecretKey} {w : Wallet}
    (h : Settled w) (hb : updateBreaksOff W mask w = false) :
    Settled (updateWalletState W mask w).2 := by
  rw [updateWalletState_eq]
  unfold updateBreaksOff at hb
  refine Prog.state_bind (keeps_settled (beforeScan_keyStep W mask) w h) fun r w₁ hr h₁ => ?_
  rcases r with _ | ⟨txs, tip⟩
  · exact h₁
  rw [hr] at hb
  refine Prog.state_bind (scanStep_settled hW h₁ fun last w₂ hs => ?_) fun _ w₂ _ h₂ => ?_
  · simp only [hs] at hb
    exact hb
  · exact keeps_settled ((Prog.Keeps.forEach _ fun tx _ => cancelExpired_keyStep W _ _ tx).bind
      fun _ => .pure _) w₂ h₂

theorem cancelTx_settled (hW : Scan.DeepKeys W) {mask : Option SecretKey} {txId : Option Nat}
    {txSlateId : Option Uuid} {w : Wallet} (h : Settled w) (hb : updateBreaksOff W mask w = false) :
    Settled (cancelTx W mask txId txSlateId w).2 := by
  refine Prog.state_bind (updateWalletState_settled hW h hb) fun updated w₁ _ h₁ => ?_
  refine keeps_settled (.ite (fun _ => .throw _) fun _ => ?_) w₁ h₁
  exact (walletLock_keyStep W).bind fun _ => parentKeyId_reads.keeps.bind fun _ =>
    Tx.cancelTx_keyStep W _ _ _ _

theorem scan_settled (hW : Scan.DeepKeys W) {mask : Option SecretKey} {start : Option Nat}
    {delete : Bool} {w : Wallet} (h : Settled w) (hb : scanBreaksOff W mask start delete w = false) :
    Settled (scan W mask start delete w).2 := by
  have hbefore : Prog.Keeps KeyStep (beforeOwnerScan W mask) :=
    (updateOutputs_keyStep W mask).bind fun _ => (walletLock_keyStep W).bind fun _ =>
      Updater.getChainTip_keeps keyStep_frees W
  rw [scan_eq]
  unfold scanBreaksOff at hb
  refine Prog.state_bind (keeps_settled hbefore w h) fun tip w₁ hr h₁ => ?_
  rw [hr] at hb
  refine Prog.state_bind (Scan.scan_keyInv W hW hb h₁) fun info w₂ _ h₂ => ?_
  refine keeps_settled ?_ w₂ h₂
  exact (walletLock_keyStep W).bind fun _ => (batch_reads W mask).keeps.bind fun _ =>
    Prog.Keeps.bind (keyStep_frees.put (by decide) trivial) fun _ => .pure _

end Owner

/-! ## Runs -/

namespace Op

variable (W : World)

/-- A scan of the operation is cut off, by a stop or an error, after it restored an output and before
it raised the child indices. -/
def breaksOff : Op → Wallet → Bool
  | updateWalletState mask, w => Owner.updateBreaksOff W mask w
  | cancelTx mask _ _, w => Owner.updateBreaksOff W mask w
  | scan mask start delete, w => Owner.scanBreaksOff W mask start delete w
  | _, _ => false

variable {W}

open Owner in
/-- An operation keeps the invariant, unless it is a scan that is cut off while it restores. -/
theorem settled_step (hW : Scan.DeepKeys W) (op : Op) (w : Wallet) (hb : op.breaksOff W w = false)
    (h : Settled w) : Settled (op.run W w) := by
  have hvoid : ∀ {α : Type} {p : WalletM α}, Prog.Keeps KeyStep p →
      Settled ((p >>= fun _ => pure ()) w).2 := fun hp =>
    keeps_settled (hp.bind fun _ => .pure _) w h
  cases op with
  | createAccountPath mask label => exact hvoid (Keys.newAcctPath_keyStep W mask label)
  | setActiveAccount label => exact keeps_settled (setParentKeyIdByName_keyStep label) w h
  | initSendTx mask args => exact hvoid (initSendTx_keyStep W mask args)
  | issueInvoiceTx mask args => exact hvoid (issueInvoiceTx_keyStep W mask args)
  | processInvoiceTx mask slate args => exact hvoid (processInvoiceTx_keyStep W mask slate args)
  | txLockOutputs mask slate participantId addrTo =>
    exact keeps_settled (txLockOutputs_keyStep W mask slate participantId addrTo) w h
  | finalizeTx mask slate => exact hvoid (finalizeTx_keyStep W mask slate)
  | receiveTx mask slate dest message addrFrom =>
    exact hvoid (Foreign.receiveTx_keyStep W mask slate dest message addrFrom)
  | finalizeInvoiceTx mask slate => exact hvoid (Foreign.finalizeInvoiceTx_keyStep W mask slate)
  | cancelTx mask txId txSlateId => exact cancelTx_settled hW h hb
  | updateMempoolStatus mask slate =>
    exact keeps_settled (Tx.updateMempoolStatus_keeps keyStep_frees W (by decide) mask slate) w h
  | waitForTxInMempool mask txSlateId attempts =>
    exact hvoid (waitForTxInMempool_keyStep W mask txSlateId attempts)
  | updateWalletState mask =>
    exact Prog.state_bind (updateWalletState_settled hW h hb) fun _ _ _ h => h
  | scan mask start delete => exact scan_settled hW h hb
  | buildCoinbase mask fees => exact hvoid (Updater.receiveReward_keyStep W mask fees _ _)
  | buildFoundation mask fees => exact hvoid (Updater.receiveReward_keyStep W mask fees _ _)

/-- A new wallet, as `create_wallet` leaves it. -/
def created (k : Keychain) (checksum : Nat) (status : WalletInitStatus) : Wallet :=
  { opened k checksum with
    db := (opened k checksum).db.put .walletInitStatus (.walletInitStatus status) }

theorem created_get {k : Keychain} {checksum : Nat} {status : WalletInitStatus} {key : Key}
    {v : Serializable} (h : (created k checksum status).db.get key = some v) :
    v = .walletInitStatus status ∨ v = .acctPathMapping ⟨"default", defaultPath⟩ := by
  unfold created opened at h
  rw [Rows.get_put, Rows.get_put] at h
  split at h
  · exact .inl (Option.some.inj h).symm
  · split at h
    · exact .inr (Option.some.inj h).symm
    · cases h

theorem settled_created (k : Keychain) (checksum : Nat) (status : WalletInitStatus) :
    Owner.Settled (created k checksum status) where
  outputs o ho := by
    obtain ⟨id, m, hg⟩ := mem_outputsOf.1 ho
    rcases created_get hg with h | h <;> cases h
  contexts u p c hc := by
    rcases created_get hc with h | h <;> cases h
  accounts a ha := by
    obtain ⟨label, hg⟩ := mem_accountsOf.1 ha
    rcases created_get hg with h | h
    · cases h
    · cases h
      exact ⟨by decide, rfl⟩
  active := ⟨(by decide : 1 ≤ defaultPath.depth), rfl⟩
  held id hid := by cases hid

variable (W)

/-- Every key of a stored output lies below the child index of its parent, and the next key handed
out is none of them. -/
structure NeverReissued (w : Wallet) : Prop where
  below : ∀ o ∈ outputsOf w.db, o.nChild < childIndex w.db o.keyId.parentPath
  fresh : ∀ mask id w', nextChild W mask w = (.ok id, w') → ∀ o ∈ outputsOf w.db, o.keyId ≠ id

variable {W}

theorem neverReissued_of_settled {w : Wallet} (h : Owner.Settled w) : NeverReissued W w := by
  have hissued : ∀ o ∈ outputsOf w.db, o.nChild = o.keyId.lastPathIndex ∧ Issued w.db o.keyId :=
    fun o ho => ⟨(h.outputs o ho).1, (h.outputs o ho).2.resolve_right (Scan.not_pendingOf_nil _)⟩
  refine ⟨fun o ho => ?_, ?_⟩
  · rw [(hissued o ho).1]
    exact (hissued o ho).2
  · rintro mask id w' hrun o ho rfl
    obtain ⟨n, hn, -, hchild, -⟩ := nextChild_ok W hrun
    obtain ⟨hlast, hparent⟩ := child_path h.active hchild
    have hlt := (hissued o ho).2
    unfold Issued childIndex at hlt
    rw [hlast, hparent, ← hn] at hlt
    exact Nat.lt_irrefl _ hlt

/-- The first key of the default account. -/
def firstKey : Identifier := .derive 3 0 0 0 0

/-- The small world with one output of the wallet on the chain; the wallet may be stopped once. -/
def restoringWorld (stop : Option Nat) : World :=
  { World.small with
    outputsByPmmrIndex := fun _ _ _ _ => .ok (1, 1, [{
      commit := World.smallCommit 5 firstKey
      proof := ⟨0⟩
      isCoinbase := false
      height := 1
      mmrIndex := 1 }])
    rewind := fun _ _ _ _ => .ok (some (5, firstKey, .regular))
    stops := fun t => some t == stop }

theorem deepKeys_restoringWorld (stop : Option Nat) : Scan.DeepKeys (restoringWorld stop) := by
  intro k b c p v id s h
  cases h
  decide

end Op

end EpicWallet
