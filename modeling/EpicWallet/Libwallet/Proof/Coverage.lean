import EpicWallet.Libwallet.Proof.Touches

/-!
# Which blocks were scanned

A run of refreshes and owner scans, with the ranges of heights that completed scans covered. The
saved height is meant to stand for "all below was scanned, but for the last 100 blocks".

* `updateWalletState_outcome`, `scan_outcome`: what the two calls leave in the rows they share.
* `covered_of_run`: no gap, as long as no owner scan starts above a height that was never scanned.
* `scan_covered_iff`: an owner scan that starts higher leaves a gap.
-/

namespace EpicWallet

open Lib WalletBackend

/-! ## Covered heights -/

/-- The height `b` lies in one of the ranges. -/
def Covered (ranges : List (Nat × Nat)) (b : Nat) : Prop := ∃ r ∈ ranges, r.1 ≤ b ∧ b ≤ r.2

theorem Covered.append_left {l l' : List (Nat × Nat)} {b : Nat} (h : Covered l b) :
    Covered (l ++ l') b := by
  obtain ⟨r, hr, hb⟩ := h
  exact ⟨r, List.mem_append_left _ hr, hb⟩

theorem Covered.append_right {l l' : List (Nat × Nat)} {b : Nat} (h : Covered l' b) :
    Covered (l ++ l') b := by
  obtain ⟨r, hr, hb⟩ := h
  exact ⟨r, List.mem_append_right _ hr, hb⟩

/-- The blocks before the saved height that the next refresh scans again. -/
def reorgMargin : Nat := 100

/-- Every height from `base` on is covered, up to the margin below `h`. -/
def CoveredUpTo (ranges : List (Nat × Nat)) (base h : Nat) : Prop :=
  ∀ b, base ≤ b → b + reorgMargin ≤ h → Covered ranges b

/-! ## The shared rows -/

/-- The height of the last scanned block, 0 if none was saved. -/
def lastHeight (d : Rows Key Serializable) : Nat :=
  match d.get .lastScannedBlock with
  | some (.scannedBlockInfo s) => s.height
  | _ => 0

def statusOf (d : Rows Key Serializable) : WalletInitStatus :=
  match d.get .walletInitStatus with
  | some (.walletInitStatus s) => s
  | _ => .initComplete

/-- The two rows are as before. -/
structure SameScan (w w' : Wallet) : Prop where
  height : lastHeight w'.db = lastHeight w.db
  status : statusOf w'.db = statusOf w.db

theorem sameScan_of_touches {S : List RowKind} {w w' : Wallet} (h : Touches S w w')
    (hs : RowKind.scanned ∉ S) (ht : RowKind.status ∉ S) : SameScan w w' := by
  constructor
  · unfold lastHeight
    rw [h.get (k := .lastScannedBlock) hs]
  · unfold statusOf
    rw [h.get (k := .walletInitStatus) ht]

theorem SameScan.trans {w₁ w₂ w₃ : Wallet} (h : SameScan w₁ w₂) (h' : SameScan w₂ w₃) :
    SameScan w₁ w₃ := ⟨h'.height.trans h.height, h'.status.trans h.status⟩

instance : Std.Refl SameScan := ⟨fun _ => ⟨rfl, rfl⟩⟩

instance : IsTrans Wallet SameScan := ⟨fun _ _ _ h h' => h.trans h'⟩

/-- The height a refresh starts from, before the margin. -/
def startHeight (d : Rows Key Serializable) (tip : Nat) : Nat :=
  match statusOf d with
  | .initNeedsScanning => 0
  | .initNoScanning => tip
  | .initComplete => lastHeight d

namespace Owner

variable (W : World)

theorem initStatus_apply (w : Wallet) : initStatus w = (.ok (statusOf w.db), w) := by
  unfold initStatus statusOf
  rw [Prog.bind_of_ok (rows_apply w)]
  rcases w.db.get .walletInitStatus with _ | v
  · rfl
  · cases v <;> rfl

theorem lastScannedBlock_apply (w : Wallet) :
    ∃ s, lastScannedBlock w = (.ok s, w) ∧ s.height = lastHeight w.db := by
  unfold lastScannedBlock lastHeight
  rw [Prog.bind_of_ok (rows_apply w)]
  rcases w.db.get .lastScannedBlock with _ | v
  · exact ⟨_, rfl, rfl⟩
  · cases v <;> exact ⟨_, rfl, rfl⟩

theorem scanStart_apply (tip : Nat × String) (w : Wallet) :
    ∃ last, scanStart tip w = (.ok last, w) ∧ last.height = startHeight w.db tip.1 := by
  unfold scanStart startHeight
  rw [Prog.bind_of_ok (initStatus_apply w)]
  cases statusOf w.db with
  | initNeedsScanning => exact ⟨_, rfl, rfl⟩
  | initNoScanning => exact ⟨_, rfl, rfl⟩
  | initComplete => exact lastScannedBlock_apply w

/-! ## The scans of a call -/

/-- A refresh up to its scan: the tip, if the node answered so far. -/
def beforeScan (mask : Option SecretKey) : WalletM (Option (List TxLogEntry × Nat × String)) := do
  walletLock W
  let parent ← parentKeyId
  walletLock W
  let result ← updateOutputs W mask
  if ¬result then pure none
  else do
    walletLock W
    let txs ← Updater.retrieveTxs none none (some parent) true none none none
    let result ← updateTxsViaKernel W mask txs.2.2
    if ¬result then pure none
    else do
      match ← Prog.attempt (Updater.getChainTip W) with
      | .error _ => pure none
      | .ok tip => pure (some (txs.2.2, tip))

/-- The rest of a refresh. -/
def fromScan (mask : Option SecretKey) : Option (List TxLogEntry × Nat × String) → WalletM Bool
  | none => pure false
  | some (txs, tip) => do
    scanStep W mask tip
    Prog.forEach txs (cancelExpired W mask tip.1)
    pure true

theorem updateWalletState_eq (mask : Option SecretKey) :
    updateWalletState W mask = beforeScan W mask >>= fromScan W mask := by
  unfold updateWalletState beforeScan
  simp only [Prog.bind_assoc']
  refine congrArg _ (funext fun _ => congrArg _ (funext fun parent => congrArg _ (funext fun _ =>
    congrArg _ (funext fun result => ?_))))
  cases result with
  | false => rfl
  | true =>
    simp only [not_true_eq_false, if_false, Prog.bind_assoc']
    refine congrArg _ (funext fun _ => congrArg _ (funext fun txs => congrArg _ (funext fun result => ?_)))
    cases result with
    | false => rfl
    | true =>
      simp only [not_true_eq_false, if_false, Prog.bind_assoc']
      unfold updateFromTip
      refine congrArg _ (funext fun r => ?_)
      cases r with
      | error e => rfl
      | ok tip => rfl

theorem beforeScan_same (mask : Option SecretKey) : Prog.Keeps SameScan (beforeScan W mask) := by
  have hlock : Prog.Keeps (Touches Tx.sendRows) (walletLock W) := walletLock_touches W
  have h : Prog.Keeps (Touches Tx.sendRows) (beforeScan W mask) := by
    refine hlock.bind fun _ => parentKeyId_reads.keeps.bind fun _ => hlock.bind fun _ =>
      (updateOutputs_keeps (touches_frees _) W hlock (fun _ h => h) mask).bind fun r =>
        .ite (fun _ => .pure _) fun _ => ?_
    refine hlock.bind fun _ => (Updater.retrieveTxs_reads _ _ _ _ _ _ _).keeps.bind fun _ =>
      (updateTxsViaKernel_keeps (touches_frees _) W hlock (by decide) mask _).bind fun r =>
        .ite (fun _ => .pure _) fun _ =>
          (Updater.getChainTip_keeps (touches_frees _) W).attempt.bind fun r => ?_
    split
    · exact .pure _
    · exact .pure _
  exact h.mono fun _ _ ht => sameScan_of_touches ht (by decide) (by decide)

theorem walletLock_same : Prog.Keeps SameScan (walletLock W) :=
  (walletLock_touches W (S := [])).mono fun _ _ ht => sameScan_of_touches ht (by decide) (by decide)

theorem chainScan_same (mask : Option SecretKey) (delete : Bool) (start stop : Nat) :
    Prog.Keeps SameScan (Scan.scan W mask delete start stop) :=
  (Scan.scan_keeps (touches_frees Scan.scanRows) W (walletLock_touches W) (fun _ h => h) mask delete
    start stop).mono fun _ _ ht =>
    sameScan_of_touches ht (by decide) (by decide)

theorem cancelExpired_same (mask : Option SecretKey) (tip : Nat) (tx : TxLogEntry) :
    Prog.Keeps SameScan (cancelExpired W mask tip tx) :=
  (cancelExpired_keeps (touches_frees Tx.sendRows) W (walletLock_touches W) (by decide) (by decide)
    (by decide) mask tip tx).mono
    fun _ _ ht => sameScan_of_touches ht (by decide) (by decide)

/-- The range `Scan.scan` covers if it completes. -/
def scanRange (mask : Option SecretKey) (delete : Bool) (start stop : Nat) (w : Wallet) :
    List (Nat × Nat) :=
  match (Scan.scan W mask delete start stop w).1 with
  | .ok _ => [(start, stop)]
  | .error _ => []

/-- The ranges a refresh covers by completed scans. -/
def updateScans (mask : Option SecretKey) (w : Wallet) : List (Nat × Nat) :=
  match beforeScan W mask w with
  | (.ok (some (_, tip)), w₁) =>
    scanRange W mask false (startHeight w.db tip.1 - reorgMargin) tip.1 (walletLock W w₁).2
  | _ => []

/-- An owner scan up to its scan: the tip. -/
def beforeOwnerScan (mask : Option SecretKey) : WalletM (Nat × String) := do
  let _ ← updateOutputs W mask
  walletLock W
  Updater.getChainTip W

/-- The ranges an owner scan covers by completed scans. -/
def ownerScans (mask : Option SecretKey) (startHeight : Option Nat) (delete : Bool) (w : Wallet) :
    List (Nat × Nat) :=
  match beforeOwnerScan W mask w with
  | (.ok tip, w₁) => scanRange W mask delete (startHeight.getD 1) tip.1 w₁
  | _ => []

/-! ## What the calls leave -/

theorem scan_height {mask : Option SecretKey} {delete : Bool} {start stop : Nat}
    {info : ScannedBlockInfo} {w w' : Wallet}
    (h : Scan.scan W mask delete start stop w = (.ok info, w')) : info.height = stop := by
  unfold Scan.scan at h
  iterate 15 obtain ⟨_, _, -, h⟩ := Prog.bind_ok.1 h
  cases h
  rfl

theorem lastHeight_put (d : Rows Key Serializable) (info : ScannedBlockInfo) :
    lastHeight (d.put .lastScannedBlock (.scannedBlockInfo info)) = info.height := by
  unfold lastHeight
  rw [Rows.get_put_self]

theorem statusOf_put (d : Rows Key Serializable) (s : WalletInitStatus) :
    statusOf (d.put .walletInitStatus (.walletInitStatus s)) = s := by
  unfold statusOf
  rw [Rows.get_put_self]

theorem lastHeight_put_status (d : Rows Key Serializable) (s : WalletInitStatus) :
    lastHeight (d.put .walletInitStatus (.walletInitStatus s)) = lastHeight d := by
  unfold lastHeight
  rw [Rows.get_put_ne _ _ (by simp)]

theorem statusOf_put_scanned (d : Rows Key Serializable) (info : ScannedBlockInfo) :
    statusOf (d.put .lastScannedBlock (.scannedBlockInfo info)) = statusOf d := by
  unfold statusOf
  rw [Rows.get_put_ne _ _ (by simp)]

/-- What a refresh does with the two rows once it scans: nothing, or it saves the tip as the height
scanned up to, and then the scan from the height saved before was completed. -/
theorem scanStep_outcome (mask : Option SecretKey) (tip : Nat × String) (w : Wallet) :
    SameScan w (scanStep W mask tip w).2 ∨
      lastHeight (scanStep W mask tip w).2.db = tip.1 ∧
      statusOf (scanStep W mask tip w).2.db = .initComplete ∧
      (startHeight w.db tip.1 - reorgMargin, tip.1) ∈
        scanRange W mask false (startHeight w.db tip.1 - reorgMargin) tip.1 (walletLock W w).2 := by
  unfold scanStep
  have hw₁ := walletLock_same W w
  rcases h₁ : walletLock W w with ⟨e | ⟨⟩, w₁⟩
  · rw [h₁] at hw₁
    rw [Prog.bind_of_error h₁]
    exact .inl hw₁
  rw [h₁] at hw₁
  have hstart : startHeight w₁.db tip.1 = startHeight w.db tip.1 := by
    unfold startHeight
    rw [hw₁.status, hw₁.height]
  obtain ⟨last, hlast, hheight⟩ := scanStart_apply tip w₁
  rw [Prog.bind_of_ok h₁, Prog.bind_of_ok hlast]
  rw [hstart] at hheight
  dsimp only
  unfold scanRange
  rw [show last.height - 100 = startHeight w.db tip.1 - reorgMargin by rw [hheight]; rfl]
  have hw₂ := chainScan_same W mask false (startHeight w.db tip.1 - reorgMargin) tip.1 w₁
  rcases h₂ : Scan.scan W mask false (startHeight w.db tip.1 - reorgMargin) tip.1 w₁ with
    ⟨e | info, w₂⟩
  · rw [Prog.bind_of_error h₂]
    rw [h₂] at hw₂
    exact .inl (hw₁.trans hw₂)
  rw [Prog.bind_of_ok h₂]
  rw [h₂] at hw₂
  have hw₃ := walletLock_same W w₂
  rcases h₃ : walletLock W w₂ with ⟨e | ⟨⟩, w₃⟩
  · rw [h₃] at hw₃
    rw [Prog.bind_of_error h₃]
    exact .inl (hw₁.trans (hw₂.trans hw₃))
  rw [Prog.bind_of_ok h₃]
  rw [h₃] at hw₃
  have hw := hw₁.trans (hw₂.trans hw₃)
  rcases h₄ : batch W mask w₃ with ⟨e | b, w₄⟩
  · rw [Prog.bind_of_error h₄, (batch_reads W mask).eq h₄]
    exact .inl hw
  obtain rfl := (batch_reads W mask).eq h₄
  rw [Prog.bind_of_ok h₄]
  by_cases hp : (Serializable.scannedBlockInfo { info with hash := tip.2 }).Plain
  · right
    have hsave : Batch.saveLastScannedBlock { info with hash := tip.2 } w₄ = (.ok (), { w₄ with
        db := w₄.db.put .lastScannedBlock (.scannedBlockInfo { info with hash := tip.2 }) }) :=
      put_ok.2 ⟨hp, rfl⟩
    have hinit : ∀ w₅, Batch.saveInitStatus .initComplete w₅ = (.ok (), { w₅ with
        db := w₅.db.put .walletInitStatus (.walletInitStatus .initComplete) }) := fun w₅ =>
      put_ok.2 ⟨by simp [Serializable.Plain, Serializable.strings], rfl⟩
    rw [Prog.bind_of_ok hsave, Prog.bind_of_ok (hinit _)]
    refine ⟨?_, statusOf_put _ _, by simp⟩
    show lastHeight ((Rows.put _ _ _).put _ _) = tip.1
    rw [lastHeight_put_status, lastHeight_put]
    exact (scan_height W h₂ : info.height = tip.1)
  · left
    have hput : Batch.saveLastScannedBlock { info with hash := tip.2 } w₄ = (.error .panic, w₄) := by
      unfold Batch.saveLastScannedBlock put
      rw [if_neg hp]
    rw [Prog.bind_of_error hput]
    exact hw

/-- What a refresh leaves in the two rows. -/
theorem updateWalletState_outcome (mask : Option SecretKey) (w : Wallet) :
    SameScan w (updateWalletState W mask w).2 ∨ ∃ tip,
      lastHeight (updateWalletState W mask w).2.db = tip ∧
      statusOf (updateWalletState W mask w).2.db = .initComplete ∧
      (startHeight w.db tip - reorgMargin, tip) ∈ updateScans W mask w := by
  rw [updateWalletState_eq]
  unfold updateScans
  have hw₁ := beforeScan_same W mask w
  rcases h₁ : beforeScan W mask w with ⟨e | r, w₁⟩
  · rw [h₁] at hw₁
    rw [Prog.bind_of_error h₁]
    exact .inl hw₁
  rw [Prog.bind_of_ok h₁]
  rw [h₁] at hw₁
  rcases r with _ | ⟨txs, tip⟩
  · exact .inl hw₁
  have hstart : startHeight w₁.db tip.1 = startHeight w.db tip.1 := by
    unfold startHeight
    rw [hw₁.status, hw₁.height]
  have hstep := scanStep_outcome W mask tip w₁
  rw [hstart] at hstep
  have hrest : ∀ w₂, SameScan w₂
      ((Prog.forEach txs (cancelExpired W mask tip.1) >>= fun _ => pure true) w₂).2 :=
    (Prog.Keeps.forEach _ fun _ _ => cancelExpired_same W _ _ _).bind fun _ => .pure _
  have hfrom : fromScan W mask (some (txs, tip)) = (scanStep W mask tip >>= fun _ =>
      Prog.forEach txs (cancelExpired W mask tip.1) >>= fun _ => pure true) := rfl
  rw [hfrom]
  rcases h₂ : scanStep W mask tip w₁ with ⟨e | ⟨⟩, w₂⟩
  · rw [h₂] at hstep
    rw [Prog.bind_of_error h₂]
    rcases hstep with hs | hs
    · exact .inl (hw₁.trans hs)
    · exact .inr ⟨tip.1, hs⟩
  · rw [h₂] at hstep
    rw [Prog.bind_of_ok h₂]
    have hlast := hrest w₂
    rcases hstep with hs | ⟨hh, hst, hmem⟩
    · exact .inl (hw₁.trans (hs.trans hlast))
    · exact .inr ⟨tip.1, hlast.height.trans hh, hlast.status.trans hst, hmem⟩

/-- The rest of an owner scan. -/
def fromOwnerScan (mask : Option SecretKey) (start : Nat) (delete : Bool) (tip : Nat × String) :
    WalletM Unit := do
  let info ← Scan.scan W mask delete start tip.1
  walletLock W
  let _ ← batch W mask
  Batch.saveLastScannedBlock { info with hash := tip.2 }
  Batch.commit

theorem scan_eq (mask : Option SecretKey) (start : Option Nat) (delete : Bool) :
    scan W mask start delete =
      beforeOwnerScan W mask >>= fromOwnerScan W mask (start.getD 1) delete := by
  unfold scan beforeOwnerScan
  simp only [Prog.bind_assoc']
  rfl

theorem beforeOwnerScan_same (mask : Option SecretKey) :
    Prog.Keeps SameScan (beforeOwnerScan W mask) := by
  have h : Prog.Keeps (Touches Tx.sendRows) (beforeOwnerScan W mask) :=
    (updateOutputs_keeps (touches_frees _) W (walletLock_touches W) (fun _ h => h) mask).bind
      fun _ => (walletLock_touches W).bind fun _ => Updater.getChainTip_keeps (touches_frees _) W
  exact h.mono fun _ _ ht => sameScan_of_touches ht (by decide) (by decide)

/-- What an owner scan leaves in the two rows: nothing new, or the tip, and then the scan up to the
tip was completed. -/
theorem scan_outcome (mask : Option SecretKey) (start : Option Nat) (delete : Bool) (w : Wallet) :
    statusOf (scan W mask start delete w).2.db = statusOf w.db ∧
      (lastHeight (scan W mask start delete w).2.db = lastHeight w.db ∨
        (start.getD 1, lastHeight (scan W mask start delete w).2.db) ∈
          ownerScans W mask start delete w) := by
  rw [scan_eq]
  unfold ownerScans
  have hw₁ := beforeOwnerScan_same W mask w
  rcases h₁ : beforeOwnerScan W mask w with ⟨e | tip, w₁⟩
  · rw [h₁] at hw₁
    rw [Prog.bind_of_error h₁]
    exact ⟨hw₁.status, .inl hw₁.height⟩
  rw [h₁] at hw₁
  rw [Prog.bind_of_ok h₁]
  unfold fromOwnerScan scanRange
  dsimp only
  have hw₂ := chainScan_same W mask delete (start.getD 1) tip.1 w₁
  rcases h₂ : Scan.scan W mask delete (start.getD 1) tip.1 w₁ with ⟨e | info, w₂⟩
  · rw [h₂] at hw₂
    rw [Prog.bind_of_error h₂]
    exact ⟨(hw₁.trans hw₂).status, .inl (hw₁.trans hw₂).height⟩
  rw [h₂] at hw₂
  rw [Prog.bind_of_ok h₂]
  have hw₃ := walletLock_same W w₂
  rcases h₃ : walletLock W w₂ with ⟨e | ⟨⟩, w₃⟩
  · rw [h₃] at hw₃
    rw [Prog.bind_of_error h₃]
    exact ⟨(hw₁.trans (hw₂.trans hw₃)).status, .inl (hw₁.trans (hw₂.trans hw₃)).height⟩
  rw [h₃] at hw₃
  rw [Prog.bind_of_ok h₃]
  have hw := hw₁.trans (hw₂.trans hw₃)
  rcases h₄ : batch W mask w₃ with ⟨e | b, w₄⟩
  · rw [Prog.bind_of_error h₄, (batch_reads W mask).eq h₄]
    exact ⟨hw.status, .inl hw.height⟩
  obtain rfl := (batch_reads W mask).eq h₄
  rw [Prog.bind_of_ok h₄]
  by_cases hp : (Serializable.scannedBlockInfo { info with hash := tip.2 }).Plain
  · have hsave : Batch.saveLastScannedBlock { info with hash := tip.2 } w₄ = (.ok (), { w₄ with
        db := w₄.db.put .lastScannedBlock (.scannedBlockInfo { info with hash := tip.2 }) }) :=
      put_ok.2 ⟨hp, rfl⟩
    rw [Prog.bind_of_ok hsave]
    refine ⟨(statusOf_put_scanned _ _).trans hw.status, .inr ?_⟩
    show (_, lastHeight (w₄.db.put _ _)) ∈ [_]
    rw [lastHeight_put, List.mem_singleton]
    exact congrArg _ (scan_height W h₂ : info.height = tip.1)
  · have hput : Batch.saveLastScannedBlock { info with hash := tip.2 } w₄ = (.error .panic, w₄) := by
      unfold Batch.saveLastScannedBlock put
      rw [if_neg hp]
    rw [Prog.bind_of_error hput]
    exact ⟨hw.status, .inl hw.height⟩

/-- An owner scan covers up to a tip the node reported. -/
theorem ownerScans_tip {mask : Option SecretKey} {start : Option Nat} {delete : Bool} {w : Wallet}
    {r : Nat × Nat} (h : r ∈ ownerScans W mask start delete w) :
    r.1 = start.getD 1 ∧ ∃ t tip, W.chainTip t = .ok tip ∧ tip.1 = r.2 := by
  unfold ownerScans at h
  split at h
  · next tip w₁ hb =>
    obtain ⟨_, w₂, -, h₂⟩ := Prog.bind_ok.1 hb
    obtain ⟨_, w₃, -, h₃⟩ := Prog.bind_ok.1 h₂
    obtain ⟨t, w₄, -, h₄⟩ := Prog.bind_ok.1 h₃
    obtain ⟨htip, -⟩ := Prog.ofExcept_eq_ok.1 h₄
    unfold scanRange at h
    split at h
    · rw [List.mem_singleton.1 h]
      exact ⟨rfl, t, tip, htip, rfl⟩
    · cases h
  · cases h

/-! ## Runs -/

/-- Where the scanning of a wallet starts: at the first block, unless the wallet is new. A new
wallet's starts with its first refresh. -/
def initialStart (d : Rows Key Serializable) : Option Nat :=
  if statusOf d = .initNoScanning then none else some 1

/-- The start of the scanning after a refresh. -/
def startAfter (base : Option Nat) (w' : Wallet) : Option Nat :=
  match base with
  | some b => some b
  | none => if statusOf w'.db = .initNoScanning then none
    else some (lastHeight w'.db - reorgMargin)

/-- An owner scan from `start` skips nothing: a height below it that belongs to the wallet's range is
covered, or within the margin of every tip the node reports. -/
def SkipsNothing (ranges : List (Nat × Nat)) (base : Option Nat) (start : Nat) : Prop :=
  ∀ b₀, base = some b₀ → ∀ b, b₀ ≤ b → b < start → Covered ranges b ∨
    ∀ t tip, W.chainTip t = .ok tip → tip.1 < b + reorgMargin

/-- Runs of refreshes and owner scans, whatever their outcome, with the ranges covered by completed
scans and the start of the scanning; `other` is any call that leaves the two rows alone. `ok` is what
is known of each owner scan. -/
inductive ScanRun (ok : List (Nat × Nat) → Option Nat → Nat → Prop) :
    Wallet → List (Nat × Nat) → Option Nat → Prop
  | start {w : Wallet} : w.db.get .lastScannedBlock = none → ScanRun ok w [] (initialStart w.db)
  | update {w : Wallet} {ranges : List (Nat × Nat)} {base : Option Nat} (mask : Option SecretKey) :
      ScanRun ok w ranges base →
      ScanRun ok (updateWalletState W mask w).2 (updateScans W mask w ++ ranges)
        (startAfter base (updateWalletState W mask w).2)
  | scan {w : Wallet} {ranges : List (Nat × Nat)} {base : Option Nat} (mask : Option SecretKey)
      (start : Option Nat) (delete : Bool) :
      ScanRun ok w ranges base → ok ranges base (start.getD 1) →
      ScanRun ok (scan W mask start delete w).2 (ownerScans W mask start delete w ++ ranges) base
  | other {w w' : Wallet} {ranges : List (Nat × Nat)} {base : Option Nat} :
      ScanRun ok w ranges base → SameScan w w' → ScanRun ok w' ranges base

/-- What every state of a run satisfies. -/
structure ScanInv (w : Wallet) (ranges : List (Nat × Nat)) (base : Option Nat) : Prop where
  unstarted : base = none ↔ statusOf w.db = .initNoScanning
  covered : ∀ b₀, base = some b₀ → CoveredUpTo ranges b₀ (lastHeight w.db)

theorem ScanInv.same {w w' : Wallet} {ranges : List (Nat × Nat)} {base : Option Nat}
    (h : ScanInv w ranges base) (hs : SameScan w w') : ScanInv w' ranges base := by
  refine ⟨?_, ?_⟩
  · rw [hs.status]
    exact h.unstarted
  · rw [hs.height]
    exact h.covered

/-- More ranges cover no less. -/
theorem ScanInv.more {w : Wallet} {ranges : List (Nat × Nat)} {base : Option Nat}
    (h : ScanInv w ranges base) (l : List (Nat × Nat)) : ScanInv w (l ++ ranges) base :=
  ⟨h.unstarted, fun b₀ hb b hle hm => (h.covered b₀ hb b hle hm).append_right⟩

theorem scanInv_start {w : Wallet} (h : w.db.get .lastScannedBlock = none) :
    ScanInv w [] (initialStart w.db) := by
  have hlast : lastHeight w.db = 0 := by
    unfold lastHeight
    rw [h]
  refine ⟨by unfold initialStart; split <;> simp [*], fun b₀ _ b _ hm => ?_⟩
  rw [hlast, reorgMargin] at hm
  omega

/-- A refresh keeps the invariant: it starts at most the margin below the saved height. -/
theorem scanInv_update {w : Wallet} {ranges : List (Nat × Nat)} {base : Option Nat}
    (mask : Option SecretKey) (h : ScanInv w ranges base) :
    ScanInv (updateWalletState W mask w).2 (updateScans W mask w ++ ranges)
      (startAfter base (updateWalletState W mask w).2) := by
  rcases updateWalletState_outcome W mask w with hs | ⟨tip, hh, hst, hmem⟩
  · have hbase : startAfter base (updateWalletState W mask w).2 = base := by
      unfold startAfter
      rcases base with _ | b
      · rw [hs.status, if_pos (h.unstarted.1 rfl)]
      · rfl
    rw [hbase]
    exact (h.same hs).more _
  · have hne : startAfter base (updateWalletState W mask w).2 ≠ none := by
      unfold startAfter
      rcases base with _ | b
      · rw [hst, if_neg (by simp)]
        simp
      · simp
    refine ⟨by rw [hst]; simp [hne], fun b₀ hb b hle hm => ?_⟩
    rw [hh] at hm
    -- a height that the new range does not cover was covered before
    by_cases hnew : startHeight w.db tip - reorgMargin ≤ b
    · exact ⟨_, List.mem_append_left _ hmem, hnew, by simp only [reorgMargin] at hm; omega⟩
    apply Covered.append_right
    rcases base with _ | b'
    · have hstart : startHeight w.db tip = tip := by
        unfold startHeight
        rw [h.unstarted.1 rfl]
      unfold startAfter at hb
      rw [hst, if_neg (by simp), hh, Option.some.injEq] at hb
      omega
    · obtain rfl : b' = b₀ := by simpa [startAfter] using hb
      have hno : statusOf w.db ≠ .initNoScanning := by
        intro he
        cases h.unstarted.2 he
      unfold startHeight at hnew
      rcases hstw : statusOf w.db with _ | _ | _
      · rw [hstw] at hnew
        simp at hnew
      · exact absurd hstw hno
      · rw [hstw] at hnew
        refine h.covered b' rfl b hle ?_
        simp only at hnew
        omega

/-- An owner scan that skips nothing keeps the invariant. -/
theorem scanInv_scan {w : Wallet} {ranges : List (Nat × Nat)} {base : Option Nat}
    (mask : Option SecretKey) (start : Option Nat) (delete : Bool) (h : ScanInv w ranges base)
    (hok : SkipsNothing W ranges base (start.getD 1)) :
    ScanInv (scan W mask start delete w).2 (ownerScans W mask start delete w ++ ranges) base := by
  obtain ⟨hst, hh⟩ := scan_outcome W mask start delete w
  refine ⟨by rw [hst]; exact h.unstarted, fun b₀ hb b hle hm => ?_⟩
  rcases hh with hh | hmem
  · rw [hh] at hm
    exact (h.covered b₀ hb b hle hm).append_right
  · by_cases hnew : start.getD 1 ≤ b
    · exact ⟨_, List.mem_append_left _ hmem, hnew, by simp only [reorgMargin] at hm; omega⟩
    apply Covered.append_right
    rcases hok b₀ hb b hle (by omega) with hc | hmargin
    · exact hc
    · obtain ⟨-, t, tip, htip, heq⟩ := ownerScans_tip W hmem
      have := hmargin t tip htip
      simp only at heq
      omega

theorem scanInv_of_run {w : Wallet} {ranges : List (Nat × Nat)} {base : Option Nat}
    (h : ScanRun W (SkipsNothing W) w ranges base) : ScanInv w ranges base := by
  induction h with
  | start h => exact scanInv_start h
  | update mask _ ih => exact scanInv_update W mask ih
  | scan mask start delete _ hok ih => exact scanInv_scan W mask start delete ih hok
  | other _ hs ih => exact ih.same hs

/-- In every run whose owner scans skip nothing, the saved height stands for what was scanned. -/
theorem covered_of_run {w : Wallet} {ranges : List (Nat × Nat)} {base : Option Nat}
    (h : ScanRun W (SkipsNothing W) w ranges base) {b₀ : Nat} (hb : base = some b₀) :
    CoveredUpTo ranges b₀ (lastHeight w.db) := (scanInv_of_run W h).covered b₀ hb

/-- An owner scan that saved its tip leaves no gap exactly if the heights below its start, those of
the margin aside, were covered before. -/
theorem scan_covered_iff {w : Wallet} {ranges : List (Nat × Nat)} {b₀ : Nat}
    {mask : Option SecretKey} {start : Option Nat} {delete : Bool}
    (hsaved : (start.getD 1, lastHeight (scan W mask start delete w).2.db) ∈
      ownerScans W mask start delete w) :
    CoveredUpTo (ownerScans W mask start delete w ++ ranges) b₀
        (lastHeight (scan W mask start delete w).2.db) ↔
      ∀ b, b₀ ≤ b → b < start.getD 1 →
        b + reorgMargin ≤ lastHeight (scan W mask start delete w).2.db → Covered ranges b := by
  constructor
  · intro h b hle hlt hm
    obtain ⟨r, hr, hb⟩ := h b hle hm
    rcases List.mem_append.1 hr with hr | hr
    · have := (ownerScans_tip W hr).1
      omega
    · exact ⟨r, hr, hb⟩
  · intro h b hle hm
    by_cases hnew : start.getD 1 ≤ b
    · exact ⟨_, List.mem_append_left _ hsaved, hnew, by simp only [reorgMargin] at hm; omega⟩
    · exact (h b hle (by omega) hm).append_right

/-- The small world with a chain that grows from 200 blocks to 1000. -/
def growingWorld : World :=
  { World.small with chainTip := fun t => .ok (if t < 40 then 200 else 1000, "") }

/-- A wallet restored from its seed. -/
def restored : Wallet :=
  { opened ⟨7⟩ 7 with
    db := (opened ⟨7⟩ 7).db.put .walletInitStatus (.walletInitStatus .initNeedsScanning) }

theorem sameScan_tick (w : Wallet) (n : Nat) : SameScan w { w with tick := n } := ⟨rfl, rfl⟩

/-- The restored wallet after its first refresh, once the chain has grown. -/
def refreshed : Wallet := { (updateWalletState growingWorld none restored).2 with tick := 40 }

theorem refreshed_run (ok : List (Nat × Nat) → Option Nat → Nat → Prop) :
    ScanRun growingWorld ok refreshed (updateScans growingWorld none restored ++ [])
      (startAfter (initialStart restored.db) (updateWalletState growingWorld none restored).2) := by
  have hstart : ScanRun growingWorld ok restored [] (initialStart restored.db) :=
    .start (by decide +kernel)
  unfold refreshed
  exact (hstart.update none).other (sameScan_tick _ 40)

/-- Of the 200 blocks of its first refresh the restored wallet knows the first. -/
theorem covered_refreshed : Covered (updateScans growingWorld none restored ++ []) 1 :=
  covered_of_run growingWorld (refreshed_run _) (by decide +kernel : _ = some 1) 1 (by decide)
    (by decide +kernel)

/-- The restored wallet scanned from height 500 saves the height 1000, with 201 to 499 never
scanned. -/
theorem high_scan_leaves_gap :
    ¬∀ w ranges base, ScanRun growingWorld (fun _ _ _ => True) w ranges base →
      ∀ b₀, base = some b₀ → CoveredUpTo ranges b₀ (lastHeight w.db) := by
  intro h
  have hrun := h _ _ _ (.scan none (some 500) false (refreshed_run _) trivial) 1 (by decide +kernel)
    300 (by decide) (by decide +kernel)
  have hfirst : updateScans growingWorld none restored = [(0, 200)] := by decide +kernel
  have hsecond : ownerScans growingWorld none (some 500) false refreshed = [(500, 1000)] := by
    decide +kernel
  rw [hfirst, hsecond] at hrun
  obtain ⟨r, hr, hb⟩ := hrun
  simp only [List.cons_append, List.nil_append, List.mem_cons, List.not_mem_nil, or_false] at hr
  rcases hr with rfl | rfl
  · omega
  · omega

end Owner

end EpicWallet
