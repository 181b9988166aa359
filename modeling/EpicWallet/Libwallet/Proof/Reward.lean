import EpicWallet.Libwallet.Proof.ChildIndex
import EpicWallet.Libwallet.Proof.Run

/-!
# Rewards asked for by a miner

A miner asks the wallet for the outputs of a block and may name the key they go to. The reward is
stored under that key as an unconfirmed coinbase, whatever stands there: an output that is known to
be on the chain, or is no coinbase at all, is lost if it stands under the key without an MMR index.

`rewardTarget` is the key a request goes to, read from the state it finds. A request whose target
holds at most an unconfirmed coinbase leaves every other output alone (`Op.Spares`), and a request
that is served leaves them alone only then (`spares_of_served`).
-/

namespace EpicWallet

open Lib Lib.Prog WalletBackend

/-! ## Settled outputs -/

/-- An output that is not an unconfirmed coinbase. -/
def OutputData.Settled (o : OutputData) : Prop := ¬(o.status = .unconfirmed ∧ o.isCoinbase = true)

instance (o : OutputData) : Decidable o.Settled := inferInstanceAs (Decidable (¬_))

/-- Whatever is on the chain, locked or spent is settled. -/
theorem settled_of_status {o : OutputData}
    (h : o.status = .unspent ∨ o.status = .locked ∨ o.status = .spent) : o.Settled := by
  rintro ⟨hs, -⟩
  rw [hs] at h
  rcases h with h | h | h <;> cases h

/-- The settled outputs are stored as they were. -/
def KeepsSettled (w w' : Wallet) : Prop :=
  ∀ id m o, w.db.get (.output id m) = some (.outputData o) → o.Settled →
    w'.db.get (.output id m) = some (.outputData o)

theorem keepsSettled_trans {a b c : Wallet} (h : KeepsSettled a b) (h' : KeepsSettled b c) :
    KeepsSettled a c := fun id m o hg hs => h' id m o (h id m o hg hs) hs

/-! ## The key a reward goes to -/

namespace Updater

variable (W : World)

/-- The output stored under a key without an MMR index. -/
def candidate (d : Rows Key Serializable) (id : Identifier) : Option OutputData :=
  (d.get (.output id none)).bind Serializable.asOutputData

theorem candidate_eq {d : Rows Key Serializable} {id : Identifier} {o : OutputData} :
    candidate d id = some o ↔ d.get (.output id none) = some (.outputData o) := by
  unfold candidate
  rw [Option.bind_eq_some_iff]
  constructor
  · rintro ⟨v, hv, ho⟩
    rw [hv, Serializable.asOutputData_eq.1 ho]
  · intro h
    exact ⟨_, h, rfl⟩

/-- The key a reward goes to: that of the output under the key given, if there is one, else the next
child of the active account. -/
def rewardTarget (keyId : Option Identifier) (w : Wallet) : Option Identifier :=
  match keyId.bind (candidate w.db) with
  | some o => some o.keyId
  | none => w.parentKeyId.child (childIndex w.db w.parentKeyId)

/-- What a request for a reward may write: the output at its target, and a child index. -/
def RewardRow (target : Option Identifier) (k : Key) (_ : Option Serializable) : Prop :=
  k.kind = .deriv ∨ ∃ id ∈ target, k = .output id none

theorem nextChild_target {mask : Option SecretKey} {id : Identifier} {w w' : Wallet}
    (h : nextChild W mask w = (.ok id, w')) :
    w.parentKeyId.child (childIndex w.db w.parentKeyId) = some id := by
  obtain ⟨n, rfl, -, hc, -⟩ := nextChild_ok W h
  exact hc

/-- The key of the candidate found, or the next child; a row that holds no output is a panic. -/
theorem rewardKey_cases (mask : Option SecretKey) (keyId : Option Identifier) (w : Wallet) :
    (∃ o, keyId.bind (candidate w.db) = some o ∧ rewardKey W mask keyId w = (.ok o.keyId, w)) ∨
      keyId.bind (candidate w.db) = none ∧
        (rewardKey W mask keyId w = nextChild W mask w ∨
          rewardKey W mask keyId w = (.error .panic, w)) := by
  cases keyId with
  | none => exact .inr ⟨rfl, .inl rfl⟩
  | some given =>
    unfold rewardKey
    dsimp only
    rw [Option.bind_some, candidate, bind_apply]
    unfold Keys.retrieveExistingKey getOutput Prog.attempt
    rw [bind_apply, bind_apply, rows_apply]
    rcases hg : w.db.get (.output given none) with _ | v
    · refine .inr ⟨rfl, .inl ?_⟩
      simp only [hg]
      rfl
    · rcases hv : v.asOutputData with _ | o
      · exact .inr ⟨hv, .inr (by simp [hg, hv])⟩
      · exact .inl ⟨o, hv, by simp [hg, hv]⟩

/-- The key found is the target, and what is written on the way are child indices. -/
theorem rewardKey_target (mask : Option SecretKey) (keyId : Option Identifier) (w : Wallet) :
    Writes (RewardRow (rewardTarget keyId w)) w (rewardKey W mask keyId w).2 ∧
      ∀ id w', rewardKey W mask keyId w = (.ok id, w') → rewardTarget keyId w = some id := by
  unfold rewardTarget
  rcases rewardKey_cases W mask keyId w with ⟨o, ho, hrun⟩ | ⟨ho, hrun | hrun⟩
  · rw [ho, hrun]
    refine ⟨Std.Refl.refl w, fun id w' h => ?_⟩
    cases h
    rfl
  · rw [ho, hrun]
    exact ⟨nextChild_writes W (fun _ _ => .inl rfl) w, fun id w' h => nextChild_target W h⟩
  · rw [ho, hrun]
    exact ⟨Std.Refl.refl w, fun id w' h => by cases h⟩

/-- A request writes the output at its target and a child index, whatever its outcome. -/
theorem receiveReward_writes (mask : Option SecretKey) (fees : BlockFees) (amount : Nat)
    (build : Keychain → Identifier → Except Error (Output × TxKernel)) (w : Wallet) :
    Writes (RewardRow (rewardTarget fees.keyId w)) w
      (receiveReward W mask fees amount build w).2 := by
  refine Prog.rel_bind ((addU64_reads _ _).keeps w) fun lockHeight w₁ h₁ => ?_
  obtain rfl := (addU64_reads _ _).eq h₁
  refine Prog.rel_bind (parentKeyId_reads.keeps _) fun parent w₂ h₂ => ?_
  obtain rfl := parentKeyId_reads.eq h₂
  obtain ⟨hkey, htarget⟩ := rewardKey_target W mask fees.keyId w₂
  refine Prog.rel_bind hkey fun id w₃ h₃ => ?_
  have hrow := htarget id w₃ h₃
  refine ((calcCommitForCache_reads W mask amount id).keeps.bind fun _ =>
    (batch_reads W mask).keeps.bind fun _ => (Batch.save_writes (.inr ⟨id, hrow, rfl⟩)).bind fun _ =>
      (Prog.Keeps.pure _).bind fun _ => (keychain_reads W mask).keeps.bind fun _ =>
        (Prog.Keeps.ofExcept _).bind fun _ => .pure _) w₃

/-- A request that returns has stored a new candidate at its target. -/
theorem receiveReward_ok {mask : Option SecretKey} {fees : BlockFees} {amount : Nat}
    {build : Keychain → Identifier → Except Error (Output × TxKernel)}
    {r : Output × TxKernel × BlockFees} {w w' : Wallet}
    (h : receiveReward W mask fees amount build w = (.ok r, w')) :
    ∃ id o, rewardTarget fees.keyId w = some id ∧ ¬o.Settled ∧
      w'.db.get (.output id none) = some (.outputData o) := by
  obtain ⟨lockHeight, w₁, h₁, g₁⟩ := Prog.bind_ok.1 h
  obtain rfl := (addU64_reads _ _).eq h₁
  obtain ⟨parent, w₂, h₂, g₂⟩ := Prog.bind_ok.1 g₁
  obtain rfl := parentKeyId_reads.eq h₂
  obtain ⟨id, w₃, h₃, g₃⟩ := Prog.bind_ok.1 g₂
  obtain ⟨commit, w₄, h₄, g₄⟩ := Prog.bind_ok.1 g₃
  obtain rfl := (calcCommitForCache_reads W mask amount id).eq h₄
  obtain ⟨b, w₅, h₅, g₅⟩ := Prog.bind_ok.1 g₄
  obtain rfl := (batch_reads W mask).eq h₅
  obtain ⟨⟨⟩, w₆, h₆, g₆⟩ := Prog.bind_ok.1 g₅
  obtain ⟨⟨⟩, w₇, h₇, g₇⟩ := Prog.bind_ok.1 g₆
  cases h₇
  obtain ⟨k, w₈, h₈, g₈⟩ := Prog.bind_ok.1 g₇
  obtain rfl := (keychain_reads W mask).eq h₈
  obtain ⟨out, w₉, h₉, g₉⟩ := Prog.bind_ok.1 g₈
  obtain ⟨-, rfl⟩ := Prog.ofExcept_eq_ok.1 h₉
  cases g₉
  exact ⟨id, _, (rewardKey_target W mask fees.keyId w₂).2 id _ h₃, fun hs => hs ⟨rfl, rfl⟩,
    (Batch.save_ok h₆).get_self⟩

end Updater

/-! ## Requests -/

namespace Op

variable (W : World)

/-- The fees an operation names, if it is a request for a reward. -/
def blockFees : Op → Option Updater.BlockFees
  | buildCoinbase _ fees => some fees
  | buildFoundation _ fees => some fees
  | _ => none

/-- What stands at the target of the request is at most an unconfirmed coinbase. -/
def Spares (op : Op) (w : Wallet) : Prop :=
  ∀ fees ∈ op.blockFees, ∀ id ∈ Updater.rewardTarget fees.keyId w,
    ∀ o ∈ Updater.candidate w.db id, ¬o.Settled

instance (op : Op) (w : Wallet) : Decidable (op.Spares w) :=
  inferInstanceAs (Decidable (∀ fees ∈ op.blockFees, _))

variable {W}

/-- What a request writes, and, if it returned, what it stored. -/
theorem reward_run {op : Op} {fees : Updater.BlockFees} (hop : op.blockFees = some fees)
    (w : Wallet) :
    Writes (Updater.RewardRow (Updater.rewardTarget fees.keyId w)) w (op.run W w) ∧
      ((op.prog W w).1 = .ok () → ∃ id o, Updater.rewardTarget fees.keyId w = some id ∧
        ¬o.Settled ∧ (op.run W w).db.get (.output id none) = some (.outputData o)) := by
  have hbody : ∀ {mask amount build}, op.prog W = (do
      let _ ← Updater.receiveReward W mask fees amount build) →
      Writes (Updater.RewardRow (Updater.rewardTarget fees.keyId w)) w (op.run W w) ∧
        ((op.prog W w).1 = .ok () → ∃ id o, Updater.rewardTarget fees.keyId w = some id ∧
          ¬o.Settled ∧ (op.run W w).db.get (.output id none) = some (.outputData o)) := by
    intro mask amount build hprog
    unfold run
    rw [hprog]
    constructor
    · exact Prog.rel_bind (Updater.receiveReward_writes W mask fees amount build w)
        fun _ _ _ => Std.Refl.refl _
    · intro hok
      obtain ⟨r, w', hr, hpure⟩ := Prog.bind_ok.1 (Prog.run_eq hok)
      rw [← (Prod.mk.inj hpure).2]
      exact Updater.receiveReward_ok W hr
  cases op with
  | buildCoinbase mask f =>
    cases hop
    exact hbody rfl
  | buildFoundation mask f =>
    cases hop
    exact hbody rfl
  | _ => cases hop

/-- A request that spares what stands at its target keeps the settled outputs. -/
theorem keepsSettled_of_spares {op : Op} {w : Wallet} (hop : op.blockFees.isSome = true)
    (h : op.Spares w) : KeepsSettled w (op.run W w) := by
  obtain ⟨fees, hfees⟩ := Option.isSome_iff_exists.1 hop
  intro id m o hg hs
  rcases (reward_run hfees w).1.db (.output id m) rfl with he | hk | ⟨t, ht, hk⟩
  · rw [he, hg]
  · cases hk
  · cases hk
    exact absurd hs (h fees hfees id ht o (Updater.candidate_eq.2 hg))

/-- A request that is served keeps the settled outputs exactly if it spares what stands at its
target. -/
theorem spares_of_served {op : Op} {w : Wallet} (hop : op.blockFees.isSome = true)
    (hok : (op.prog W w).1 = .ok ()) : KeepsSettled w (op.run W w) ↔ op.Spares w := by
  refine ⟨fun h fees hfees id hid o ho hs => ?_, keepsSettled_of_spares hop⟩
  obtain ⟨id', o', hid', hs', hg⟩ := (reward_run hfees w).2 hok
  obtain rfl : id' = id := Option.some.inj (hid'.symm.trans hid)
  rw [h id' none o (Updater.candidate_eq.1 ho) hs] at hg
  cases hg
  exact hs' hs

/-- In a run of requests that each spare what stands at their target, no settled output is altered or
removed. -/
theorem settled_of_run : ∀ {ops : List Op} {w : Wallet}, (∀ op ∈ ops, op.blockFees.isSome = true) →
    (∀ s ∈ steps W ops w, s.1.Spares s.2) → KeepsSettled w (runAll W ops w)
  | [], _, _, _ => fun _ _ _ hg _ => hg
  | op :: ops, w, hops, h => by
    have hstep : KeepsSettled w (op.run W w) :=
      keepsSettled_of_spares (hops op List.mem_cons_self) (h (op, w) List.mem_cons_self)
    refine keepsSettled_trans hstep (settled_of_run (fun o ho => hops o (List.mem_cons_of_mem _ ho))
      fun s hs => h s (List.mem_cons_of_mem _ hs))

/-- A new wallet that mined a reward and saw it on the chain. -/
def mined : Wallet :=
  runAll World.small [.buildCoinbase none ⟨0, 1, none⟩, .updateWalletState none] (opened ⟨7⟩ 7)

def minedKey : Identifier := { defaultPath with depth := 3 }

/-- Another reward is asked for under the key of the first: the coins mined are lost. -/
theorem reward_overwrites : ¬KeepsSettled mined
    (runAll World.small [.buildCoinbase none ⟨0, 2, some minedKey⟩] mined) := by
  intro h
  have hbefore : ∃ o ∈ Updater.candidate mined.db minedKey, o.status = .unspent := by decide +kernel
  have hafter : ∀ o ∈ Updater.candidate (runAll World.small
      [.buildCoinbase none ⟨0, 2, some minedKey⟩] mined).db minedKey, o.status = .unconfirmed := by
    decide +kernel
  obtain ⟨o, ho, hs⟩ := hbefore
  have hkept := h minedKey none o (Updater.candidate_eq.1 ho) (settled_of_status (.inl hs))
  rw [hafter o (Updater.candidate_eq.2 hkept)] at hs
  cases hs

/-- Two rewards for the next block, the second under the key of the first. -/
theorem settled_of_next_block : KeepsSettled mined (runAll World.small
    [.buildCoinbase none ⟨0, 2, none⟩, .buildFoundation none ⟨0, 2, some ⟨3, 0, 0, 1, 0⟩⟩] mined) :=
  settled_of_run (by decide) (by decide +kernel)

end Op

end EpicWallet
