import EpicWallet.Libwallet.Scan

/-!
# The outputs of the chain are collected completely

An honest node answers a query by all unspent outputs of the first part of the range that was asked for,
and by the last index of that part. However it cuts its pages, and whatever gaps the indices have,
`collectChainOutputs` ends and has every output of the range that the wallet's keychain can read once
(`collectChainOutputs_complete`): each round raises the start index, and the pages put together are the
range (`inRange_split`).
-/

namespace EpicWallet

open Lib

/-- The unspent outputs of the chain, each at an index of its own, and the highest index there is. -/
structure Chain where
  unspent : List ChainOutput
  highest : Nat
  once : (unspent.map (·.mmrIndex)).Nodup

namespace Chain

/-- The outputs from one index to another, both included. -/
def inRange (c : Chain) (start stop : Nat) : List ChainOutput :=
  c.unspent.filter fun o => decide (start ≤ o.mmrIndex) && decide (o.mmrIndex ≤ stop)

theorem mem_inRange {c : Chain} {start stop : Nat} {o : ChainOutput} :
    o ∈ c.inRange start stop ↔ o ∈ c.unspent ∧ start ≤ o.mmrIndex ∧ o.mmrIndex ≤ stop := by
  simp [inRange]

/-- A range is its first part and what comes after. -/
theorem inRange_split (c : Chain) {start mid stop : Nat} (hs : start ≤ mid) (hm : mid ≤ stop) :
    (c.inRange start mid ++ c.inRange (mid + 1) stop).Perm (c.inRange start stop) := by
  have hfirst : c.inRange start mid =
      (c.inRange start stop).filter fun o => decide (o.mmrIndex ≤ mid) := by
    unfold inRange
    rw [List.filter_filter]
    refine List.filter_congr fun o _ => ?_
    rw [Bool.eq_iff_iff]
    simp
    omega
  have hrest : c.inRange (mid + 1) stop =
      (c.inRange start stop).filter fun o => !decide (o.mmrIndex ≤ mid) := by
    unfold inRange
    rw [List.filter_filter]
    refine List.filter_congr fun o _ => ?_
    rw [Bool.eq_iff_iff]
    simp
    omega
  rw [hfirst, hrest]
  exact List.filter_append_perm _ _

/-- The last index of a requested range. -/
def stopOf (c : Chain) (endIndex : Option Nat) : Nat := endIndex.getD c.highest

end Chain

namespace Scan

variable (W : World)

/-- The node answers each query for a part of the range by a page: the outputs up to an index it names. -/
def Serves (c : Chain) (endIndex : Option Nat) : Prop :=
  ∀ tick start, start ≤ c.stopOf endIndex → ∃ last outputs,
    W.outputsByPmmrIndex tick start endIndex 1000 = .ok (c.stopOf endIndex, last, outputs) ∧
    start ≤ last ∧ last ≤ c.stopOf endIndex ∧ outputs.Perm (c.inRange start last)

/-- What the range proof of an output tells its owner, read the new way or else the old one. -/
def readProof (k : Keychain) (o : ChainOutput) :
    Except Error (Option (Nat × Identifier × SwitchCommitmentType)) :=
  match W.rewind k false o.commit o.proof with
  | .ok none => W.rewind k true o.commit o.proof
  | r => r

/-- The wallet's account of an output of the chain, with what its range proof tells. -/
def foundOutput (o : ChainOutput) (amount : Nat) (keyId : Identifier) : OutputResult where
  commit := o.commit
  keyId
  nChild := keyId.lastPathIndex
  mmrIndex := o.mmrIndex
  value := amount
  height := o.height
  lockHeight := if o.isCoinbase then o.height + W.coinbaseMaturity else o.height
  isCoinbase := o.isCoinbase

/-- The outputs whose range proof the keychain can read. -/
def owned (k : Keychain) (o : ChainOutput) : Option OutputResult :=
  match readProof W k o with
  | .ok (some (amount, keyId, _)) => some (foundOutput W o amount keyId)
  | _ => none

/-- Whether a proof is the keychain's can be told, and the height a coinbase is locked to is a `u64`. -/
structure Readable (k : Keychain) (o : ChainOutput) : Prop where
  proof : ∃ info, readProof W k o = .ok info
  height : o.isCoinbase → o.height + W.coinbaseMaturity < u64Size

instance (k : Keychain) (o : ChainOutput) : Decidable (Readable W k o) :=
  decidable_of_iff ((readProof W k o).isOk ∧ (o.isCoinbase → o.height + W.coinbaseMaturity < u64Size)) (by
    constructor
    · rintro ⟨hproof, hheight⟩
      refine ⟨?_, hheight⟩
      rcases hinfo : readProof W k o with _ | info
      · rw [hinfo] at hproof
        cases hproof
      · exact ⟨info, rfl⟩
    · rintro ⟨⟨info, hinfo⟩, hheight⟩
      exact ⟨by rw [hinfo]; rfl, hheight⟩)

variable {W}

theorem owned_mmrIndex {k : Keychain} {o : ChainOutput} {r : OutputResult} (h : owned W k o = some r) :
    r.mmrIndex = o.mmrIndex := by
  unfold owned at h
  split at h
  · cases h
    rfl
  · cases h

/-- One output of a page. -/
theorem identifyUtxoOutputs_cons {k : Keychain} {o : ChainOutput} {l : List ChainOutput} {w : Wallet}
    {rest : List OutputResult} (ho : Readable W k o) (hrest : identifyUtxoOutputs W k l w = (.ok rest, w)) :
    identifyUtxoOutputs W k (o :: l) w = (.ok ((owned W k o).toList ++ rest), w) := by
  obtain ⟨⟨info, hinfo⟩, hheight⟩ := ho
  have hlock : (if o.isCoinbase then addU64 o.height W.coinbaseMaturity else pure o.height) w =
      (.ok (if o.isCoinbase then o.height + W.coinbaseMaturity else o.height), w) := by
    split
    · next h => exact addU64_ok.2 ⟨rfl, hheight h, rfl⟩
    · rfl
  have hkept (i : Nat × Identifier × SwitchCommitmentType) : (do
      let lockHeight ← (if o.isCoinbase then addU64 o.height W.coinbaseMaturity else pure o.height)
      let rest ← identifyUtxoOutputs W k l
      pure ({ foundOutput W o i.1 i.2.1 with lockHeight } :: rest) : WalletM _) w =
      (.ok (foundOutput W o i.1 i.2.1 :: rest), w) := by
    rw [Prog.bind_of_ok hlock, Prog.bind_of_ok hrest]
    rfl
  unfold owned
  unfold readProof at hinfo ⊢
  unfold identifyUtxoOutputs
  rcases hnew : W.rewind k false o.commit o.proof with e | _ | i
  · simp [hnew] at hinfo
  · simp only [hnew] at hinfo
    rw [hinfo]
    rcases info with _ | i
    · exact hrest
    · exact hkept i
  · exact hkept i

/-- The outputs of a page the keychain can read, in order. -/
theorem identifyUtxoOutputs_eq {k : Keychain} {w : Wallet} :
    ∀ {l : List ChainOutput}, (∀ o ∈ l, Readable W k o) →
      identifyUtxoOutputs W k l w = (.ok (l.filterMap (owned W k)), w)
  | [], _ => rfl
  | o :: l, hl => by
    have hrest := identifyUtxoOutputs_eq (w := w) fun o ho => hl o (List.mem_cons_of_mem _ ho)
    rw [identifyUtxoOutputs_cons (hl o List.mem_cons_self) hrest]
    rcases h : owned W k o with _ | r
    · rw [List.filterMap_cons_none h]
      rfl
    · rw [List.filterMap_cons_some h]
      rfl

/-! ### The rounds -/

/-- The rounds from a start index: enough of them are left, and each raises the index. -/
theorem collectFrom_complete {c : Chain} {endIndex : Option Nat} {k : Keychain}
    (hserves : Serves W c endIndex) (hstop : c.stopOf endIndex < u64Size) :
    ∀ (rounds start : Nat) (w : Wallet), c.stopOf endIndex - start < rounds →
      start ≤ c.stopOf endIndex → (∀ o ∈ c.inRange start (c.stopOf endIndex), Readable W k o) →
      ∃ found w', collectFrom W k endIndex rounds start w = (.ok (found, c.stopOf endIndex), w') ∧
        found.Perm ((c.inRange start (c.stopOf endIndex)).filterMap (owned W k))
  | 0, start, w, hrounds, _, _ => absurd hrounds (Nat.not_lt_zero _)
  | rounds + 1, start, w, hrounds, hstart, hread => by
    obtain ⟨last, page, hanswer, hfrom, hto, hpage⟩ := hserves w.tick start hstart
    have hsplit := c.inRange_split hfrom hto
    have hmine : identifyUtxoOutputs W k page { w with tick := w.tick + 1 } =
        (.ok (page.filterMap (owned W k)), { w with tick := w.tick + 1 }) :=
      identifyUtxoOutputs_eq fun o ho =>
        hread o (hsplit.subset (List.mem_append_left _ (hpage.subset ho)))
    have hfirst : collectFrom W k endIndex (rounds + 1) start w =
        (if c.stopOf endIndex ≤ last then pure (page.filterMap (owned W k), last) else do
          let next ← addU64 last 1
          let rest ← collectFrom W k endIndex rounds next
          pure (page.filterMap (owned W k) ++ rest.1, rest.2) : WalletM _) { w with tick := w.tick + 1 } := by
      rw [collectFrom, Prog.bind_of_ok (nextTick_apply w), hanswer]
      exact Prog.bind_of_ok hmine
    rw [hfirst]
    split_ifs with hlast
    · obtain rfl : last = c.stopOf endIndex := Nat.le_antisymm hto hlast
      exact ⟨_, _, rfl, hpage.filterMap _⟩
    · have hnext : addU64 last 1 { w with tick := w.tick + 1 } =
          (.ok (last + 1), { w with tick := w.tick + 1 }) := addU64_ok.2 ⟨rfl, by omega, rfl⟩
      obtain ⟨rest, w', hrest, hperm⟩ := collectFrom_complete hserves hstop rounds (last + 1)
        { w with tick := w.tick + 1 } (by omega) (by omega) fun o ho =>
          hread o (hsplit.subset (List.mem_append_right _ ho))
      refine ⟨page.filterMap (owned W k) ++ rest, w', ?_, ?_⟩
      · rw [Prog.bind_of_ok hnext, Prog.bind_of_ok hrest]
        rfl
      · refine ((hpage.filterMap _).append hperm).trans ?_
        rw [← List.filterMap_append]
        exact hsplit.filterMap _

/-- However an honest node cuts its pages, and however many rounds more the loop may take,
`collect_chain_outputs` ends and has each output of the range the keychain can read once. -/
theorem collectChainOutputs_complete (W : World) (c : Chain) (k : Keychain) (start : Nat)
    (endIndex : Option Nat) (w : Wallet) (hserves : Serves W c endIndex)
    (hstop : c.stopOf endIndex < u64Size) (hstart : start ≤ c.stopOf endIndex)
    (hread : ∀ o ∈ c.inRange start (c.stopOf endIndex), Readable W k o)
    (hrounds : c.stopOf endIndex - start < W.patience) :
    ∃ found w', collectChainOutputs W k start endIndex w = (.ok (found, c.stopOf endIndex), w') ∧
      found.Perm ((c.inRange start (c.stopOf endIndex)).filterMap (owned W k)) ∧
      (found.map (·.mmrIndex)).Nodup := by
  obtain ⟨found, w', hrun, hperm⟩ := collectFrom_complete hserves hstop W.patience start w hrounds hstart
    hread
  refine ⟨found, w', hrun, hperm, ?_⟩
  rw [(hperm.map _).nodup_iff]
  have hindices : ∀ l : List ChainOutput,
      ((l.filterMap (owned W k)).map (·.mmrIndex)).Sublist (l.map (·.mmrIndex)) := by
    intro l
    induction l with
    | nil => exact .slnil
    | cons o l ih =>
      rcases h : owned W k o with _ | r
      · rw [List.filterMap_cons_none h]
        exact ih.cons _
      · rw [List.filterMap_cons_some h, List.map_cons, owned_mmrIndex h]
        exact ih.cons_cons _
  exact (hindices _).nodup (c.once.sublist (List.filter_sublist.map _))

/-- Four outputs with a gap between the first two and the others, the last one a coinbase. -/
def gappedChain : Chain where
  unspent := [⟨⟨1⟩, ⟨1⟩, false, 4, 1⟩, ⟨⟨2⟩, ⟨0⟩, false, 4, 2⟩, ⟨⟨3⟩, ⟨2⟩, false, 5, 5⟩, ⟨⟨4⟩, ⟨1⟩, true, 6, 6⟩]
  highest := 6
  once := by decide

/-- A node that retrieves two indices at a time; of the proofs, those of number one can be read the new way
and those of number two the old way. -/
def pagingWorld : World := { World.small with
  rewind := fun _ legacy c p =>
    .ok (if p.raw = (if legacy then 2 else 1) then some (10 * c.raw, ⟨2, c.raw, 0, 0, 0⟩, .regular) else none)
  outputsByPmmrIndex := fun _ start endIndex _ =>
    let last := min (start + 1) (gappedChain.stopOf endIndex)
    .ok (gappedChain.stopOf endIndex, last, gappedChain.inRange start last) }

theorem pagingWorld_serves (endIndex : Option Nat) : Serves pagingWorld gappedChain endIndex :=
  fun _ start hstart => ⟨min (start + 1) (gappedChain.stopOf endIndex), _, rfl, by omega, by omega, .refl _⟩

theorem collectChainOutputs_complete_gaps :
    ∃ found w', collectChainOutputs pagingWorld ⟨0⟩ 1 none (WalletBackend.opened ⟨7⟩ 7) = (.ok (found, 6), w') ∧
      found.Perm ((gappedChain.inRange 1 6).filterMap (owned pagingWorld ⟨0⟩)) ∧
      (found.map (·.mmrIndex)).Nodup :=
  collectChainOutputs_complete pagingWorld gappedChain ⟨0⟩ 1 none (WalletBackend.opened ⟨7⟩ 7) (pagingWorld_serves none)
    (by decide) (by decide) (by decide) (by decide)

end Scan

end EpicWallet
