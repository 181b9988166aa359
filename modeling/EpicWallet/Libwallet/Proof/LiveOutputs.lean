import EpicWallet.Lib.Triple
import EpicWallet.Libwallet.Proof.Height
import EpicWallet.Libwallet.Proof.Restore

/-!
# Outputs the node lists

What a refresh does to outputs whose commitment is in the node's UTXO set. It asks about the outputs of
one account, by commitment, and marks as spent only what it asked about and the node does not list. The
cleaning step then deletes under the key of every old unconfirmed coinbase output in the store, of
whatever account. `ShieldsLive` says when nothing listed is lost that way.
-/

namespace EpicWallet

open Lib WalletBackend

/-! ## Rows under their keys -/

theorem keyed_frees : Frees (Prog.Inv fun w => Keyed w.db) allRows where
  aside _ w' h hw := by
    show Keyed w'.db
    rw [h.db]
    exact hw
  files _ _ hw := hw
  puts k _ v hv w hw := by
    unfold put
    split
    · intro id m o ho
      dsimp only at ho
      rw [Rows.get_put] at ho
      split at ho
      · subst k
        cases ho
        exact hv
      · exact hw id m o ho
    · exact hw
  erases k _ w hw id m o ho := by
    have ho' : (w.db.erase k).get (.output id m) = some (.outputData o) := ho
    rw [Rows.get_erase] at ho'
    split at ho'
    · cases ho'
    · exact hw id m o ho'

theorem Keyed.stored {d : Rows Key Serializable} (h : Keyed d) {o : OutputData} (ho : o ∈ outputsOf d) :
    d.get (.output o.keyId o.mmrIndex) = some (.outputData o) := by
  obtain ⟨id, m, hg⟩ := mem_outputsOf.1 ho
  obtain ⟨rfl, rfl⟩ := h id m o hg
  exact hg

/-- In every run, every output is stored under the key it names. -/
theorem Op.keyed_of_run (W : World) (k : Keychain) (checksum : Nat) (status : WalletInitStatus)
    (ops : List Op) : Keyed (runAll W ops (Op.created k checksum status)).db := by
  have hstep : ∀ (op : Op) (w : Wallet), True → Keyed w.db → Keyed (op.run W w).db := fun op w _ hw =>
    op.prog_keeps W keyed_frees (fun _ _ h => h) w hw
  refine runAll_of_steps (I := fun w => Keyed w.db) hstep (fun _ _ => trivial) fun id m o ho => ?_
  rcases created_get ho with h | h <;> cases h

/-! ## Commitments -/

section
variable (W : World)

/-- The commitment of an output, from its cache or from the wallet's keychain. -/
def outputCommit (w : Wallet) (mask : Option SecretKey) (o : OutputData) : Option Commitment :=
  match o.commit with
  | some c => W.commitmentFromHex c
  | none => do
    let k ← (unmasked W w mask).toOption
    (W.commit k o.value o.keyId .regular).toOption

/-- What the node lists of what it is asked for is what is in its UTXO set. -/
def ConsistentAt (utxo : Commitment → Prop) (tick : Nat) : Prop :=
  ∀ cs api, W.outputsFromNode tick cs = .ok api → ∀ c ∈ cs,
    ((api.lookup c).isSome = true ↔ utxo c)

variable (utxo : Commitment → Prop) (mask : Option SecretKey) (w : Wallet)

/-- The commitment of the output is in the UTXO set. -/
def OutputData.Live (o : OutputData) : Prop := ∃ c, outputCommit W w mask o = some c ∧ utxo c

/-- Every live output is still stored as it was, but for status, height and entry, and not newly spent. -/
def SparesLive (w' : Wallet) : Prop :=
  ∀ id m o, w.db.get (.output id m) = some (.outputData o) → o.Live W utxo mask w →
    ∃ o', w'.db.get (.output id m) = some (.outputData o') ∧
      o' = { o with status := o'.status, height := o'.height, txLogEntry := o'.txLogEntry } ∧
        (o'.status = .spent → o.status = .spent)

/-- The output the refresh of an account asks about under a commitment: of several the last. -/
def askedFor (p : Identifier) (c : Commitment) : Option OutputData :=
  ((outputsOf w.db).filter fun o => o.rootKeyId = p ∧ o.status ≠ .spent ∧
    outputCommit W w mask o = some c).getLast?

/-- The refresh asks about the output, and the node lists it. -/
def Listed (p : Identifier) (o : OutputData) : Prop :=
  ∃ c, utxo c ∧ askedFor W mask w p c = some o

/-- No live output is stored without MMR index under the key of an old unconfirmed coinbase output,
unless the node lists that one and its answer is applied. -/
def ShieldsLive (p : Identifier) (height : Nat) : Prop :=
  ∀ s ∈ outputsOf w.db, Updater.staleCoinbase height s = true →
    ∀ o, w.db.get (.output s.keyId none) = some (.outputData o) → o.Live W utxo mask w →
      Listed W utxo mask w p s ∧ confirmedHeight w w.parentKeyId ≤ height

end

namespace Updater

variable {W : World} {utxo : Commitment → Prop} {mask : Option SecretKey} {w : Wallet}

theorem commitOf_ok {k : Keychain} (hk : unmasked W w mask = .ok k) {o : OutputData} {c : Commitment}
    {s t : Wallet} (h : commitOf W k o s = (.ok c, t)) : outputCommit W w mask o = some c := by
  unfold commitOf at h
  unfold outputCommit
  rcases hc : o.commit with _ | hex
  · rw [hc] at h
    obtain ⟨hcommit, -⟩ := Prog.ofExcept_eq_ok.1 (Prog.orPanic_eq_ok.1 h)
    simp [hk, hcommit, Except.toOption]
  · rw [hc] at h
    exact (Prog.unwrap_eq_ok.1 h).1

/-- The outputs gathered by commitment: the last of each. -/
theorem gather_get {k : Keychain} (hk : unmasked W w mask = .ok k) :
    ∀ {l : List OutputData} {r r' : Rows Commitment (Identifier × Option Nat)} {s t : Wallet},
      (l.foldlM (fun (r : Rows Commitment (Identifier × Option Nat)) out => do
        let commit ← commitOf W k out
        pure (r.put commit (out.keyId, out.mmrIndex))) r :
          WalletM (Rows Commitment (Identifier × Option Nat))) s = (.ok r', t) →
      ∀ c, r'.get c = ((l.filter fun o => outputCommit W w mask o = some c).getLast?.map
        fun o => (o.keyId, o.mmrIndex)).or (r.get c)
  | [], r, r', s, t, h, c => by
    cases h
    rfl
  | o :: l, r, r', s, t, h, c => by
    rw [List.foldlM_cons] at h
    obtain ⟨r₁, s₁, hround, hrest⟩ := Prog.bind_ok.1 h
    obtain ⟨c', s₂, hcommit, hput⟩ := Prog.bind_ok.1 hround
    cases hput
    have ho := commitOf_ok hk hcommit
    rw [gather_get hk hrest c, List.filter_cons, Rows.get_put]
    by_cases hc : c = c'
    · subst hc
      rw [if_pos rfl, if_pos (decide_eq_true ho), List.getLast?_cons]
      rcases (l.filter fun o => decide (outputCommit W w mask o = some c)).getLast? with _ | o' <;> rfl
    · have hne : ¬outputCommit W w mask o = some c := fun he =>
        hc (Option.some.inj (he.symm.trans ho))
      rw [if_neg hc, if_neg (by simpa using hne)]

/-- What is asked about. -/
theorem mapWalletOutputs_ok {p : Identifier} {r : Rows Commitment (Identifier × Option Nat)}
    {t : Wallet} (h : mapWalletOutputs W mask p w = (.ok r, t)) (c : Commitment) :
    r.get c = (askedFor W mask w p c).map fun o => (o.keyId, o.mmrIndex) := by
  obtain ⟨k, w₁, hkey, hrest⟩ := Prog.bind_ok.1 h
  obtain ⟨hk, rfl⟩ := (keychain_ok W).1 hkey
  rw [Prog.bind_of_ok (rows_apply _)] at hrest
  rw [gather_get hk hrest c, Rows.get_empty, Option.or_none, List.filter_filter]
  unfold askedFor
  congr 3
  funext o
  simp only [Bool.decide_and]
  grind

/-! ## One round of the loop -/

/-- The output after a round: confirmed at some height if the node lists it, else marked spent. -/
def Applied (listed : Bool) (o o' : OutputData) : Prop :=
  if listed then
    o' = { o with status := o.markUnspent.status, height := o'.height, txLogEntry := o'.txLogEntry }
  else o' = o.markSpent

/-- What a round may write: entries, and the output asked about. -/
def RoundRow (d : Rows Key Serializable) (listed : Bool) (id : Identifier) (m : Option Nat) (k : Key)
    (v : Option Serializable) : Prop :=
  k.kind ∈ [RowKind.entry, .logId] ∨ k = .output id m ∧ ∃ o o',
    d.get (.output id m) = some (.outputData o) ∧ v = some (.outputData o') ∧ Applied listed o o'

theorem roundRow_frees {d : Rows Key Serializable} {listed : Bool} {id : Identifier} {m : Option Nat} :
    Frees (Writes (RoundRow d listed id m)) [.entry, .logId] where
  aside _ _ h := ⟨fun _ _ => .inl (by rw [h.db]), by rw [h], by rw [h], by rw [h]⟩
  files _ _ := ⟨fun _ _ => .inl rfl, rfl, rfl, rfl⟩
  puts _ hk _ _ := put_writes (.inl hk)
  erases _ hk := deleteRow_writes (.inl hk)

variable (W) in
theorem confirmOutput_applied {p : Identifier} {height onChain : Nat} {c : Commitment}
    {o o' : OutputData} {s t : Wallet} (h : confirmOutput W p height onChain c o s = (.ok o', t)) :
    Applied true o o' := by
  obtain ⟨o₁, s₁, h₁, hrest⟩ := Prog.bind_ok.1 h
  obtain ⟨⟨⟩, s₂, -, hpure⟩ := Prog.bind_ok.1 hrest
  cases hpure
  obtain ⟨e, rfl⟩ : ∃ e, o₁ = { o with txLogEntry := e } := by
    split at h₁
    · obtain ⟨logId, _, -, g₁⟩ := Prog.bind_ok.1 h₁
      obtain ⟨_, _, -, g₂⟩ := Prog.bind_ok.1 g₁
      obtain ⟨_, _, -, g₃⟩ := Prog.bind_ok.1 g₂
      obtain ⟨_, _, -, g₄⟩ := Prog.bind_ok.1 g₃
      obtain ⟨_, _, -, g₅⟩ := Prog.bind_ok.1 g₄
      obtain ⟨⟨⟩, _, -, g₆⟩ := Prog.bind_ok.1 g₅
      cases g₆
      exact ⟨_, rfl⟩
    · cases h₁
      exact ⟨_, rfl⟩
  rcases o with ⟨_, _, _, _, _, _, _ | _ | _ | _ | _, _, _, _, _⟩ <;> rfl

/-- A round writes what its output becomes, whatever its outcome. -/
theorem applyApiOutput_writes {api : List (Commitment × String × Nat × Nat)} {height : Nat}
    {p : Identifier} {c : Commitment} {id : Identifier} {m : Option Nat} {s : Wallet}
    (hs : Keyed s.db) : Writes (RoundRow s.db (api.lookup c).isSome id m) s
      (applyApiOutput W api height p (c, id, m) s).2 := by
  refine Prog.rel_bind ((getOutput_reads id m).keeps.attempt s) fun r s₁ hr => ?_
  obtain rfl := (Prog.Keeps.attempt (getOutput_reads id m)).rel hr
  rcases r with e | o
  · exact Std.Refl.refl s
  have hrow : s.db.get (.output id m) = some (.outputData o) := by
    unfold Prog.attempt at hr
    rcases hg : getOutput id m s with ⟨(_ | _) | o', s'⟩ <;> rw [hg] at hr <;> cases hr
    exact (getOutput_ok.1 hg).1
  obtain ⟨hid, hm⟩ := hs id m o hrow
  have hsave : ∀ {o' : OutputData}, Applied (api.lookup c).isSome o o' → o'.keyId = id →
      o'.mmrIndex = m → Prog.Keeps (Writes (RoundRow s.db (api.lookup c).isSome id m))
        (Batch.save o') := by
    intro o' happ hid' hm'
    refine Batch.save_writes (.inr ⟨by rw [hid', hm'], o, o', hrow, rfl, happ⟩)
  dsimp only
  rcases hl : api.lookup c with _ | a
  · have hspent := OutputData.markSpent_eq o
    refine Prog.rel_bind (Std.Refl.refl s) fun o' s' ho' => ?_
    cases ho'
    rw [hl] at hsave
    exact hsave rfl (by rw [hspent]; exact hid) (by rw [hspent]; exact hm) s
  · refine Prog.rel_bind (confirmOutput_keeps roundRow_frees W (by decide) (by decide) _ _ _ _ _ s)
      fun o' s' ho' => ?_
    have happ := confirmOutput_applied W ho'
    rw [hl] at hsave
    refine hsave happ ?_ ?_ s'
    · unfold Applied at happ
      rw [happ]
      exact hid
    · unfold Applied at happ
      rw [happ]
      exact hm

/-- A round that returned has written what its output becomes. -/
theorem applyApiOutput_ok {api : List (Commitment × String × Nat × Nat)} {height : Nat}
    {p : Identifier} {c : Commitment} {id : Identifier} {m : Option Nat} {o : OutputData} {s t : Wallet}
    (hs : Keyed s.db) (ho : s.db.get (.output id m) = some (.outputData o))
    (h : applyApiOutput W api height p (c, id, m) s = (.ok (), t)) :
    ∃ o', t.db.get (.output id m) = some (.outputData o') ∧ Applied (api.lookup c).isSome o o' := by
  obtain ⟨hid, hm⟩ := hs id m o ho
  obtain ⟨r, s₁, hr, hrest⟩ := Prog.bind_ok.1 h
  have hget : Prog.attempt (getOutput id m) s = (.ok (.ok o), s) := by
    unfold Prog.attempt
    rw [getOutput_ok.2 ⟨ho, rfl⟩]
  rw [hget] at hr
  cases hr
  dsimp only at hrest
  rcases hl : api.lookup c with _ | a
  · rw [hl] at hrest
    obtain ⟨o', s₂, ho', hsave⟩ := Prog.bind_ok.1 hrest
    cases ho'
    have hspent := OutputData.markSpent_eq o
    have hset := (Batch.save_ok hsave).get_self
    rw [show o.markSpent.keyId = id by rw [hspent]; exact hid,
      show o.markSpent.mmrIndex = m by rw [hspent]; exact hm] at hset
    exact ⟨_, hset, rfl⟩
  · rw [hl] at hrest
    obtain ⟨o', s₂, ho', hsave⟩ := Prog.bind_ok.1 hrest
    have happ := confirmOutput_applied W ho'
    have hset := (Batch.save_ok hsave).get_self
    unfold Applied at happ
    rw [show o'.keyId = id by rw [happ]; exact hid,
      show o'.mmrIndex = m by rw [happ]; exact hm] at hset
    exact ⟨_, hset, happ⟩

theorem markUnspent_status (o : OutputData) :
    o.markUnspent.status = if o.status = .unconfirmed then .unspent else o.status := by
  rcases o with ⟨_, _, _, _, _, _, _ | _ | _ | _ | _, _, _, _, _⟩ <;> rfl

theorem markSpent_status (o : OutputData) : o.markSpent.status =
    if o.status = .unspent ∨ o.status = .locked then .spent else o.status := by
  rcases o with ⟨_, _, _, _, _, _, _ | _ | _ | _ | _, _, _, _, _⟩ <;> rfl

/-- No round makes an output unconfirmed. -/
theorem Applied.settled {listed : Bool} {o o' : OutputData} (h : Applied listed o o')
    (ho : listed = true ∨ o.status ≠ .unconfirmed) : o'.status ≠ .unconfirmed := by
  unfold Applied at h
  split at h
  · rw [h]
    show o.markUnspent.status ≠ _
    rw [markUnspent_status]
    split
    · decide
    · exact ‹¬_›
  · rw [h, markSpent_status]
    split
    · decide
    · exact ho.resolve_left ‹¬_›

theorem Applied.same {listed : Bool} {o o' : OutputData} (h : Applied listed o o') :
    o' = { o with status := o'.status, height := o'.height, txLogEntry := o'.txLogEntry } := by
  unfold Applied at h
  split at h
  · rw [h]
  · rw [h, OutputData.markSpent_eq]

/-- An output the node lists is not marked spent. -/
theorem Applied.spent {listed : Bool} {o o' : OutputData} (h : Applied listed o o')
    (hl : listed = true) (ho : o'.status = .spent) : o.status = .spent := by
  unfold Applied at h
  rw [if_pos hl] at h
  rw [h] at ho
  change o.markUnspent.status = .spent at ho
  rw [markUnspent_status] at ho
  split at ho
  · cases ho
  · exact ho

/-! ## The loop -/

variable (W utxo mask w) in
/-- What a refresh of account `p` made of an output it wrote. -/
structure CoinKept (p : Identifier) (o o' : OutputData) : Prop where
  same : o' = { o with status := o'.status, height := o'.height, txLogEntry := o'.txLogEntry }
  live : o.Live W utxo mask w → o'.status = .spent → o.status = .spent
  settled : o'.status ≠ .unconfirmed
  listed : o.status = .unconfirmed → Listed W utxo mask w p o

variable (W utxo mask w) in
/-- The outputs are as they were, or as the refresh leaves them. -/
structure LoopInv (p : Identifier) (s : Wallet) : Prop where
  keyed : Keyed s.db
  rows : ∀ id m, s.db.get (.output id m) = w.db.get (.output id m) ∨
    ∃ o o', w.db.get (.output id m) = some (.outputData o) ∧
      s.db.get (.output id m) = some (.outputData o') ∧ CoinKept W utxo mask w p o o'

/-- A row of the map is of an output stored under its key. -/
theorem askedFor_stored (hw : Keyed w.db) {p : Identifier} {c : Commitment} {o : OutputData}
    (h : askedFor W mask w p c = some o) : w.db.get (.output o.keyId o.mmrIndex) =
      some (.outputData o) ∧ outputCommit W w mask o = some c := by
  have hmem := List.mem_of_getLast? h
  obtain ⟨ho, hcond⟩ := List.mem_filter.1 hmem
  exact ⟨hw.stored ho, (of_decide_eq_true hcond).2.2⟩

/-- One round keeps the invariant: the output it writes is live only if the node lists it. -/
theorem LoopInv.round {p : Identifier} {listed : Bool} {c : Commitment} {o₀ : OutputData}
    {s t : Wallet} (hw : Keyed w.db) (hasked : askedFor W mask w p c = some o₀)
    (hl : listed = true ↔ utxo c) (h : LoopInv W utxo mask w p s) (ht : Keyed t.db)
    (hwrites : Writes (RoundRow s.db listed o₀.keyId o₀.mmrIndex) s t) :
    LoopInv W utxo mask w p t := by
  obtain ⟨hrow₀, hcommit⟩ := askedFor_stored hw hasked
  refine ⟨ht, fun id m => ?_⟩
  rcases hwrites.db (.output id m) rfl with hsame | hk | ⟨hkey, o, o', ho, ho', happ⟩
  · rw [hsame]
    exact h.rows id m
  · simp [Key.kind] at hk
  cases hkey
  -- a live output under this commitment is listed
  have hlive : o₀.Live W utxo mask w → listed = true := by
    rintro ⟨c', hc', hu⟩
    rw [hcommit] at hc'
    cases hc'
    exact hl.2 hu
  have hlisted : listed = true → Listed W utxo mask w p o₀ := fun h => ⟨c, hl.1 h, hasked⟩
  rcases h.rows o₀.keyId o₀.mmrIndex with hsame | ⟨o₁, o₂, ho₁, ho₂, hkept⟩
  · rw [hsame, hrow₀] at ho
    cases ho
    by_cases hun : listed = true ∨ o₀.status ≠ .unconfirmed
    · refine .inr ⟨o₀, o', hrow₀, ho', happ.same, fun hv => happ.spent (hlive hv), happ.settled hun,
        fun hs => hlisted (hun.resolve_right fun hn => hn hs)⟩
    · -- an unconfirmed output that is not listed is written back as it was
      obtain ⟨hnl, hs⟩ := not_or.1 hun
      left
      unfold Applied at happ
      rw [if_neg hnl] at happ
      rw [ho', hrow₀, happ]
      unfold OutputData.markSpent
      rw [not_not.1 hs]
  · rw [hrow₀] at ho₁
    cases ho₁
    rw [ho₂] at ho
    cases ho
    refine .inr ⟨o₀, o', hrow₀, ho', ?_, fun hv hs => ?_, happ.settled (.inr hkept.settled), hkept.listed⟩
    · rw [happ.same, hkept.same]
    · exact hkept.live hv (happ.spent (hlive hv) hs)

theorem loopInv_frees {p : Identifier} :
    Frees (Prog.Inv (LoopInv W utxo mask w p)) [.height] := by
  have hrows : ∀ {s t : Wallet}, Touches [.height] s t → LoopInv W utxo mask w p s →
      LoopInv W utxo mask w p t := by
    refine fun ht h => ⟨fun id m o ho => h.keyed id m o ?_, fun id m => ?_⟩
    · rw [← ho, ht (.output id m) (by simp [Key.kind])]
    · rw [ht (.output id m) (by simp [Key.kind])]
      exact h.rows id m
  have hF := touches_frees [.height]
  exact ⟨fun _ _ h => hrows (hF.aside _ _ h), fun _ _ => hrows (hF.files _ _),
    fun k hk v hv w => hrows (hF.puts k hk v hv w), fun k hk w => hrows (hF.erases k hk w)⟩

/-- What an applied answer leaves: the outputs as the invariant says, and what is listed confirmed. -/
theorem applyApiOutputs_kept {p : Identifier} {height : Nat}
    {r : Rows Commitment (Identifier × Option Nat)} {api : List (Commitment × String × Nat × Nat)}
    {s : Wallet} (hw : Keyed w.db) (hdb : s.db = w.db)
    (hr : ∀ c, r.get c = (askedFor W mask w p c).map fun o => (o.keyId, o.mmrIndex))
    (hapi : ∀ c o, askedFor W mask w p c = some o → ((api.lookup c).isSome = true ↔ utxo c)) :
    LoopInv W utxo mask w p (applyApiOutputs W mask r api height p s).2 ∧
      ∀ t, applyApiOutputs W mask r api height p s = (.ok (), t) →
        confirmedHeight s s.parentKeyId ≤ height →
          ∀ o o', Listed W utxo mask w p o →
            t.db.get (.output o.keyId o.mmrIndex) = some (.outputData o') → o'.status ≠ .unconfirmed := by
  have hinit : ∀ {s' : Wallet}, s'.db = w.db → LoopInv W utxo mask w p s' := fun hs' =>
    ⟨hs' ▸ hw, fun id m => .inl (by rw [hs'])⟩
  have hrow : ∀ {tick : Nat} {b : Commitment × Identifier × Option Nat}, b ∈ W.mapOrder tick r.toList →
      ∃ o, askedFor W mask w p b.1 = some o ∧ b.2 = (o.keyId, o.mmrIndex) := by
    intro tick b hb
    have hg := Rows.mem_iff.1 ((W.mapOrder_perm tick r.toList).mem_iff.1 hb)
    rw [hr] at hg
    obtain ⟨o, ho, hk⟩ := Option.map_eq_some_iff.1 hg
    exact ⟨o, ho, hk.symm⟩
  have hround : ∀ {tick : Nat} {b : Commitment × Identifier × Option Nat} {s' : Wallet},
      b ∈ W.mapOrder tick r.toList → LoopInv W utxo mask w p s' →
        LoopInv W utxo mask w p (applyApiOutput W api height p b s').2 := by
    rintro tick ⟨c, id, m⟩ s' hb h
    obtain ⟨o, hasked, hk⟩ := hrow hb
    cases hk
    refine h.round hw hasked (hapi c o hasked) ?_ (applyApiOutput_writes h.keyed)
    exact applyApiOutput_keeps keyed_frees W (mem_allRows _) (mem_allRows _) (mem_allRows _)
      (mem_allRows _) _ _ _ _ s' h.keyed
  have hF : Frees (Prog.Inv (LoopInv W utxo mask w p)) [.height] := loopInv_frees
  constructor
  · refine Prog.Triple.state (P := LoopInv W utxo mask w p) (Q := fun _ => LoopInv W utxo mask w p)
      (E := LoopInv W utxo mask w p) ?_ (fun _ _ h => h) (fun _ h => h) (hinit hdb)
    refine Prog.Triple.bind (Prog.triple_inv.2 lastConfirmedHeight_reads.keeps) fun _ =>
      .ite (fun _ => .pure fun _ h => h) fun _ => ?_
    refine Prog.Triple.bind (Prog.triple_inv.2 (batch_reads W mask).keeps) fun _ =>
      Prog.Triple.bind (Prog.triple_inv.2 hF.nextTick) fun tick => ?_
    refine Prog.Triple.bind (Prog.Triple.forEach fun b hb => Prog.triple_state fun s' h =>
      hround hb h) fun _ => ?_
    exact Prog.triple_inv.2 ((Batch.saveLastConfirmedHeight_keeps hF (by decide) _ _).bind
      fun _ => .pure _)
  · intro t h hle o o' ⟨c, hu, hasked⟩ ho' hun
    obtain ⟨last, s₁, hlast, h₁⟩ := Prog.bind_ok.1 h
    cases hlast
    have hnot : ¬height < numericOf s.db (.confirmedHeight s.parentKeyId) := Nat.not_lt.2 hle
    rw [if_neg hnot] at h₁
    obtain ⟨b, s₂, hb, h₂⟩ := Prog.bind_ok.1 h₁
    obtain rfl := (batch_reads W mask).eq hb
    obtain ⟨tick, s₃, htick, h₃⟩ := Prog.bind_ok.1 h₂
    cases htick
    obtain ⟨⟨⟩, s₄, hloop, h₄⟩ := Prog.bind_ok.1 h₃
    have hstart : LoopInv W utxo mask w p { s₂ with tick := s₂.tick + 1 } := hinit hdb
    -- a round confirms its output if it is listed, and no round undoes that
    have hdone := Prog.forEach_established (P := LoopInv W utxo mask w p)
      (Q := fun (b : Commitment × Identifier × Option Nat) s' => utxo b.1 →
        ∀ o', s'.db.get (.output b.2.1 b.2.2) = some (.outputData o') → o'.status ≠ .unconfirmed) (fun b hb s₅ t₅ hs₅ hrun => ?_) hstart hloop
    · have hmem : (c, o.keyId, o.mmrIndex) ∈ W.mapOrder s₂.tick r.toList := by
        refine (W.mapOrder_perm _ _).mem_iff.2 (Rows.mem_iff.2 ?_)
        rw [hr, hasked]
        rfl
      refine hdone.2.1 _ hmem hu o' ?_ hun
      obtain ⟨⟨⟩, s₅, hheight, hcommit⟩ := Prog.bind_ok.1 h₄
      cases hcommit
      rw [← ho']
      exact ((put_sets hheight).get_ne _ (by simp) rfl).symm
    · obtain ⟨c', id, m⟩ := b
      obtain ⟨o₁, hasked₁, hk⟩ := hrow hb
      cases hk
      have ht := hround hb hs₅
      have hwrites : Writes (RoundRow s₅.db (api.lookup c').isSome o₁.keyId o₁.mmrIndex) s₅
          (applyApiOutput W api height p (c', o₁.keyId, o₁.mmrIndex) s₅).2 :=
        applyApiOutput_writes hs₅.keyed
      rw [hrun] at ht hwrites
      refine ⟨ht, fun hu' o₂ ho₂ => ?_, fun c₂ hq hu₂ o₂ ho₂ => ?_⟩
      · rcases hs₅.rows o₁.keyId o₁.mmrIndex with hsame | ⟨_, o₃, -, ho₃, -⟩
        · obtain ⟨o₄, ho₄, happ⟩ := applyApiOutput_ok hs₅.keyed
            (hsame.trans (askedFor_stored hw hasked₁).1) hrun
          rw [ho₂] at ho₄
          cases ho₄
          exact happ.settled (.inl ((hapi _ _ hasked₁).2 hu'))
        · obtain ⟨o₄, ho₄, happ⟩ := applyApiOutput_ok hs₅.keyed ho₃ hrun
          rw [ho₂] at ho₄
          cases ho₄
          exact happ.settled (.inl ((hapi _ _ hasked₁).2 hu'))
      · rcases hwrites.db (.output c₂.2.1 c₂.2.2) rfl with hsame | hk | ⟨hkey, o₃, o₄, ho₃, ho₄, happ⟩
        · rw [hsame] at ho₂
          exact hq hu₂ o₂ ho₂
        · simp [Key.kind] at hk
        · rw [ho₂] at ho₄
          cases ho₄
          rw [← hkey] at ho₃
          exact happ.settled (.inr (hq hu₂ o₃ ho₃))

/-! ## The cleaning step -/

variable (W utxo mask w) in
/-- What the cleaning step finds: the outputs as the loop leaves them, those listed confirmed, and all as
they were if the node was behind. -/
structure Ready (p : Identifier) (height : Nat) (s : Wallet) : Prop where
  inv : LoopInv W utxo mask w p s
  confirmed : confirmedHeight w w.parentKeyId ≤ height → ∀ o o', Listed W utxo mask w p o →
    s.db.get (.output o.keyId o.mmrIndex) = some (.outputData o') → o'.status ≠ .unconfirmed
  behind : height < confirmedHeight w w.parentKeyId → ∀ id m,
    s.db.get (.output id m) = w.db.get (.output id m)

theorem staleCoinbase_status {height : Nat} {o : OutputData} (h : staleCoinbase height o = true) :
    o.status = .unconfirmed := by
  unfold staleCoinbase at h
  simp only [Bool.and_eq_true, decide_eq_true_eq] at h
  exact h.1.1.1

/-- What is cleaned was there before the refresh, and not confirmed by it. -/
theorem Ready.stale {p : Identifier} {height : Nat} {s : Wallet} (h : Ready W utxo mask w p height s)
    {o : OutputData} (ho : o ∈ outputsOf s.db) (hs : staleCoinbase height o = true) :
    o ∈ outputsOf w.db ∧ ¬(Listed W utxo mask w p o ∧ confirmedHeight w w.parentKeyId ≤ height) := by
  have hrow := h.inv.keyed.stored ho
  refine ⟨?_, fun ⟨hlisted, hle⟩ => h.confirmed hle o o hlisted hrow (staleCoinbase_status hs)⟩
  rcases h.inv.rows o.keyId o.mmrIndex with hsame | ⟨_, o', -, ho', hkept⟩
  · exact mem_outputsOf.2 ⟨_, _, hsame.symm.trans hrow⟩
  · rw [hrow] at ho'
    cases ho'
    exact absurd (staleCoinbase_status hs) hkept.settled

/-- What was not confirmed is still there for the cleaning. -/
theorem Ready.unlisted (hw : Keyed w.db) {p : Identifier} {height : Nat} {s : Wallet}
    (h : Ready W utxo mask w p height s) {o : OutputData} (ho : o ∈ outputsOf w.db)
    (hs : o.status = .unconfirmed)
    (hn : ¬(Listed W utxo mask w p o ∧ confirmedHeight w w.parentKeyId ≤ height)) :
    o ∈ outputsOf s.db := by
  have hrow := hw.stored ho
  suffices hsame : s.db.get (.output o.keyId o.mmrIndex) = w.db.get (.output o.keyId o.mmrIndex) from
    mem_outputsOf.2 ⟨_, _, hsame.trans hrow⟩
  by_cases hle : confirmedHeight w w.parentKeyId ≤ height
  · rcases h.inv.rows o.keyId o.mmrIndex with hsame | ⟨o₁, _, ho₁, -, hkept⟩
    · exact hsame
    · rw [hrow] at ho₁
      cases ho₁
      exact absurd ⟨hkept.listed hs, hle⟩ hn
  · exact h.behind (Nat.lt_of_not_le hle) _ _

/-- The cleaning deletes under the keys of old unconfirmed coinbase outputs only. -/
theorem cleanOldUnconfirmed_writes (height : Nat) (s : Wallet) :
    Writes (fun k v => ∃ o ∈ outputsOf s.db, staleCoinbase height o = true ∧ k = .output o.keyId none ∧
      v = none) s (cleanOldUnconfirmed W mask height s).2 := by
  unfold cleanOldUnconfirmed
  split
  · exact Std.Refl.refl s
  refine Prog.rel_bind (Std.Refl.refl s) fun l s₁ hl => ?_
  cases hl
  refine Prog.rel_bind ((batch_reads W mask).keeps s) fun b s₂ hb => ?_
  obtain rfl := (batch_reads W mask).eq hb
  refine (Prog.Keeps.bind (Prog.Keeps.forEach _ fun id hid => Batch.delete_writes ?_) fun _ =>
    .pure _) s₂
  obtain ⟨o, ho, rfl⟩ := List.mem_map.1 hid
  obtain ⟨ho, hs⟩ := List.mem_filter.1 ho
  exact ⟨o, ho, hs, rfl, rfl⟩

/-- A cleaning that returned has deleted under all those keys. -/
theorem cleanOldUnconfirmed_ok {height : Nat} {s t : Wallet}
    (h : cleanOldUnconfirmed W mask height s = (.ok (), t)) {o : OutputData} (ho : o ∈ outputsOf s.db)
    (hs : staleCoinbase height o = true) : t.db.get (.output o.keyId none) = none := by
  unfold cleanOldUnconfirmed at h
  split at h
  · -- below height 50 nothing is old
    unfold staleCoinbase at hs
    simp only [Bool.and_eq_true, decide_eq_true_eq] at hs
    omega
  obtain ⟨l, s₁, hl, h₁⟩ := Prog.bind_ok.1 h
  cases hl
  obtain ⟨b, s₂, hb, h₂⟩ := Prog.bind_ok.1 h₁
  obtain rfl := (batch_reads W mask).eq hb
  obtain ⟨⟨⟩, s₃, hloop, h₃⟩ := Prog.bind_ok.1 h₂
  cases h₃
  have hdone := Prog.forEach_established (P := fun _ => True)
    (Q := fun (id : Identifier) s' => s'.db.get (.output id none) = none)
    (fun id _ s' t' _ hrun => ⟨trivial, (Batch.delete_ok hrun).get_self, fun id' hnone => ?_⟩)
    trivial hloop
  · exact hdone.2.1 _ (List.mem_map.2 ⟨o, List.mem_filter.2 ⟨ho, hs⟩, rfl⟩)
  · by_cases he : id' = id
    · rw [he]
      exact (Batch.delete_ok hrun).get_self
    · rw [(Batch.delete_ok hrun).get_ne _ (by simpa using he) rfl]
      exact hnone

/-! ## The refresh -/

theorem sparesLive_of_rows {s : Wallet} (h : ∀ id m, s.db.get (.output id m) = w.db.get (.output id m)) :
    SparesLive W utxo mask w s := fun id m o ho _ => ⟨o, (h id m).trans ho, rfl, fun h => h⟩

/-- The loop spares what is live. -/
theorem LoopInv.spares {p : Identifier} {s : Wallet} (h : LoopInv W utxo mask w p s) :
    SparesLive W utxo mask w s := by
  intro id m o ho hlive
  rcases h.rows id m with hsame | ⟨o₁, o', ho₁, ho', hkept⟩
  · exact ⟨o, hsame.trans ho, rfl, fun h => h⟩
  · rw [ho] at ho₁
    cases ho₁
    exact ⟨o', ho', hkept.same, hkept.live hlive⟩

/-- The cleaning spares what is live if it is shielded. -/
theorem Ready.clean_spares {p : Identifier} {height : Nat} {s : Wallet}
    (h : Ready W utxo mask w p height s) (hshield : ShieldsLive W utxo mask w p height) :
    SparesLive W utxo mask w (cleanOldUnconfirmed W mask height s).2 := by
  intro id m o ho hlive
  obtain ⟨o', ho', hsame, hspent⟩ := h.inv.spares id m o ho hlive
  refine ⟨o', ?_, hsame, hspent⟩
  rcases (cleanOldUnconfirmed_writes height s).db (.output id m) rfl with hrow | ⟨c, hc, hs, hk, -⟩
  · rw [hrow]
    exact ho'
  · cases hk
    obtain ⟨hcw, hn⟩ := h.stale hc hs
    exact absurd (hshield c hcw hs o ho hlive) hn

/-- A cleaning that returned and spared what is live found it shielded. -/
theorem Ready.shields (hw : Keyed w.db) {p : Identifier} {height : Nat} {s t : Wallet}
    (h : Ready W utxo mask w p height s) (hrun : cleanOldUnconfirmed W mask height s = (.ok (), t))
    (hspares : SparesLive W utxo mask w t) : ShieldsLive W utxo mask w p height := by
  intro c hc hs o ho hlive
  by_contra hn
  obtain ⟨o', ho', -⟩ := hspares _ _ o ho hlive
  rw [cleanOldUnconfirmed_ok hrun (h.unlisted hw hc (staleCoinbase_status hs) hn) hs] at ho'
  cases ho'

variable (mask) in
/-- Up to the cleaning step. -/
theorem refreshOutputState_ready (hw : Keyed w.db) (hnode : ConsistentAt W utxo w.tick)
    (p : Identifier) (height : Nat) :
    (∃ s, Ready W utxo mask w p height s ∧
      refreshOutputState W mask height p w = cleanOldUnconfirmed W mask height s) ∨
    LoopInv W utxo mask w p (refreshOutputState W mask height p w).2 ∧
      (refreshOutputState W mask height p w).1 ≠ .ok () := by
  have hinit : ∀ {s : Wallet}, s.db = w.db → LoopInv W utxo mask w p s := fun hs =>
    ⟨hs ▸ hw, fun id m => .inl (by rw [hs])⟩
  unfold refreshOutputState
  rcases hmap : mapWalletOutputs W mask p w with ⟨e | r, w₁⟩
  · obtain rfl := (mapWalletOutputs_reads W mask p).eq hmap
    rw [Prog.bind_of_error hmap]
    exact .inr ⟨hinit rfl, fun h => by cases h⟩
  have hr := mapWalletOutputs_ok hmap
  obtain rfl := (mapWalletOutputs_reads W mask p).eq hmap
  rw [Prog.bind_of_ok hmap, Prog.bind_of_ok (nextTick_apply w₁)]
  rcases hapi : W.outputsFromNode w₁.tick (W.mapOrder w₁.tick (r.toList.map Prod.fst)) with e | api
  · exact .inr ⟨hinit rfl, fun h => by cases h⟩
  rw [Prog.bind_of_ok (Prog.ofExcept_ok api _)]
  have hasked : ∀ c o, askedFor W mask w₁ p c = some o → ((api.lookup c).isSome = true ↔ utxo c) := by
    intro c o ho
    refine hnode _ _ hapi c
      ((W.mapOrder_perm _ _).mem_iff.2 (List.mem_map.2 ⟨(c, o.keyId, o.mmrIndex), ?_, rfl⟩))
    rw [Rows.mem_iff, hr, ho]
    rfl
  have hdb : ({ w₁ with tick := w₁.tick + 1 } : Wallet).db = w₁.db := rfl
  have hkept := @applyApiOutputs_kept W utxo mask w₁ p height r api _ hw hdb hr hasked
  obtain ⟨hinv, hconfirmed⟩ := hkept
  rcases happ : applyApiOutputs W mask r api height p { w₁ with tick := w₁.tick + 1 } with ⟨e | u, s⟩
  · rw [Prog.bind_of_error happ]
    rw [happ] at hinv
    exact .inr ⟨hinv, fun h => by cases h⟩
  · rw [Prog.bind_of_ok happ]
    rw [happ] at hinv
    refine .inl ⟨s, ⟨hinv, hconfirmed s happ, fun hlt id m => ?_⟩, rfl⟩
    rw [applyApiOutputs_behind W (w := { w₁ with tick := w₁.tick + 1 }) hlt] at happ
    cases happ
    rfl

/-- A refresh spares every output that is in the UTXO set if the cleaning step finds it shielded, and a
refresh that returns only then. -/
theorem refreshOutputState_spares (hw : Keyed w.db) (hnode : ConsistentAt W utxo w.tick)
    (mask : Option SecretKey) (p : Identifier) (height : Nat) :
    (ShieldsLive W utxo mask w p height →
      SparesLive W utxo mask w (refreshOutputState W mask height p w).2) ∧
    ((refreshOutputState W mask height p w).1 = .ok () →
      (SparesLive W utxo mask w (refreshOutputState W mask height p w).2 ↔
        ShieldsLive W utxo mask w p height)) := by
  rcases refreshOutputState_ready mask hw hnode p height with ⟨s, hready, hrun⟩ | ⟨hinv, hne⟩
  · rw [hrun]
    refine ⟨hready.clean_spares, fun hok => ⟨fun hs => ?_, hready.clean_spares⟩⟩
    exact hready.shields hw (Prog.run_eq hok) hs
  · exact ⟨fun _ => hinv.spares, fun hok => absurd hok hne⟩

end Updater

namespace Op

/-! ## A reward of another account -/

/-- The commitment of the reward. -/
def rewardCommit : Commitment := World.smallCommit 16 (.derive 3 1 0 0 0)

/-- The small world with a node whose UTXO set is the reward. -/
def rewardWorld : World :=
  { World.small with
    outputsFromNode := fun _ cs =>
      .ok ((cs.filter (· = rewardCommit)).map fun c => (c, "", 1, 1)) }

theorem consistent_rewardWorld (tick : Nat) : ConsistentAt rewardWorld (· = rewardCommit) tick := by
  intro cs api h c hc
  cases h
  rw [List.lookup_isSome_iff]
  simp only [List.mem_map, List.mem_filter, decide_eq_true_eq, exists_exists_and_eq_and, beq_iff_eq]
  grind

/-- A reward is mined for a second account. -/
def mineForB : List Op :=
  [.createAccountPath none "b", .setActiveAccount "b", .buildCoinbase none ⟨0, 1, none⟩]

def minedForB : Wallet := runAll rewardWorld mineForB (created ⟨7⟩ 7 .initNoScanning)

/-- At height 100 the first account is refreshed: the reward of the second is deleted, although the node
lists it. -/
theorem refresh_deletes_live : ConsistentAt rewardWorld (· = rewardCommit) minedForB.tick ∧
    ¬SparesLive rewardWorld (· = rewardCommit) none minedForB
      (Updater.refreshOutputState rewardWorld none 100 defaultPath minedForB).2 := by
  refine ⟨consistent_rewardWorld _, fun h => ?_⟩
  have hbefore : ∃ o ∈ (minedForB.db.get (.output (.derive 3 1 0 0 0) none)).bind
      Serializable.asOutputData, outputCommit rewardWorld minedForB none o = some rewardCommit := by
    decide
  have hafter : (Updater.refreshOutputState rewardWorld none 100 defaultPath minedForB).2.db.get
      (.output (.derive 3 1 0 0 0) none) = none := by decide
  obtain ⟨o, ho, hcommit⟩ := hbefore
  obtain ⟨v, hv, hov⟩ := Option.bind_eq_some_iff.1 ho
  rw [Serializable.asOutputData_eq.1 hov] at hv
  obtain ⟨o', ho', -⟩ := h _ _ o hv ⟨rewardCommit, hcommit, rfl⟩
  rw [hafter] at ho'
  cases ho'

/-- The refresh of the second account asks about its reward, and confirms it. -/
theorem refresh_spares_own : SparesLive rewardWorld (· = rewardCommit) none minedForB
    (Updater.refreshOutputState rewardWorld none 100 { defaultPath with p0 := 1 } minedForB).2 := by
  have hw : Keyed minedForB.db := keyed_of_run rewardWorld ⟨7⟩ 7 .initNoScanning mineForB
  refine (Updater.refreshOutputState_spares hw (consistent_rewardWorld _) none _ 100).1 ?_
  have hlisted : ∀ s ∈ outputsOf minedForB.db, askedFor rewardWorld none minedForB
      { defaultPath with p0 := 1 } rewardCommit = some s := by decide
  have hheight : confirmedHeight minedForB minedForB.parentKeyId ≤ 100 := by decide
  exact fun s hs _ _ _ _ => ⟨⟨rewardCommit, rfl, hlisted s hs⟩, hheight⟩

end Op

end EpicWallet
