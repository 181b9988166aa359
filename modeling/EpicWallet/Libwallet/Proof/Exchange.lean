import EpicWallet.Libwallet.Proof.Excess

/-!
# An exchange of one slate

A payment is an exchange of one slate between the wallet that pays and the wallet that is paid; they
may be the same. In the send flow the payer starts, in the invoice flow the payee. `Reached` says which
states the wallets can be in, whatever order the parties take their steps in and whatever else any
wallet does between them, as long as it leaves the entries of this slate their side and their excess.

Each party stores the excess of the kernel to look for when it has only part of the transaction or all
of it: `Flow.early` is the side that stores it once the reply is there, the other gets it when the
exchange is finalized.

* `Exchange.Inv`: what holds at each stage.
* `Exchange.excess_of_reached`: after the exchange both sides look for the finalized kernel.
-/

namespace EpicWallet

open Lib WalletBackend

/-- Every entry is stored under its own account and number, and the number was handed out. -/
def Numbered (d : Rows Key Serializable) : Prop :=
  ∀ p n t, entryAt d p n = some t → t.parentKeyId = p ∧ t.id = n ∧ n < logCounter d p

theorem Numbered.logOk {d : Rows Key Serializable} (h : Numbered d) (κ : Policy) : LogOk κ d where
  keyed ht := ⟨(h _ _ _ ht).1, (h _ _ _ ht).2.1⟩
  below _ _ _ _ ht := (h _ _ _ ht).2.2

/-- `Numbered` of one row. -/
def numberedRow (d : Rows Key Serializable) : Key × Serializable → Bool
  | (.txLogEntry p n, .txLogEntry t) => t.parentKeyId = p ∧ t.id = n ∧ n < logCounter d p
  | _ => true

instance (d : Rows Key Serializable) : Decidable (Numbered d) :=
  decidable_of_iff (∀ r ∈ d.toList, numberedRow d r = true) <| by
    constructor
    · intro h p n t ht
      have hr := h _ (Rows.mem_iff.2 (entryAt_eq.1 ht))
      simpa [numberedRow] using hr
    · rintro h ⟨k, v⟩ hr
      unfold numberedRow
      split
      · next p n t heq =>
        cases heq
        simpa using h p n t (entryAt_eq.2 (Rows.mem_iff.1 hr))
      · rfl

/-- No entry of the log is of the slate. -/
def Unused (d : Rows Key Serializable) (id : Uuid) : Prop := ∀ t ∈ txLogOf d, t.txSlateId ≠ some id

instance (d : Rows Key Serializable) (id : Uuid) : Decidable (Unused d id) :=
  inferInstanceAs (Decidable (∀ _ ∈ _, _))

theorem Unused.markAt {d : Rows Key Serializable} {id : Uuid} (h : Unused d id) (p : Identifier)
    (n : Nat) : markAt id d p n = none := by
  rcases hm : EpicWallet.markAt id d p n with _ | m
  · rfl
  · obtain ⟨t, ht, hid, -⟩ := markAt_eq_some.1 hm
    exact absurd hid (h t (mem_txLogOf_iff.2 ⟨p, n, ht⟩))

/-- Who starts the exchange: the payer by a send, the payee by an invoice. -/
inductive Flow where
  | send
  | invoice
deriving DecidableEq

/-- The side whose entry is made from the whole transaction: `false` the payee, `true` the payer. -/
def Flow.early : Flow → Bool
  | .send => false
  | .invoice => true

/-- What was exchanged so far: the slate of the party that started, the reply, whether the payer locked
its inputs, and the finalized slate. -/
structure Exchange where
  offer : Slate
  reply : Option Slate
  locked : Bool
  final : Option Slate

namespace Exchange

variable {ι : Type} [DecidableEq ι]

/-- The states of the wallets during an exchange under a new slate id. Slates are passed on
unmodified; the payer may lock before or after the reply. -/
inductive Reached (W : ι → World) (payer payee : ι) : Flow → (ι → Wallet) → Exchange → Prop where
  | initSendTx {x : ι → Wallet} {mask : Option SecretKey} {args : InitTxArgs} {s : Slate} {w : Wallet}
      (hlog : ∀ i, Numbered (x i).db) (hnew : ∀ i, Unused (x i).db s.id)
      (hargs : args.estimateOnly ≠ some true)
      (h : Owner.initSendTx (W payer) mask args (x payer) = (.ok s, w)) :
      Reached W payer payee .send (Function.update x payer w) ⟨s, none, false, none⟩
  | issueInvoiceTx {x : ι → Wallet} {mask : Option SecretKey} {args : IssueInvoiceTxArgs} {s : Slate}
      {w : Wallet} (hlog : ∀ i, Numbered (x i).db) (hnew : ∀ i, Unused (x i).db s.id)
      (h : Owner.issueInvoiceTx (W payee) mask args (x payee) = (.ok s, w)) :
      Reached W payer payee .invoice (Function.update x payee w) ⟨s, none, false, none⟩
  | receiveTx {x : ι → Wallet} {e : Exchange} {mask : Option SecretKey}
      {dest message addr : Option String} {s : Slate} {w : Wallet}
      (hx : Reached W payer payee .send x e) (hreply : e.reply = none)
      (h : Foreign.receiveTx (W payee) mask e.offer dest message addr (x payee) = (.ok s, w)) :
      Reached W payer payee .send (Function.update x payee w) { e with reply := some s }
  | processInvoiceTx {x : ι → Wallet} {e : Exchange} {mask : Option SecretKey} {args : InitTxArgs}
      {s : Slate} {w : Wallet} (hx : Reached W payer payee .invoice x e) (hreply : e.reply = none)
      (h : Owner.processInvoiceTx (W payer) mask e.offer args (x payer) = (.ok s, w)) :
      Reached W payer payee .invoice (Function.update x payer w) { e with reply := some s }
  | txLockOutputs {flow : Flow} {x : ι → Wallet} {e : Exchange} {mask : Option SecretKey}
      {participantId : Nat} {addrTo : Option String} {s : Slate} {w : Wallet}
      (hx : Reached W payer payee flow x e) (hlocked : e.locked = false)
      (hs : flow = .send ∧ s = e.offer ∨ e.reply = some s)
      (h : Owner.txLockOutputs (W payer) mask s participantId addrTo (x payer) = (.ok (), w)) :
      Reached W payer payee flow (Function.update x payer w) { e with locked := true }
  | finalizeTx {x : ι → Wallet} {e : Exchange} {mask : Option SecretKey} {s s' : Slate} {w : Wallet}
      (hx : Reached W payer payee .send x e) (hs : e.reply = some s) (hfinal : e.final = none)
      (h : Owner.finalizeTx (W payer) mask s (x payer) = (.ok s', w)) :
      Reached W payer payee .send (Function.update x payer w) { e with final := some s' }
  | finalizeInvoiceTx {x : ι → Wallet} {e : Exchange} {mask : Option SecretKey} {s s' : Slate}
      {w : Wallet} (hx : Reached W payer payee .invoice x e) (hs : e.reply = some s)
      (hfinal : e.final = none)
      (h : Foreign.finalizeInvoiceTx (W payee) mask s (x payee) = (.ok s', w)) :
      Reached W payer payee .invoice (Function.update x payee w) { e with final := some s' }
  | other {flow : Flow} {x : ι → Wallet} {e : Exchange} {i : ι} {w : Wallet}
      (hx : Reached W payer payee flow x e) (hw : Logged (keeping e.offer.id) (x i).db w) :
      Reached W payer payee flow (Function.update x i w) e

/-! ## The marks of the exchange -/

/-- The marks of slate `id` in all wallets. -/
def marks (id : Uuid) (x : ι → Wallet) (i : ι) (p : Identifier) (n : Nat) : Option Mark :=
  markAt id (x i).db p n

theorem marks_of_logged {id : Uuid} {x : ι → Wallet} {j : ι} {w : Wallet}
    (h : Logged (keeping id) (x j).db w) : marks id (Function.update x j w) = marks id x := by
  funext i p n
  unfold marks
  rw [Function.update_apply]
  split
  · subst ‹i = j›
    exact markAt_of_logged h p n
  · rfl

theorem marks_of_marks {id : Uuid} {x : ι → Wallet} {j : ι} {p : Identifier} {n : Nat} {m : Mark}
    {w : Wallet} (h : Marks id (x j).db p n m w) (i : ι) (q : Identifier) (k : Nat) :
    marks id (Function.update x j w) i q k =
      if i = j ∧ q = p ∧ k = n then some m else marks id x i q k := by
  unfold marks
  rw [Function.update_apply]
  by_cases hi : i = j
  · subst hi
    rw [if_pos rfl, h.marks]
    simp
  · simp [hi]

theorem logOk_update {κ : Policy} {x : ι → Wallet} {j : ι} {w : Wallet}
    (h : ∀ i, LogOk κ (x i).db) (hw : LogOk κ w.db) (i : ι) : LogOk κ (Function.update x j w i).db := by
  rw [Function.update_apply]
  split
  · exact hw
  · exact h i

/-- The marks with `m` at one place. -/
def withMark (M : ι → Identifier → Nat → Option Mark) (j : ι) (p : Identifier) (n : Nat) (m : Mark)
    (i : ι) (q : Identifier) (k : Nat) : Option Mark :=
  if i = j ∧ q = p ∧ k = n then some m else M i q k

theorem withMark_eq {M : ι → Identifier → Nat → Option Mark} {j i : ι} {p q : Identifier} {n k : Nat}
    {m m' : Mark} : withMark M j p n m i q k = some m' ↔
      i = j ∧ q = p ∧ k = n ∧ m' = m ∨ ¬(i = j ∧ q = p ∧ k = n) ∧ M i q k = some m' := by
  unfold withMark
  split
  · simp [*, eq_comm]
  · next hne =>
    constructor
    · intro hm
      exact .inr ⟨hne, hm⟩
    · rintro (⟨hi, hq, hk, -⟩ | ⟨-, hm⟩)
      · exact absurd ⟨hi, hq, hk⟩ hne
      · exact hm

/-- What holds at each stage of an exchange, of the marks of its slate. -/
structure Inv (W : World) (payer payee : ι) (flow : Flow)
    (M : ι → Identifier → Nat → Option Mark) (e : Exchange) : Prop where
  offset : flow = .send → e.offer.tx.offset ≠ .zero
  replyId : ∀ s, e.reply = some s → s.id = e.offer.id
  home : ∀ {i p n m}, M i p n = some m → i = if m.isSend then payer else payee
  one : ∀ {i p n m j q k m'}, M i p n = some m → M j q k = some m' → m.isSend = m'.isSend →
    p = q ∧ n = k
  payerEntry : e.locked = true ↔ ∃ p n m, M payer p n = some m ∧ m.isSend = true
  payeeEntry : flow = .invoice ∨ e.reply ≠ none ↔ ∃ p n m, M payee p n = some m ∧ m.isSend = false
  replied : flow = .invoice → e.locked = true → e.reply ≠ none
  stored : ∀ {i p n m}, M i p n = some m → m.isSend = flow.early ∨ e.final ≠ none →
    ∃ s, e.reply = some s ∧ m.kernelExcess = (s.calcExcess W).toOption
  final : ∀ s, e.final = some s → s.id = e.offer.id ∧ ∃ s' kernel, e.reply = some s' ∧
    s.tx.kernels = [kernel] ∧ s'.calcExcess W = .ok kernel.excess
  sent : flow = .send → e.final ≠ none → e.locked = true

section
variable {W : World} {payer payee : ι} {flow : Flow} {M : ι → Identifier → Nat → Option Mark}
  {e : Exchange}

omit [DecidableEq ι] in
/-- Nothing is final before the reply. -/
theorem Inv.final_none (h : Inv W payer payee flow M e) (hr : e.reply = none) : e.final = none := by
  rcases hf : e.final with _ | s
  · rfl
  · obtain ⟨-, s', -, hs', -⟩ := h.final s hf
    rw [hr] at hs'
    cases hs'

omit [DecidableEq ι] in
theorem inv_send {s : Slate} (ho : s.tx.offset ≠ .zero) (hM : ∀ i p n, M i p n = none) :
    Inv W payer payee .send M ⟨s, none, false, none⟩ := by
  constructor <;> simp [hM, ho]

theorem inv_invoice {s : Slate} {p : Identifier} {n : Nat} {excess : Option Commitment}
    (hM : ∀ i p n, M i p n = none) :
    Inv W payer payee .invoice (withMark M payee p n ⟨p, n, false, excess⟩) ⟨s, none, false, none⟩ := by
  have hiff : ∀ {i q k m}, withMark M payee p n ⟨p, n, false, excess⟩ i q k = some m ↔
      i = payee ∧ q = p ∧ k = n ∧ m = ⟨p, n, false, excess⟩ := by
    intro i q k m
    rw [withMark_eq, hM]
    simp
  constructor <;> simp only [hiff]
  · intro h
    cases h
  · intro s' h
    cases h
  · rintro i q k m ⟨rfl, rfl, rfl, rfl⟩
    rfl
  · rintro i q k m j q' k' m' ⟨rfl, rfl, rfl, rfl⟩ ⟨rfl, rfl, rfl, rfl⟩ -
    exact ⟨rfl, rfl⟩
  · simp
  · simp
  · simp
  · rintro i q k m ⟨rfl, rfl, rfl, rfl⟩ h
    simp [Flow.early] at h
  · intro s' h
    cases h
  · intro h
    cases h

omit [DecidableEq ι] in
/-- The reply to an invoice. -/
theorem Inv.process (h : Inv W payer payee .invoice M e) (hr : e.reply = none) {s : Slate}
    (hs : s.id = e.offer.id) : Inv W payer payee .invoice M { e with reply := some s } := by
  have hf := h.final_none hr
  have hlocked : e.locked ≠ true := fun hl => h.replied rfl hl hr
  refine ⟨h.offset, ?_, h.home, h.one, h.payerEntry, ?_, by simp, ?_, ?_, h.sent⟩
  · rintro s' ⟨⟩
    exact hs
  · rw [← h.payeeEntry]
    simp
  · intro i p n m hm hside
    have hm' : m.isSend = true := hside.resolve_right fun hn => hn hf
    have hi := h.home hm
    rw [hm'] at hi
    subst hi
    exact absurd (h.payerEntry.2 ⟨p, n, m, hm, hm'⟩) hlocked
  · intro s' hs'
    rw [show e.final = some s' from hs'] at hf
    cases hf

/-- The reply to a send: the payee's entry is made. -/
theorem Inv.receive (h : Inv W payer payee .send M e) (hr : e.reply = none) {s : Slate}
    (hs : s.id = e.offer.id) {p : Identifier} {n : Nat} (hnone : M payee p n = none) :
    Inv W payer payee .send (withMark M payee p n ⟨p, n, false, (s.calcExcess W).toOption⟩)
      { e with reply := some s } := by
  have hf := h.final_none hr
  have hside : ∀ {i q k m}, M i q k = some m → m.isSend = true := by
    intro i q k m hm
    by_contra hn
    rw [Bool.not_eq_true] at hn
    have hi := h.home hm
    rw [hn] at hi
    subst hi
    exact (h.payeeEntry.2 ⟨q, k, m, hm, hn⟩).elim (fun h => nomatch h) fun h => h hr
  refine ⟨h.offset, ?_, ?_, ?_, ?_, ?_, by simp, ?_, ?_, h.sent⟩
  · rintro s' ⟨⟩
    exact hs
  · intro i q k m hm
    rcases withMark_eq.1 hm with ⟨rfl, -, -, rfl⟩ | ⟨-, hm⟩
    · rfl
    · exact h.home hm
  · intro i q k m j q' k' m' hm hm' hsame
    rcases withMark_eq.1 hm with ⟨-, rfl, rfl, rfl⟩ | ⟨-, hm₁⟩ <;>
      rcases withMark_eq.1 hm' with ⟨-, rfl, rfl, rfl⟩ | ⟨-, hm₂⟩
    · exact ⟨rfl, rfl⟩
    · rw [hside hm₂] at hsame
      cases hsame
    · rw [hside hm₁] at hsame
      cases hsame
    · exact h.one hm₁ hm₂ hsame
  · rw [show ({ e with reply := some s } : Exchange).locked = e.locked from rfl, h.payerEntry]
    constructor
    · rintro ⟨q, k, m, hm, hm'⟩
      refine ⟨q, k, m, withMark_eq.2 (.inr ⟨?_, hm⟩), hm'⟩
      rintro ⟨rfl, rfl, rfl⟩
      rw [hnone] at hm
      cases hm
    · rintro ⟨q, k, m, hm, hm'⟩
      rcases withMark_eq.1 hm with ⟨-, -, -, rfl⟩ | ⟨-, hm⟩
      · cases hm'
      · exact ⟨q, k, m, hm, hm'⟩
  · simp only [ne_eq, reduceCtorEq, not_false_eq_true, or_true, true_iff]
    exact ⟨p, n, _, withMark_eq.2 (.inl ⟨rfl, rfl, rfl, rfl⟩), rfl⟩
  · intro i q k m hm hm'
    rcases withMark_eq.1 hm with ⟨-, -, -, rfl⟩ | ⟨-, hm⟩
    · exact ⟨s, rfl, rfl⟩
    · rw [hside hm] at hm'
      exact absurd hf (hm'.resolve_left fun h => nomatch h)
  · intro s' hs'
    rw [show e.final = some s' from hs'] at hf
    cases hf

/-- The payer locks: its entry is made. -/
theorem Inv.lock (h : Inv W payer payee flow M e) (hl : e.locked = false) {s : Slate}
    (hs : flow = .send ∧ s = e.offer ∨ e.reply = some s)
    {p : Identifier} {n : Nat} (hnone : M payer p n = none) :
    Inv W payer payee flow (withMark M payer p n ⟨p, n, true, (s.calcExcess W).toOption⟩)
      { e with locked := true } := by
  have hside : ∀ {i q k m}, M i q k = some m → m.isSend = false := by
    intro i q k m hm
    by_contra hn
    rw [Bool.not_eq_false] at hn
    have hi := h.home hm
    rw [hn] at hi
    subst hi
    rw [h.payerEntry.2 ⟨q, k, m, hm, hn⟩] at hl
    cases hl
  refine ⟨h.offset, h.replyId, ?_, ?_, ?_, ?_, ?_, ?_, h.final, fun _ _ => rfl⟩
  · intro i q k m hm
    rcases withMark_eq.1 hm with ⟨rfl, -, -, rfl⟩ | ⟨-, hm⟩
    · rfl
    · exact h.home hm
  · intro i q k m j q' k' m' hm hm' hsame
    rcases withMark_eq.1 hm with ⟨-, rfl, rfl, rfl⟩ | ⟨-, hm₁⟩ <;>
      rcases withMark_eq.1 hm' with ⟨-, rfl, rfl, rfl⟩ | ⟨-, hm₂⟩
    · exact ⟨rfl, rfl⟩
    · rw [hside hm₂] at hsame
      cases hsame
    · rw [hside hm₁] at hsame
      cases hsame
    · exact h.one hm₁ hm₂ hsame
  · simp only [true_iff]
    exact ⟨p, n, _, withMark_eq.2 (.inl ⟨rfl, rfl, rfl, rfl⟩), rfl⟩
  · rw [show ({ e with locked := true } : Exchange).reply = e.reply from rfl, h.payeeEntry]
    constructor
    · rintro ⟨q, k, m, hm, hm'⟩
      refine ⟨q, k, m, withMark_eq.2 (.inr ⟨?_, hm⟩), hm'⟩
      rintro ⟨rfl, rfl, rfl⟩
      rw [hnone] at hm
      cases hm
    · rintro ⟨q, k, m, hm, hm'⟩
      rcases withMark_eq.1 hm with ⟨-, -, -, rfl⟩ | ⟨-, hm⟩
      · cases hm'
      · exact ⟨q, k, m, hm, hm'⟩
  · intro hf _ hn
    rcases hs with ⟨hs, -⟩ | hs
    · rw [hf] at hs
      cases hs
    · rw [hs] at hn
      cases hn
  · intro i q k m hm hm'
    rcases withMark_eq.1 hm with ⟨-, -, -, rfl⟩ | ⟨-, hm⟩
    · rcases hs with ⟨hs, -⟩ | hs
      · subst hs
        have hl' := h.sent rfl (hm'.resolve_left fun h => nomatch h)
        rw [hl] at hl'
        cases hl'
      · exact ⟨s, hs, rfl⟩
    · exact h.stored hm hm'

/-- The exchange is finalized: the entry of the side that is not early gets the excess. -/
theorem Inv.finalize (h : Inv W payer payee flow M e) {s s' : Slate} {kernel : TxKernel}
    (hs : e.reply = some s) (hid : s'.id = s.id) (hk : s'.tx.kernels = [kernel])
    (hx : s.calcExcess W = .ok kernel.excess) {j : ι} {p : Identifier} {n : Nat} {m : Mark}
    (hm : M j p n = some m) (hside : m.isSend = !flow.early) :
    Inv W payer payee flow (withMark M j p n { m with kernelExcess := some kernel.excess })
      { e with final := some s' } := by
  -- the marks are at the same places, of the same sides
  have hold : ∀ {i q k m'}, withMark M j p n { m with kernelExcess := some kernel.excess } i q k =
      some m' → ∃ m₀, M i q k = some m₀ ∧ m₀.isSend = m'.isSend := by
    intro i q k m' hm'
    rcases withMark_eq.1 hm' with ⟨rfl, rfl, rfl, rfl⟩ | ⟨-, hm'⟩
    · exact ⟨m, hm, rfl⟩
    · exact ⟨m', hm', rfl⟩
  have hnew : ∀ {i q k m₀}, M i q k = some m₀ →
      ∃ m', withMark M j p n { m with kernelExcess := some kernel.excess } i q k = some m' ∧
        m'.isSend = m₀.isSend := by
    intro i q k m₀ hm₀
    by_cases hat : i = j ∧ q = p ∧ k = n
    · obtain ⟨rfl, rfl, rfl⟩ := hat
      rw [hm] at hm₀
      cases hm₀
      exact ⟨_, withMark_eq.2 (.inl ⟨rfl, rfl, rfl, rfl⟩), rfl⟩
    · exact ⟨m₀, withMark_eq.2 (.inr ⟨hat, hm₀⟩), rfl⟩
  have hentry : ∀ (i : ι) (b : Bool), (∃ q k m', withMark M j p n
      { m with kernelExcess := some kernel.excess } i q k = some m' ∧ m'.isSend = b) ↔
        ∃ q k m₀, M i q k = some m₀ ∧ m₀.isSend = b := by
    intro i b
    constructor
    · rintro ⟨q, k, m', hm', hb⟩
      obtain ⟨m₀, hm₀, hsame⟩ := hold hm'
      exact ⟨q, k, m₀, hm₀, hsame.trans hb⟩
    · rintro ⟨q, k, m₀, hm₀, hb⟩
      obtain ⟨m', hm', hsame⟩ := hnew hm₀
      exact ⟨q, k, m', hm', hsame.trans hb⟩
  refine ⟨h.offset, h.replyId, ?_, ?_, ?_, ?_, h.replied, ?_, ?_, fun hflow _ => ?_⟩
  · intro i q k m' hm'
    obtain ⟨m₀, hm₀, hsame⟩ := hold hm'
    rw [← hsame]
    exact h.home hm₀
  · intro i q k m' i' q' k' m'' hm' hm'' hsame
    obtain ⟨m₁, hm₁, hs₁⟩ := hold hm'
    obtain ⟨m₂, hm₂, hs₂⟩ := hold hm''
    exact h.one hm₁ hm₂ (by rw [hs₁, hs₂, hsame])
  · rw [hentry]
    exact h.payerEntry
  · rw [hentry]
    exact h.payeeEntry
  · intro i q k m' hm' _
    refine ⟨s, hs, ?_⟩
    rcases withMark_eq.1 hm' with ⟨-, -, -, rfl⟩ | ⟨hne, hm₁⟩
    · rw [hx]
      rfl
    · -- an entry elsewhere is of the early side, which has the excess of the reply
      have hearly : m'.isSend = flow.early := by
        by_contra hn
        have hsame : m'.isSend = m.isSend := by
          rw [hside]
          exact Bool.eq_not_of_ne hn
        obtain ⟨hp, hk'⟩ := h.one hm₁ hm hsame
        exact hne ⟨by rw [h.home hm₁, h.home hm, hsame], hp, hk'⟩
      obtain ⟨s₁, hs₁, hex⟩ := h.stored hm₁ (.inl hearly)
      rw [hs] at hs₁
      cases hs₁
      exact hex
  · rintro s₁ ⟨⟩
    exact ⟨hid.trans (h.replyId s hs), s, kernel, hs, hk, hx⟩
  · subst hflow
    have hj : j = payer := by
      rw [h.home hm, hside]
      rfl
    subst hj
    exact h.payerEntry.2 ⟨p, n, m, hm, hside⟩

end

/-! ## Runs -/

section
variable {W : ι → World} {payer payee : ι} {flow : Flow} {x : ι → Wallet} {e : Exchange}

/-- A step that added or changed one mark. -/
theorem marks_eq_withMark {id : Uuid} {j : ι} {p : Identifier} {n : Nat} {m : Mark} {w : Wallet}
    (h : Marks id (x j).db p n m w) :
    marks id (Function.update x j w) = withMark (marks id x) j p n m := by
  funext i q k
  exact marks_of_marks h i q k

theorem inv_of_reached (hkey : ∀ t, (W payer).newSecretKey t ≠ ⟨0⟩) (hoffset : (W payee).KeepsOffset)
    (hcurve : (W payer).SameCurve (W payee)) (h : Reached W payer payee flow x e) :
    (∀ i, LogOk (keeping e.offer.id) (x i).db) ∧
      Inv (W payer) payer payee flow (marks e.offer.id x) e := by
  induction h with
  | @initSendTx x mask args s w hlog hnew hargs h =>
    have hw := (Op.initSendTx_logged mask args).ok
      ⟨logged_refl ((hlog payer).logOk (keeping s.id)), keeping_refreshes _ _⟩ h
    refine ⟨logOk_update (fun i => (hlog i).logOk _) hw.ok, inv_send (initSendTx_offset hkey hargs h) ?_⟩
    intro i p n
    rw [marks_of_logged hw]
    exact (hnew i).markAt p n
  | @issueInvoiceTx x mask args s w hlog hnew h =>
    obtain ⟨p, n, excess, hm⟩ := issueInvoiceTx_marks ((hlog payee).logOk _) h
    refine ⟨logOk_update (fun i => (hlog i).logOk _) hm.ok, ?_⟩
    rw [marks_eq_withMark hm]
    exact inv_invoice fun i p n => (hnew i).markAt p n
  | @receiveTx x e mask dest message addr s w hx hreply h ih =>
    obtain ⟨hok, hinv⟩ := ih
    obtain ⟨hid, p, n, hnone, hm⟩ := receiveTx_marks (hok payee) hoffset (hinv.offset rfl) h
    refine ⟨logOk_update hok hm.ok, ?_⟩
    rw [marks_eq_withMark hm, Slate.calcExcess_sameCurve hcurve]
    exact hinv.receive hreply hid hnone
  | @processInvoiceTx x e mask args s w hx hreply h ih =>
    obtain ⟨hok, hinv⟩ := ih
    have hw := (Op.processInvoiceTx_logged mask e.offer args).ok
      ⟨logged_refl (hok payer), keeping_refreshes _ _⟩ h
    refine ⟨logOk_update hok hw.ok, ?_⟩
    rw [marks_of_logged hw]
    exact hinv.process hreply (processInvoiceTx_id h)
  | @txLockOutputs flow x e mask participantId addrTo s w hx hlocked hs h ih =>
    obtain ⟨hok, hinv⟩ := ih
    have hid : s.id = e.offer.id := by
      rcases hs with ⟨-, rfl⟩ | hs
      · rfl
      · exact hinv.replyId s hs
    obtain ⟨p, n, hnone, hm⟩ := txLockOutputs_marks (hid ▸ hok payer) h
    rw [hid] at hnone hm
    refine ⟨logOk_update hok hm.ok, ?_⟩
    rw [marks_eq_withMark hm]
    exact hinv.lock hlocked hs hnone
  | @finalizeTx x e mask s s' w hx hs hfinal h ih =>
    obtain ⟨hok, hinv⟩ := ih
    have hid := hinv.replyId s hs
    obtain ⟨hid', kernel, p, n, m, hk, hex, hside, hmark, hm⟩ := finalizeTx_marks (hid ▸ hok payer) h
    rw [hid] at hmark hm
    refine ⟨logOk_update hok hm.ok, ?_⟩
    rw [marks_eq_withMark hm]
    exact hinv.finalize hs hid' hk hex hmark hside
  | @finalizeInvoiceTx x e mask s s' w hx hs hfinal h ih =>
    obtain ⟨hok, hinv⟩ := ih
    have hid := hinv.replyId s hs
    obtain ⟨hid', kernel, p, n, m, hk, hex, hside, hmark, hm⟩ :=
      finalizeInvoiceTx_marks (hid ▸ hok payee) h
    rw [hid] at hmark hm
    refine ⟨logOk_update hok hm.ok, ?_⟩
    rw [marks_eq_withMark hm]
    rw [Slate.calcExcess_sameCurve hcurve] at hex
    exact hinv.finalize hs hid' hk hex hmark hside
  | @other flow x e i w hx hw ih =>
    obtain ⟨hok, hinv⟩ := ih
    refine ⟨logOk_update hok hw.ok, ?_⟩
    rw [marks_of_logged hw]
    exact hinv

/-- After the exchange every entry of its slate has the excess of the one kernel of the finalized
transaction: the payee's, and the payer's once it has locked, which in a send it has. -/
theorem excess_of_reached (hkey : ∀ t, (W payer).newSecretKey t ≠ ⟨0⟩)
    (hoffset : (W payee).KeepsOffset) (hcurve : (W payer).SameCurve (W payee))
    (h : Reached W payer payee flow x e) {s : Slate} (hs : e.final = some s) :
    ∃ kernel, s.id = e.offer.id ∧ s.tx.kernels = [kernel] ∧
      (∀ i, ∀ t ∈ txLogOf (x i).db, t.txSlateId = some e.offer.id →
        t.kernelExcess = some kernel.excess) ∧
      (∃ t ∈ txLogOf (x payee).db, t.txSlateId = some e.offer.id ∧ t.txType.isSend = false) ∧
      (e.locked = true →
        ∃ t ∈ txLogOf (x payer).db, t.txSlateId = some e.offer.id ∧ t.txType.isSend = true) ∧
      (flow = .send → e.locked = true) := by
  obtain ⟨hok, hinv⟩ := inv_of_reached hkey hoffset hcurve h
  obtain ⟨hid, s₂, kernel, hs₂, hk, hx⟩ := hinv.final s hs
  have hfinal : e.final ≠ none := by
    rw [hs]
    exact fun h => nomatch h
  have hreply : e.reply ≠ none := by
    rw [hs₂]
    exact fun h => nomatch h
  have hentry : ∀ {i p n m}, marks e.offer.id x i p n = some m → ∃ t ∈ txLogOf (x i).db,
      t.txSlateId = some e.offer.id ∧ t.txType.isSend = m.isSend := by
    intro i p n m hm
    obtain ⟨t, ht, hid, rfl⟩ := markAt_eq_some.1 hm
    exact ⟨t, mem_txLogOf_iff.2 ⟨p, n, ht⟩, hid, rfl⟩
  refine ⟨kernel, hid, hk, fun i t ht hslate => ?_, ?_, fun hl => ?_, fun hflow => hinv.sent hflow hfinal⟩
  · obtain ⟨p, n, hat⟩ := mem_txLogOf_iff.1 ht
    obtain ⟨s', hs', hex⟩ := hinv.stored (markAt_eq_some.2 ⟨t, hat, hslate, rfl⟩) (.inr hfinal)
    rw [hs₂] at hs'
    cases hs'
    rw [hx] at hex
    exact hex
  · obtain ⟨p, n, m, hm, hside⟩ := hinv.payeeEntry.1 (.inr hreply)
    rw [← hside]
    exact hentry hm
  · obtain ⟨p, n, m, hm, hside⟩ := hinv.payerEntry.1 hl
    rw [← hside]
    exact hentry hm

end

/-! ## An exchange -/

section
variable {W : ι → World} {payer payee : ι} {x : ι → Wallet} {mask : Option SecretKey}

/-- A send between two wallets, locked when the reply is there. -/
theorem reached_of_send (hne : payer ≠ payee) {args : InitTxArgs} {s₁ s₂ s₃ : Slate}
    {w₁ w₂ w₃ w₄ : Wallet} (hlog : ∀ i, Numbered (x i).db) (hnew : ∀ i, Unused (x i).db s₁.id)
    (hargs : args.estimateOnly ≠ some true)
    (h₁ : Owner.initSendTx (W payer) mask args (x payer) = (.ok s₁, w₁))
    (h₂ : Foreign.receiveTx (W payee) mask s₁ none none none (x payee) = (.ok s₂, w₂))
    (h₃ : Owner.txLockOutputs (W payer) mask s₂ 0 none w₁ = (.ok (), w₃))
    (h₄ : Owner.finalizeTx (W payer) mask s₂ w₃ = (.ok s₃, w₄)) :
    ∃ y e, Reached W payer payee .send y e ∧ e.final = some s₃ := by
  have r₁ : Reached W payer payee .send (Function.update x payer w₁) ⟨s₁, none, false, none⟩ :=
    .initSendTx hlog hnew hargs h₁
  have r₂ : Reached W payer payee .send (Function.update (Function.update x payer w₁) payee w₂)
      ⟨s₁, some s₂, false, none⟩ := by
    rw [← Function.update_of_ne hne.symm w₁ x] at h₂
    exact .receiveTx r₁ rfl h₂
  have r₃ : Reached W payer payee .send
      (Function.update (Function.update (Function.update x payer w₁) payee w₂) payer w₃)
      ⟨s₁, some s₂, true, none⟩ := by
    rw [← Function.update_self payer w₁ x,
      ← Function.update_of_ne hne w₂ (Function.update x payer w₁)] at h₃
    exact .txLockOutputs r₂ rfl (.inr rfl) h₃
  rw [← Function.update_self payer w₃ (Function.update (Function.update x payer w₁) payee w₂)] at h₄
  exact ⟨_, _, .finalizeTx r₃ rfl rfl h₄, rfl⟩

/-- An invoice between two wallets, locked before it is finalized. -/
theorem reached_of_invoice (hne : payer ≠ payee) {args : IssueInvoiceTxArgs} {args' : InitTxArgs}
    {s₁ s₂ s₃ : Slate} {w₁ w₂ w₃ w₄ : Wallet} (hlog : ∀ i, Numbered (x i).db)
    (hnew : ∀ i, Unused (x i).db s₁.id)
    (h₁ : Owner.issueInvoiceTx (W payee) mask args (x payee) = (.ok s₁, w₁))
    (h₂ : Owner.processInvoiceTx (W payer) mask s₁ args' (x payer) = (.ok s₂, w₂))
    (h₃ : Owner.txLockOutputs (W payer) mask s₂ 0 none w₂ = (.ok (), w₃))
    (h₄ : Foreign.finalizeInvoiceTx (W payee) mask s₂ w₁ = (.ok s₃, w₄)) :
    ∃ y e, Reached W payer payee .invoice y e ∧ e.final = some s₃ := by
  have r₁ : Reached W payer payee .invoice (Function.update x payee w₁) ⟨s₁, none, false, none⟩ :=
    .issueInvoiceTx hlog hnew h₁
  have r₂ : Reached W payer payee .invoice (Function.update (Function.update x payee w₁) payer w₂)
      ⟨s₁, some s₂, false, none⟩ := by
    rw [← Function.update_of_ne hne w₁ x] at h₂
    exact .processInvoiceTx r₁ rfl h₂
  have r₃ : Reached W payer payee .invoice
      (Function.update (Function.update (Function.update x payee w₁) payer w₂) payer w₃)
      ⟨s₁, some s₂, true, none⟩ := by
    rw [← Function.update_self payer w₂ (Function.update x payee w₁)] at h₃
    exact .txLockOutputs r₂ rfl (.inr rfl) h₃
  rw [← Function.update_self payee w₁ x,
    ← Function.update_of_ne hne.symm w₂ (Function.update x payee w₁),
    ← Function.update_of_ne hne.symm w₃ (Function.update (Function.update x payee w₁) payer w₂)] at h₄
  exact ⟨_, _, .finalizeInvoiceTx r₃ rfl rfl h₄, rfl⟩

end

/-! ## Two wallets of the small world -/

open World

/-- A funded wallet that pays and a new one. -/
def twoWallets (payer : Bool) : Wallet := if payer then funded else opened ⟨8⟩ 8

def initSend : Except (Fault Error) Slate × Wallet := Owner.initSendTx small none payFive funded

def offered : Slate := slateOr emptySlate initSend

def received : Except (Fault Error) Slate × Wallet :=
  Foreign.receiveTx small none offered none none none (opened ⟨8⟩ 8)

def replied : Slate := slateOr emptySlate received

def sendLocked : Except (Fault Error) Unit × Wallet :=
  Owner.txLockOutputs small none replied 0 none initSend.2

def sendFinal : Except (Fault Error) Slate × Wallet := Owner.finalizeTx small none replied sendLocked.2

theorem small_newSecretKey (t : Nat) : small.newSecretKey t ≠ ⟨0⟩ :=
  fun h => Nat.succ_ne_zero t (congrArg SecretKey.raw h)

theorem small_sameCurve : small.SameCurve small := ⟨rfl, rfl, rfl, rfl, rfl⟩

theorem small_keepsOffset : small.KeepsOffset := by
  intro tx elems k tx' b h
  have hstep : ∀ (elems : List Append) (tx : Transaction),
      (elems.foldl smallAppend tx).offset = tx.offset := by
    intro elems
    induction elems with
    | nil => intro tx; rfl
    | cons a elems ih =>
      intro tx
      rw [List.foldl_cons, ih]
      cases a <;> rfl
  cases h
  exact hstep elems tx

def issued : Except (Fault Error) Slate × Wallet :=
  Owner.issueInvoiceTx small none ⟨none, 5, none, none⟩ (opened ⟨8⟩ 8)

def invoice : Slate := slateOr emptySlate issued

def processed : Except (Fault Error) Slate × Wallet :=
  Owner.processInvoiceTx small none invoice payFive funded

def paid : Slate := slateOr emptySlate processed

def invoiceLocked : Except (Fault Error) Unit × Wallet :=
  Owner.txLockOutputs small none paid 0 none processed.2

def invoiceFinal : Except (Fault Error) Slate × Wallet :=
  Foreign.finalizeInvoiceTx small none paid issued.2

theorem reached_small (flow : Flow) : ∃ (x : Bool → Wallet) (e : Exchange) (s : Slate),
    Reached (fun _ => small) true false flow x e ∧ e.final = some s := by
  cases flow with
  | send =>
    have h₁ : initSend = (.ok offered, initSend.2) := Prog.run_eq (by decide +kernel)
    have h₂ : received = (.ok replied, received.2) := Prog.run_eq (by decide +kernel)
    have h₃ : sendLocked = (.ok (), sendLocked.2) := Prog.run_eq (by decide +kernel)
    have h₄ : sendFinal = (.ok (slateOr emptySlate sendFinal), sendFinal.2) :=
      Prog.run_eq (by decide +kernel)
    obtain ⟨x, e, hx, hf⟩ := @reached_of_send Bool _ (fun _ => small) true false twoWallets none
      (by decide) payFive _ _ _ _ _ _ _ (by decide +kernel) (by decide +kernel) (by decide) h₁ h₂ h₃ h₄
    exact ⟨x, e, _, hx, hf⟩
  | invoice =>
    have h₁ : issued = (.ok invoice, issued.2) := Prog.run_eq (by decide +kernel)
    have h₂ : processed = (.ok paid, processed.2) := Prog.run_eq (by decide +kernel)
    have h₃ : invoiceLocked = (.ok (), invoiceLocked.2) := Prog.run_eq (by decide +kernel)
    have h₄ : invoiceFinal = (.ok (slateOr emptySlate invoiceFinal), invoiceFinal.2) :=
      Prog.run_eq (by decide +kernel)
    obtain ⟨x, e, hx, hf⟩ := @reached_of_invoice Bool _ (fun _ => small) true false twoWallets none
      (by decide) _ payFive _ _ _ _ _ _ _ (by decide +kernel) (by decide +kernel) h₁ h₂ h₃ h₄
    exact ⟨x, e, _, hx, hf⟩

theorem excess_of_reached_small : ∃ (x : Bool → Wallet) (e : Exchange) (s : Slate)
    (kernel : TxKernel), Reached (fun _ => small) true false .send x e ∧ e.final = some s ∧
      s.tx.kernels = [kernel] ∧ ∀ i, ∀ t ∈ txLogOf (x i).db, t.txSlateId = some e.offer.id →
        t.kernelExcess = some kernel.excess := by
  obtain ⟨x, e, s, hx, hf⟩ := reached_small .send
  obtain ⟨kernel, -, hk, hall, -⟩ := @excess_of_reached Bool _ (fun _ => small) true false .send x e
    small_newSecretKey small_keepsOffset small_sameCurve hx s hf
  exact ⟨x, e, s, kernel, hx, hf, hk, hall⟩

end Exchange

end EpicWallet
