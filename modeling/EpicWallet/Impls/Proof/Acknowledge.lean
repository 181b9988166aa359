import EpicWallet.Impls.Proof.Posting
import EpicWallet.Libwallet.Proof.Crypto
import EpicWallet.Lib.Steps

/-!
# What the listener acknowledges

`on_slate` returns nothing, an error is only logged, and the loop acknowledges the slate in any case. So in
the runs in which no slate is refused (`Refused`) while there is a challenge to sign, every acknowledgement
is of a slate that was handled, in a round of its own (`acks_of_run`).
-/

namespace EpicWallet

open Lib WalletBackend

variable (R : Relay)

def ProtocolRequest.madeId : ProtocolRequest → Option (List Char)
  | .made _ _ _ id => some id
  | .subscribe _ _ _ | .postSlate _ _ _ _ | .clientDetails _ _ _ => none

/-- The ids that are acknowledged. -/
def mades (l : List ProtocolRequest) : List (List Char) := l.filterMap ProtocolRequest.madeId

/-- A message that carries the slate, from this address, under this id. -/
def Incoming.Carries (i : Incoming) (id : List Char) (address : EpicboxAddress) (v : VersionedSlate) :
    Prop :=
  ∃ sender str signature challenge ver proof,
    i = .message (.data (some (.slate sender str signature challenge ver id))) ∧
    TxProof.fromResponse R.crypto R.codecs sender str signature R.secretKey (some R.address) =
      .ok (v, proof) ∧ proof.address = address

/-- What the wallet does with a slate that lacks a participant. -/
def Relay.receive (address : EpicboxAddress) (slate : Slate) : WalletM Slate := do
  walletLock R.world
  Foreign.receiveTx R.world R.keychainMask slate none none (some address.stripped)

/-- What the wallet does with a slate that came back. -/
def Relay.finalize (slate : Slate) : WalletM Slate := do
  walletLock R.world
  Owner.finalizeTx R.world R.keychainMask slate

/-- The request hands the slate to the server, for this address. -/
def Hands (address : EpicboxAddress) (v : VersionedSlate) (request : ProtocolRequest) : Prop :=
  ∃ n pkey m signature,
    EncryptedMessage.new R.crypto (R.salt n) (R.nonce n) (v.toText R.codecs) address pkey R.secretKey =
      .ok m ∧
    request = .postSlate R.address.stripped address.stripped m.toJson.render signature

/-- The slate is received and the reply handed to the server, or it is finalized and a node takes the
transaction. -/
inductive Handled (address : EpicboxAddress) (v : VersionedSlate) (x : Listener) : Prop
  | received {ret : Slate} {w : Wallet} {request : ProtocolRequest}
      (lacks : (Slate.ofVersioned v).participantData.length < (Slate.ofVersioned v).numParticipants)
      (receives : R.receive address (Slate.ofVersioned v) x.wallet = (.ok ret, w))
      (hands : Hands R address (VersionedSlate.intoVersion ret (EpicboxController.version v)) request)
      (replies : (EpicboxController.onSlate R address v x).2.written = x.written ++ [request])
  | finalized {fs : Slate} {w : Wallet} {posts : List Post} {p : Post}
      (finalizes : Finalizing R (Slate.ofVersioned v) x fs w)
      (posted : (EpicboxController.onSlate R address v x).2.node.posts = x.node.posts ++ posts)
      (mem : p ∈ posts) (accepted : p.accepted = true)

/-- The wallet does not take the slate, or no node takes the transaction it finalizes. -/
inductive Refused (address : EpicboxAddress) (slate : Slate) (x : Listener) : Prop
  | invoice (lacks : slate.participantData.length < slate.numParticipants)
      (inputs : slate.tx.inputs.isEmpty = true)
  | receive {e : Error} {w : Wallet} (lacks : slate.participantData.length < slate.numParticipants)
      (fails : R.receive address slate x.wallet = (.error (.err e), w))
  | finalize {e : Error} {w : Wallet} (all : slate.numParticipants ≤ slate.participantData.length)
      (fails : R.finalize slate x.wallet = (.error (.err e), w))
  | tor {fs : Slate} {w : Wallet} {url : String} (finalizes : Finalizing R slate x fs w)
      (route : R.torRoute x = some url) (client : R.node.torClient (x.node.answers + 1) = true)
      (rejects : ∀ r, R.node.pushTor (x.node.answers + 1) url fs.tx = .ok r → r.accepted = false)
  | direct {fs : Slate} {w : Wallet} (finalizes : Finalizing R slate x fs w)
      (route : R.torRoute x = none)
      (rejects : ∀ r, R.node.push (x.node.answers + 1) fs.tx false = .ok r → r.accepted = false)

/-- While there is a challenge to sign, a slate that comes is not refused. -/
def Takes (i : Incoming) (x : Listener) : Prop :=
  x.challenge ≠ none → ∀ id address v, i.Carries R id address v →
    ¬Refused R address (Slate.ofVersioned v) x

/-! ## Runs of the loop -/

/-- A round after which the loop goes on. -/
def Relay.step (x : Listener) (i : Incoming) : Option Listener :=
  match EpicboxBroker.round R i x with
  | (.ok .next, y) => some y
  | _ => none

/-- What the loop finds in each round, and in which state. -/
def Relay.rounds : List Incoming → Listener → List (Incoming × Listener)
  | [], _ => []
  | i :: is, x => (i, x) :: ((R.step x i).map (Relay.rounds is)).getD []

/-- The round is of a slate with this id, which is handled. -/
def Acknowledges (id : List Char) (r : Incoming × Listener) : Prop :=
  ∃ address v, r.1.Carries R id address v ∧ Handled R address v r.2

/-- Every acknowledgement of a run has a round of its own, which handles its slate. -/
def AcksHandled (is : List Incoming) (x : Listener) : Prop :=
  ∀ new, (EpicboxBroker.subscribe R is x).2.written = x.written ++ new →
    ∃ acked, acked.Sublist (R.rounds is x) ∧ List.Forall₂ (Acknowledges R) (mades new) acked

variable {R}

/-! ## What a slate writes -/

/-- The challenge stays, and what is written acknowledges nothing. -/
structure Quiet (x y : Listener) : Prop where
  challenge : y.challenge = x.challenge
  written : ∃ new, y.written = x.written ++ new ∧ mades new = []

instance : Std.Refl Quiet := ⟨fun _ => ⟨rfl, [], (List.append_nil _).symm, rfl⟩⟩

instance : IsTrans Listener Quiet := ⟨by
  rintro x y z ⟨hc, new, hw, hm⟩ ⟨hc', new', hw', hm'⟩
  refine ⟨hc'.trans hc, new ++ new', ?_, ?_⟩
  · rw [hw', hw, List.append_assoc]
  · unfold mades at hm hm' ⊢
    rw [List.filterMap_append, hm, hm']
    rfl⟩

theorem Quiet.of_written {x y : Listener} (hc : y.challenge = x.challenge) (hw : y.written = x.written) :
    Quiet x y := ⟨hc, [], by rw [hw, List.append_nil], rfl⟩

theorem inWallet_quiet {α : Type} (p : WalletM α) : Prog.Keeps Quiet (inWallet p) := fun _ =>
  .of_written rfl rfl

theorem inNode_quiet {α : Type} (p : NodeM α) : Prog.Keeps Quiet (inNode p) := fun _ =>
  .of_written rfl rfl

theorem checked_quiet {α : Type} (c : Checked α) : Prog.Keeps Quiet (checked c) := .lift _

theorem nextRelay_quiet : Prog.Keeps Quiet nextRelay := fun _ => .of_written rfl rfl

/-- What a send does: the message is among what was written if the socket took it. -/
theorem socketSend_cases (request : ProtocolRequest) (x : Listener) :
    socketSend R request x = (.ok true,
        { x with answers := x.answers + 1, written := x.written ++ [request] }) ∨
      socketSend R request x = (.ok false, { x with answers := x.answers + 1 }) := by
  unfold socketSend
  rw [Prog.bind_of_ok (show nextRelay x = (.ok x.answers, _) from rfl)]
  by_cases hsend : R.sends x.answers = true
  · rw [if_pos hsend]
    exact .inl rfl
  · rw [if_neg hsend]
    exact .inr rfl

theorem socketSend_quiet {request : ProtocolRequest} (h : request.madeId = none) :
    Prog.Keeps Quiet (socketSend R request) := by
  intro x
  rcases socketSend_cases (R := R) request x with hs | hs
  · rw [hs]
    refine ⟨rfl, [request], rfl, ?_⟩
    unfold mades
    rw [List.filterMap_cons_none h]
    rfl
  · rw [hs]
    exact .of_written rfl rfl

theorem postSlate_quiet (v : VersionedSlate) (dest : EpicboxAddress) :
    Prog.Keeps Quiet (EpicboxBroker.postSlate R v dest) := by
  unfold EpicboxBroker.postSlate
  refine (checked_quiet _).bind fun pkey => nextRelay_quiet.bind fun n => (checked_quiet _).bind fun m =>
    (checked_quiet _).bind fun signature => (socketSend_quiet rfl).bind fun sent => ?_
  exact .ite (fun _ => .pure _) fun _ => .panic

theorem postFinalized_quiet (tx : Transaction) (addresses : List String) :
    Prog.Keeps Quiet (EpicboxController.postFinalized R tx addresses) := by
  unfold EpicboxController.postFinalized
  rcases addresses.head? with _ | url
  · exact inNode_quiet _
  · refine .ite (fun _ => (inNode_quiet _).attempt.bind fun r => ?_) fun _ => inNode_quiet _
    rcases r with e | _
    · exact inNode_quiet _
    · exact .pure _

theorem markPosted_quiet (fs : Slate) : Prog.Keeps Quiet (EpicboxController.markPosted R fs) := by
  refine (inWallet_quiet _).attempt.bind fun r => ?_
  rcases r with e | _ | _
  · exact .pure _
  · exact .pure _
  · exact inWallet_quiet _

theorem process_quiet (address : Option String) (slate : Slate) :
    Prog.Keeps Quiet (EpicboxController.processIncomingSlate R address slate) := by
  unfold EpicboxController.processIncomingSlate
  refine .ite (fun _ => .ite (fun _ => .pure _) fun _ => (inWallet_quiet _).attempt.bind fun r => ?_)
    fun _ => (inWallet_quiet _).bind fun fs => (inNode_quiet _).attempt.bind fun addresses =>
      nextRelay_quiet.bind fun n => (postFinalized_quiet _ _).bind fun _ =>
        (markPosted_quiet fs).bind fun _ => .pure _
  rcases r with e | ret
  · cases e <;> exact .throw _
  · exact .pure _

theorem onSlate_quiet (address : EpicboxAddress) (v : VersionedSlate) :
    Prog.Keeps Quiet (EpicboxController.onSlate R address v) := by
  refine (Prog.Keeps.attempt ?_).bind fun result => ?_
  · refine (process_quiet _ _).bind fun r => ?_
    exact .ite (fun _ => (postSlate_quiet _ _).orPanic) fun _ => .pure _
  · rcases result with e | ⟨⟩
    · exact .pure _
    · exact .pure _

/-! ## The handler -/

theorem checked_eq_ok {α : Type} {c : Checked α} {x y : Listener} {a : α} :
    checked c x = (.ok a, y) ↔ c = .ok a ∧ y = x := by
  unfold checked
  rw [Prog.lift_eq_ok]
  refine and_congr_left fun _ => ?_
  rcases c with e | b
  · exact iff_of_false nofun nofun
  · exact ⟨fun h => congrArg _ (Except.ok.inj h), fun h => congrArg _ (Except.ok.inj h)⟩

theorem postSlate_ok {v : VersionedSlate} {dest : EpicboxAddress} {x y : Listener}
    (h : EpicboxBroker.postSlate R v dest x = (.ok (), y)) :
    ∃ request, Hands R dest v request ∧ y.written = x.written ++ [request] := by
  unfold EpicboxBroker.postSlate at h
  obtain ⟨pkey, x₁, hkey, h₁⟩ := Prog.bind_ok.1 h
  obtain ⟨n, x₂, hn, h₂⟩ := Prog.bind_ok.1 h₁
  obtain ⟨m, x₃, hm, h₃⟩ := Prog.bind_ok.1 h₂
  obtain ⟨signature, x₄, hsig, h₄⟩ := Prog.bind_ok.1 h₃
  obtain ⟨sent, x₅, hsent, h₅⟩ := Prog.bind_ok.1 h₄
  obtain ⟨-, rfl⟩ := checked_eq_ok.1 hkey
  cases hn
  obtain ⟨hnew, rfl⟩ := checked_eq_ok.1 hm
  obtain ⟨-, rfl⟩ := checked_eq_ok.1 hsig
  rcases socketSend_cases (R := R) _ { x₁ with answers := x₁.answers + 1 } with hs | hs
  · rw [hs] at hsent
    cases hsent
    cases h₅
    exact ⟨_, ⟨x₁.answers, pkey, m, signature.toHex R.crypto, hnew, rfl⟩, rfl⟩
  · rw [hs] at hsent
    cases hsent
    cases h₅

section
variable {address : EpicboxAddress} {v : VersionedSlate} {x y : Listener} {s : Slate}

theorem onSlate_of_finalized
    (h : EpicboxController.processIncomingSlate R (some address.stripped) (Slate.ofVersioned v) x =
      (.ok (true, s), y)) :
    EpicboxController.onSlate R address v x = (.ok (), y) := by
  have hbody : (EpicboxController.processIncomingSlate R (some address.stripped) (Slate.ofVersioned v) >>=
      fun r => if ¬r.1 then Prog.orPanic (EpicboxBroker.postSlate R
        (VersionedSlate.intoVersion r.2 (EpicboxController.version v)) address) else pure ()) x =
      (.ok (), y) := Prog.bind_of_ok h
  exact Prog.bind_of_ok (Prog.attempt_of_ok hbody)

/-- An error is only logged. -/
theorem onSlate_of_err {e : EpicboxError}
    (h : EpicboxController.processIncomingSlate R (some address.stripped) (Slate.ofVersioned v) x =
      (.error (.err e), y)) :
    EpicboxController.onSlate R address v x = (.ok (), y) :=
  Prog.bind_of_ok (Prog.attempt_of_err (Prog.bind_of_error h))

theorem onSlate_of_panic
    (h : EpicboxController.processIncomingSlate R (some address.stripped) (Slate.ofVersioned v) x =
      (.error .panic, y)) :
    EpicboxController.onSlate R address v x = (.error .panic, y) :=
  Prog.bind_of_error (Prog.attempt_of_panic (Prog.bind_of_error h))

theorem onSlate_of_sent {z : Listener}
    (h : EpicboxController.processIncomingSlate R (some address.stripped) (Slate.ofVersioned v) x =
      (.ok (false, s), y))
    (hpost : EpicboxBroker.postSlate R (VersionedSlate.intoVersion s (EpicboxController.version v)) address y =
      (.ok (), z)) :
    EpicboxController.onSlate R address v x = (.ok (), z) :=
  Prog.bind_of_ok (Prog.attempt_of_ok ((Prog.bind_of_ok h).trans (Prog.orPanic_eq_ok.2 hpost)))

/-- A reply that fails in any way is a panic. -/
theorem onSlate_of_unsent {f : Fault EpicboxError} {z : Listener}
    (h : EpicboxController.processIncomingSlate R (some address.stripped) (Slate.ofVersioned v) x =
      (.ok (false, s), y))
    (hpost : EpicboxBroker.postSlate R (VersionedSlate.intoVersion s (EpicboxController.version v)) address y =
      (.error f, z)) :
    EpicboxController.onSlate R address v x = (.error .panic, z) := by
  refine Prog.bind_of_error (Prog.attempt_of_panic ((Prog.bind_of_ok h).trans ?_))
  show Prog.orPanic _ y = _
  unfold Prog.orPanic
  rw [hpost]

/-- The reply is handed to the server, or the listener panics. -/
theorem onSlate_of_reply
    (h : EpicboxController.processIncomingSlate R (some address.stripped) (Slate.ofVersioned v) x =
      (.ok (false, s), y)) :
    (∃ request, Hands R address (VersionedSlate.intoVersion s (EpicboxController.version v)) request ∧
        (EpicboxController.onSlate R address v x).2.written = y.written ++ [request]) ∨
      (EpicboxController.onSlate R address v x).1 = .error .panic := by
  rcases hpost : EpicboxBroker.postSlate R
    (VersionedSlate.intoVersion s (EpicboxController.version v)) address y with ⟨f | ⟨⟩, z⟩
  · exact .inr (congrArg Prod.fst (onSlate_of_unsent h hpost))
  · obtain ⟨request, hhands, hwritten⟩ := postSlate_ok hpost
    exact .inl ⟨request, hhands, onSlate_of_sent h hpost ▸ hwritten⟩

/-- A slate that needs the wallet is received and the reply handed over. -/
theorem handled_of_lacks (hok : (EpicboxController.onSlate R address v x).1 = .ok ())
    (hrefused : ¬Refused R address (Slate.ofVersioned v) x)
    (hlacks : (Slate.ofVersioned v).participantData.length < (Slate.ofVersioned v).numParticipants) :
    Handled R address v x := by
  have hinputs : ¬(Slate.ofVersioned v).tx.inputs.isEmpty = true := fun h =>
    hrefused (.invoice hlacks h)
  rcases hreceive : R.receive address (Slate.ofVersioned v) x.wallet with ⟨(e | _) | ret, w⟩
  · exact absurd (.receive hlacks hreceive) hrefused
  · have hpanic : EpicboxController.processIncomingSlate R (some address.stripped) (Slate.ofVersioned v) x =
        (.error .panic, { x with wallet := w }) := by
      unfold EpicboxController.processIncomingSlate
      rw [if_pos hlacks, if_neg hinputs]
      exact Prog.bind_of_error (Prog.attempt_of_panic (inWallet_of_error hreceive))
    rw [onSlate_of_panic hpanic] at hok
    cases hok
  · have hreply : EpicboxController.processIncomingSlate R (some address.stripped) (Slate.ofVersioned v) x =
        (.ok (false, ret), { x with wallet := w }) := by
      unfold EpicboxController.processIncomingSlate
      rw [if_pos hlacks, if_neg hinputs]
      exact Prog.bind_of_ok (Prog.attempt_of_ok (inWallet_of_ok hreceive))
    rcases onSlate_of_reply hreply with ⟨request, hhands, hwritten⟩ | hpanic
    · exact .received hlacks hreceive hhands hwritten
    · rw [hpanic] at hok
      cases hok

/-- What follows a post is no reply. -/
theorem onSlate_of_posted {fs : Slate} {w : Wallet} (h : Finalizing R (Slate.ofVersioned v) x fs w)
    (hpost : EpicboxController.postFinalized R fs.tx
      (R.shuffle x.answers (R.onionAddresses x.node.answers)) (asked x w) = (.ok (), y))
    (hok : (EpicboxController.onSlate R address v x).1 = .ok ()) :
    (EpicboxController.onSlate R address v x).2.node = y.node := by
  obtain ⟨hnode, -⟩ := process_of_posted (some address.stripped) h hpost
  have hsame : (EpicboxController.markPosted R fs y).2.node = y.node := markPosted_sameNode fs y
  have hprocess : EpicboxController.processIncomingSlate R (some address.stripped) (Slate.ofVersioned v) x =
      (EpicboxController.markPosted R fs >>= fun _ => pure (true, Slate.ofVersioned v)) y := by
    rw [process_of_finalizing h, Prog.bind_of_ok hpost]
  rcases hmark : EpicboxController.markPosted R fs y with ⟨(e | _) | ⟨⟩, z⟩
  · rw [hmark] at hsame
    rw [onSlate_of_err (hprocess.trans (Prog.bind_of_error hmark))]
    exact hsame
  · rw [onSlate_of_panic (hprocess.trans (Prog.bind_of_error hmark))] at hok
    cases hok
  · rw [hmark] at hsame
    rw [onSlate_of_finalized (hprocess.trans (Prog.bind_of_ok hmark))]
    exact hsame

/-- A slate that came back is finalized and posted. -/
theorem handled_of_all (hok : (EpicboxController.onSlate R address v x).1 = .ok ())
    (hrefused : ¬Refused R address (Slate.ofVersioned v) x)
    (hall : (Slate.ofVersioned v).numParticipants ≤ (Slate.ofVersioned v).participantData.length) :
    Handled R address v x := by
  rcases hfinal : R.finalize (Slate.ofVersioned v) x.wallet with ⟨(e | _) | fs, w⟩
  · exact absurd (.finalize hall hfinal) hrefused
  · have hpanic : EpicboxController.processIncomingSlate R (some address.stripped) (Slate.ofVersioned v) x =
        (.error .panic, { x with wallet := w }) := by
      unfold EpicboxController.processIncomingSlate
      rw [if_neg (Nat.not_lt.2 hall)]
      exact Prog.bind_of_error (inWallet_of_error hfinal)
    rw [onSlate_of_panic hpanic] at hok
    cases hok
  have hfinalizing : Finalizing R (Slate.ofVersioned v) x fs w := ⟨hall, hfinal⟩
  rcases hroute : R.torRoute x with _ | url
  · rcases postFinalized_direct fs.tx (asked x w) hroute with ⟨r, hr, -, hpost⟩ | ⟨herror, -⟩
    · have hnode := onSlate_of_posted hfinalizing hpost hok
      have hacc : r.accepted = true := by
        by_contra hno
        refine hrefused (.direct hfinalizing hroute fun r' hr' => ?_)
        obtain rfl : r = r' := Except.ok.inj (hr.symm.trans hr')
        exact Bool.not_eq_true _ ▸ hno
      exact .finalized hfinalizing (congrArg NodeState.posts hnode) (List.mem_singleton.2 rfl) hacc
    · refine absurd (.direct hfinalizing hroute fun r hr => ?_) hrefused
      have herr : r.error.isNone = false := by
        rcases hnone : r.error with _ | err
        · exact absurd hnone (herror r hr)
        · rfl
      unfold Response.accepted
      rw [herr]
      rfl
  · rcases postFinalized_tor fs.tx (asked x w) hroute with ⟨hclient, hpost⟩ | ⟨-, hpanic, -⟩
    · have hnode := onSlate_of_posted hfinalizing hpost hok
      obtain ⟨r, hr, hacc⟩ : ∃ r, R.node.pushTor (x.node.answers + 1) url fs.tx = .ok r ∧
          r.accepted = true := by
        by_contra hno
        refine hrefused (.tor hfinalizing hroute hclient fun r hr => ?_)
        by_contra hacc
        exact hno ⟨r, hr, Bool.not_eq_false _ ▸ hacc⟩
      refine .finalized hfinalizing (congrArg NodeState.posts hnode) (List.mem_singleton.2 rfl) ?_
      show (Post.tor url fs.tx (R.node.pushTor (x.node.answers + 1) url fs.tx)).accepted = true
      rw [hr]
      exact hacc
    · have hrun := process_of_not_posted (some address.stripped) hfinalizing (Prod.ext hpanic rfl)
      rw [onSlate_of_panic hrun] at hok
      cases hok

end

theorem handled_of_onSlate {address : EpicboxAddress} {v : VersionedSlate} {x : Listener}
    (hok : (EpicboxController.onSlate R address v x).1 = .ok ())
    (hrefused : ¬Refused R address (Slate.ofVersioned v) x) : Handled R address v x := by
  by_cases hlacks : (Slate.ofVersioned v).participantData.length < (Slate.ofVersioned v).numParticipants
  · exact handled_of_lacks hok hrefused hlacks
  · exact handled_of_all hok hrefused (Nat.not_lt.1 hlacks)

/-! ## A round -/

theorem clientDetails_quiet : Prog.Keeps Quiet (EpicboxClient.clientDetails R) := by
  unfold EpicboxClient.clientDetails
  exact (socketSend_quiet rfl).bind fun _ => .ite (fun _ => .pure _) fun _ => .throw _

/-- What is written acknowledges nothing. -/
def NoMade (x y : Listener) : Prop := ∃ new, y.written = x.written ++ new ∧ mades new = []

instance : Std.Refl NoMade := ⟨fun _ => ⟨[], (List.append_nil _).symm, rfl⟩⟩

instance : IsTrans Listener NoMade := ⟨by
  rintro x y z ⟨new, hw, hm⟩ ⟨new', hw', hm'⟩
  refine ⟨new ++ new', ?_, ?_⟩
  · rw [hw', hw, List.append_assoc]
  · unfold mades at hm hm' ⊢
    rw [List.filterMap_append, hm, hm']
    rfl⟩

theorem Quiet.noMade {α : Type} {p : ListenerM α} (h : Prog.Keeps Quiet p) : Prog.Keeps NoMade p :=
  h.mono fun _ _ hq => hq.written

theorem onChallenge_noMade (str : List Char) : Prog.Keeps NoMade (EpicboxBroker.onChallenge R str) := by
  have hmodify (f : Listener → Listener) (hf : ∀ x, (f x).written = x.written) :
      Prog.Keeps NoMade (Prog.modify f : ListenerM Unit) := fun x => ⟨[], by simp [hf x], rfl⟩
  unfold EpicboxBroker.onChallenge
  refine Prog.Keeps.bind (hmodify (fun x => { x with challenge := some str }) fun _ => rfl) fun _ =>
    Prog.Keeps.get.bind fun x => ?_
  have hsubscribe : Prog.Keeps NoMade (checked (signChallenge R.crypto str R.secretKey) >>= fun signature =>
      socketSend R (EpicboxBroker.subscribeRequest R signature) >>= fun _ =>
        (pure .next : ListenerM EpicboxBroker.Round)) :=
    (Quiet.noMade (checked_quiet _)).bind fun _ => (Quiet.noMade (socketSend_quiet rfl)).bind fun _ =>
      .pure _
  refine .ite (fun _ => (Quiet.noMade clientDetails_quiet).bind fun _ => ?_) fun _ => hsubscribe
  exact Prog.Keeps.bind (hmodify (fun x => { x with firstRun := false }) fun _ => rfl) fun _ => hsubscribe

/-- The acknowledgement, and nothing else that acknowledges. -/
theorem madeSend_written (id : List Char) (x : Listener) :
    ∃ new, (EpicboxClient.madeSend R id x).2.written = x.written ++ new ∧
      (mades new = [] ∨ mades new = [id]) := by
  unfold EpicboxClient.madeSend
  rcases hsig : checked (signChallenge R.crypto id R.secretKey) x with ⟨f | signature, y⟩
  · obtain rfl : y = x := ((Prog.Keeps.lift _ : Prog.Reads (checked _)).rel hsig).symm
    rw [Prog.bind_of_error hsig]
    exact ⟨[], (List.append_nil _).symm, .inl rfl⟩
  · obtain ⟨-, rfl⟩ := checked_eq_ok.1 hsig
    rw [Prog.bind_of_ok hsig]
    rcases socketSend_cases (R := R) (.made R.address.publicKey (signature.toHex R.crypto)
      EPICBOX_PROTOCOL_VERSION id) y with hsent | hsent
    · rw [Prog.bind_of_ok hsent, if_pos rfl]
      refine ⟨[.made R.address.publicKey (signature.toHex R.crypto) EPICBOX_PROTOCOL_VERSION id], ?_,
        .inr rfl⟩
      rw [Prog.bind_of_ok (show nextRelay _ = (.ok _, _) from rfl)]
      split_ifs
      · rfl
      · rfl
    · rw [Prog.bind_of_ok hsent, if_neg nofun]
      exact ⟨[], (List.append_nil _).symm, .inl rfl⟩

/-- An acknowledgement is for the id, and needs a challenge. -/
theorem acknowledge_written (id : List Char) (x : Listener) :
    ∃ new, (EpicboxBroker.acknowledge R id x).2.written = x.written ++ new ∧
      (mades new = [] ∨ mades new = [id] ∧ x.challenge ≠ none) := by
  unfold EpicboxBroker.acknowledge
  rw [Prog.bind_of_ok (Prog.get_apply x)]
  rcases hchallenge : x.challenge with _ | challenge
  · exact ⟨[], (List.append_nil _).symm, .inl rfl⟩
  rw [Prog.bind_of_ok (Prog.unwrap_some challenge x)]
  rcases hsig : checked (signChallenge R.crypto challenge R.secretKey) x with ⟨f | signature, y⟩
  · obtain rfl : y = x := ((Prog.Keeps.lift _ : Prog.Reads (checked _)).rel hsig).symm
    rw [Prog.bind_of_error hsig]
    exact ⟨[], (List.append_nil _).symm, .inl rfl⟩
  obtain ⟨-, rfl⟩ := checked_eq_ok.1 hsig
  rw [Prog.bind_of_ok hsig]
  rcases socketSend_cases (R := R) (EpicboxBroker.subscribeRequest R signature) y with hsent | hsent
  · rw [Prog.bind_of_ok hsent, if_pos rfl]
    obtain ⟨new, hwritten, hmades⟩ := madeSend_written (R := R) id
      { y with answers := y.answers + 1, written := y.written ++ [EpicboxBroker.subscribeRequest R signature] }
    refine ⟨EpicboxBroker.subscribeRequest R signature :: new, ?_, ?_⟩
    · have hkeeps : ∀ z : Listener, ((Prog.attempt (EpicboxClient.madeSend R id) >>= fun _ =>
          (pure .next : ListenerM EpicboxBroker.Round)) z).2 = (EpicboxClient.madeSend R id z).2 := by
        intro z
        show (Prog.andThen (Prog.attempt _) _ z).2 = _
        unfold Prog.andThen Prog.attempt
        rcases EpicboxClient.madeSend R id z with ⟨(e | _) | ⟨⟩, z'⟩
        · rfl
        · rfl
        · rfl
      rw [hkeeps, hwritten, List.append_assoc]
      rfl
    · exact hmades.imp (fun h => h) fun h => ⟨h, nofun⟩
  · rw [Prog.bind_of_ok hsent, if_neg nofun]
    exact ⟨[], (List.append_nil _).symm, .inl rfl⟩

theorem onSlateMessage_of_parsed {sender str signature id : List Char} {v : VersionedSlate}
    {proof : TxProof} (h : TxProof.fromResponse R.crypto R.codecs sender str signature R.secretKey
      (some R.address) = .ok (v, proof)) :
    EpicboxBroker.onSlateMessage R sender str signature id =
      EpicboxController.onSlate R proof.address v >>= fun _ => EpicboxBroker.acknowledge R id := by
  unfold EpicboxBroker.onSlateMessage
  rw [h]

/-- A round acknowledges at most the slate of its message, once `on_slate` is back. -/
theorem round_written (i : Incoming) (x : Listener) :
    ∃ new, (EpicboxBroker.round R i x).2.written = x.written ++ new ∧
      (mades new = [] ∨ ∃ id address v, mades new = [id] ∧ x.challenge ≠ none ∧
        i.Carries R id address v ∧ (EpicboxController.onSlate R address v x).1 = .ok ()) := by
  have hquiet {α : Type} {p : ListenerM α} (hp : Prog.Keeps NoMade p) :
      ∃ new, (p x).2.written = x.written ++ new ∧ (mades new = [] ∨ ∃ id address v, mades new = [id] ∧
        x.challenge ≠ none ∧ i.Carries R id address v ∧
          (EpicboxController.onSlate R address v x).1 = .ok ()) := by
    obtain ⟨new, hwritten, hmades⟩ := hp x
    exact ⟨new, hwritten, .inl hmades⟩
  rcases i with _ | _ | m
  · exact hquiet (.pure _)
  · exact hquiet (.pure _)
  rcases m with r | _ | _ | _ | _
  case message.ping => exact hquiet (.pure _)
  case message.pong => exact hquiet (.pure _)
  case message.frame => exact hquiet (.pure _)
  case message.close => exact hquiet (.pure _)
  rcases r with _ | response
  · exact hquiet (.pure _)
  cases response with
  | ok => exact hquiet (.pure _)
  | error kind description => exact hquiet (.pure _)
  | challenge str => exact hquiet (onChallenge_noMade str)
  | getVersion str => exact hquiet (.pure _)
  | slate sender str signature challenge ver id =>
    show ∃ new, (EpicboxBroker.onSlateMessage R sender str signature id x).2.written = _ ∧ _
    rcases hparse : TxProof.fromResponse R.crypto R.codecs sender str signature R.secretKey
      (some R.address) with (e | _) | ⟨v, proof⟩
    · unfold EpicboxBroker.onSlateMessage
      rw [hparse]
      exact hquiet (.pure _)
    · unfold EpicboxBroker.onSlateMessage
      rw [hparse]
      exact hquiet .panic
    rw [onSlateMessage_of_parsed hparse]
    rcases hslate : EpicboxController.onSlate R proof.address v x with ⟨f | ⟨⟩, y⟩
    · obtain ⟨new, hwritten, hmades⟩ := ((onSlate_quiet proof.address v).rel hslate).written
      rw [Prog.bind_of_error hslate]
      exact ⟨new, hwritten, .inl hmades⟩
    · obtain ⟨hchallenge, new, hwritten, hmades⟩ := (onSlate_quiet proof.address v).rel hslate
      obtain ⟨new', hwritten', hmades'⟩ := acknowledge_written (R := R) id y
      rw [Prog.bind_of_ok hslate]
      have hboth : mades (new ++ new') = mades new' := by
        unfold mades at hmades ⊢
        rw [List.filterMap_append, hmades]
        rfl
      refine ⟨new ++ new', by rw [hwritten', hwritten, List.append_assoc], ?_⟩
      rcases hmades' with hnone | ⟨hone, hsome⟩
      · exact .inl (hboth.trans hnone)
      · exact .inr ⟨id, proof.address, v, hboth.trans hone, hchallenge ▸ hsome,
          ⟨sender, str, signature, challenge, ver, proof, rfl, hparse, rfl⟩, congrArg Prod.fst hslate⟩

/-- Of one round: what it acknowledges, it handled. -/
theorem round_acks {i : Incoming} {x : Listener} (h : Takes R i x) :
    ∃ new, (EpicboxBroker.round R i x).2.written = x.written ++ new ∧
      ∃ acked, acked.Sublist [(i, x)] ∧ List.Forall₂ (Acknowledges R) (mades new) acked := by
  obtain ⟨new, hwritten, hnone | ⟨id, address, v, hone, hchallenge, hcarries, hok⟩⟩ :=
    round_written (R := R) i x
  · exact ⟨new, hwritten, [], List.nil_sublist _, hnone ▸ .nil⟩
  · have hhandled := handled_of_onSlate hok (h hchallenge id address v hcarries)
    refine ⟨new, hwritten, [(i, x)], List.Sublist.refl _, ?_⟩
    rw [hone]
    exact .cons ⟨address, v, hcarries, hhandled⟩ .nil

/-! ## Runs -/

theorem subscribe_of_step {i : Incoming} {x y : Listener} (h : R.step x i = some y)
    (is : List Incoming) :
    EpicboxBroker.subscribe R (i :: is) x = EpicboxBroker.subscribe R is y ∧
      (EpicboxBroker.round R i x).2 = y := by
  unfold Relay.step at h
  rcases hround : EpicboxBroker.round R i x with ⟨f | _ | result, z⟩
  · rw [hround] at h
    cases h
  · rw [hround] at h
    cases h
    exact ⟨Prog.bind_of_ok hround, rfl⟩
  · rw [hround] at h
    cases h

/-- The loop ends with a round that is no step. -/
theorem subscribe_of_end {i : Incoming} {x : Listener} (h : R.step x i = none) (is : List Incoming) :
    (EpicboxBroker.subscribe R (i :: is) x).2 = (EpicboxBroker.round R i x).2 := by
  unfold Relay.step at h
  rcases hround : EpicboxBroker.round R i x with ⟨f | _ | result, z⟩
  · exact congrArg Prod.snd (Prog.bind_of_error hround)
  · rw [hround] at h
    cases h
  · exact congrArg Prod.snd (Prog.bind_of_ok hround)

namespace AcksHandled

def keyText (n : Nat) : List Char :=
  (Base58.toBase58Check .small (CryptoLib.small.serializePublicKey ⟨n⟩) [1, 0]).getD []

def relay : Relay :=
  { Relay.small with address := ⟨String.ofList (keyText 1), DEFAULT_EPICBOX_DOMAIN, none⟩ }

/-- The address of the other wallet, whose key is 2. -/
def peer : EpicboxAddress := ⟨String.ofList (keyText 2), DEFAULT_EPICBOX_DOMAIN, none⟩

def peerText : List Char := keyText 2 ++ '@' :: "epicbox.epiccash.com".toList

def expired : VersionedSlate :=
  .intoVersion
    { World.emptySlate with
      ttlCutoffHeight := some 0
      tx := { Transaction.empty with inputs := [⟨true, ⟨5⟩⟩] } } .v3

/-- What the other wallet sends. -/
def message (v : VersionedSlate) : EncryptedMessage where
  destination := relay.address
  encryptedMessage := String.ofList (toHex (utf8 (v.toText .numbers) ++ List.replicate 16 0))
  salt := String.ofList (toHex (List.replicate 8 0))
  nonce := String.ofList (toHex (List.replicate 12 0))

/-- What the other wallet signs it with. -/
def signed (text : List Char) : Signature := ⟨((CryptoLib.small.sha256 (utf8 text)).sum + 2) % 256⟩

def text (v : VersionedSlate) : List Char := (message v).toJson.render

def challenged : Incoming := .message (.data (some (.challenge ['c'])))

def sent (v : VersionedSlate) : Incoming :=
  .message (.data (some (.slate peerText (text v) ((signed (text v)).toHex .small) [] [] ['i', 'd'])))

/-- The listener once it subscribed. -/
def subscribed (w : Wallet) : Listener := (EpicboxBroker.round relay challenged (.start w)).2

theorem small_opens : CryptoLib.small.Opens := by
  intro key nonce m c hc hm
  obtain rfl : m ++ List.replicate 16 0 = c := Option.some.inj hc
  refine ⟨by simp, fun b hb => ?_, List.replicate 16 0, rfl, ?_⟩
  · rcases List.mem_append.1 hb with hb | hb
    · exact hm b hb
    · rw [List.eq_of_mem_replicate hb]
      decide
  · show (if (m ++ List.replicate 16 0).length < 16 then none else some (m ++ List.replicate 16 0)) = _
    rw [if_neg (by simp)]

theorem fromHex_signed (text : List Char) :
    Signature.fromHex .small ((signed text).toHex .small) = .ok (signed text) := by
  obtain ⟨n, hn, hsigned⟩ : ∃ n < 256, signed text = ⟨n⟩ := ⟨_, Nat.mod_lt _ (by decide), rfl⟩
  have hhex : fromHex (toHex (List.replicate 7 0 ++ [n % 256])) = .ok (List.replicate 7 0 ++ [n % 256]) := by
    refine fromHex_toHex (by simp) fun b hb => ?_
    rcases List.mem_append.1 hb with hb | hb
    · rw [List.eq_of_mem_replicate hb]
      decide
    · rw [List.mem_singleton.1 hb]
      exact Nat.mod_lt _ (by decide)
  have hsum : (List.replicate 7 0 ++ [n % 256]).sum = n := by
    rw [List.sum_append, List.sum_singleton, Nat.mod_eq_of_lt hn]
    exact Nat.zero_add n
  have hder : CryptoLib.small.signatureFromDer (List.replicate 7 0 ++ [n % 256]) = some ⟨n⟩ := by
    show (if (List.replicate 7 0 ++ [n % 256]).length = 8 then
      some (⟨(List.replicate 7 0 ++ [n % 256]).sum⟩ : Signature) else none) = _
    have hlength : (List.replicate 7 0 ++ [n % 256]).length = 8 := rfl
    rw [if_pos hlength, hsum]
  rw [hsigned]
  unfold Signature.fromHex
  rw [show (⟨n⟩ : Signature).toHex .small = toHex (List.replicate 7 0 ++ [n % 256]) from rfl, hhex]
  show Checked.unwrap (CryptoLib.small.signatureFromDer (List.replicate 7 0 ++ [n % 256])) = _
  rw [hder]
  rfl

theorem new_small (salt nonce : List Nat) (text : List Char) (destination : EpicboxAddress) (k : PublicKey)
    (s : SecretKey) : EncryptedMessage.new .small salt nonce text destination k s = .ok
      { destination, encryptedMessage := String.ofList (toHex (utf8 text ++ List.replicate 16 0)),
        salt := String.ofList (toHex salt), nonce := String.ofList (toHex nonce) } := rfl

theorem verify_small (m : List Nat) (k : Nat) :
    CryptoLib.small.verify m ⟨(m.sum + k) % 256⟩ ⟨k⟩ = true := decide_eq_true rfl

theorem parsed_of (v : VersionedSlate) {text : List Char} (htext : text = (message v).toJson.render) :
    ∃ proof, TxProof.fromResponse .small .numbers peerText text ((signed text).toHex .small) ⟨1⟩
      (some relay.address) = .ok (v, proof) ∧ proof.address = peer := by
  have haddress : EpicboxAddress.fromStr .small peerText = .ok peer := by decide +kernel
  have hkey : peer.key .small = .ok ⟨2⟩ := by
    unfold EpicboxAddress.key peer
    rw [String.toList_ofList]
    decide +kernel
  have hverify : CryptoLib.small.verify (CryptoLib.small.sha256 (utf8 text)) (signed text) ⟨2⟩ = true :=
    verify_small _ 2
  have hnew : EncryptedMessage.new .small (List.replicate 8 0) (List.replicate 12 0)
      (v.toText .numbers) relay.address ⟨1⟩ ⟨2⟩ = .ok (message v) := new_small ..
  have hagree : CryptoLib.small.mulAssign ⟨2⟩ ⟨1⟩ = CryptoLib.small.mulAssign ⟨1⟩ ⟨2⟩ := rfl
  have hport : ∀ p ∈ relay.address.port, p < 2 ^ 16 := nofun
  have hsalt : List.replicate 8 0 ≠ [] ∧ ∀ b ∈ List.replicate 8 0, b < 256 := by decide
  have hnonce : (List.replicate 12 0).length = 12 ∧ ∀ b ∈ List.replicate 12 0, b < 256 := by decide
  exact TxProof.fromResponse_new haddress hkey (fromHex_signed text) hverify hnew htext hport small_opens
    hagree hsalt hnonce

theorem text_eq (v : VersionedSlate) : text v = (message v).toJson.render := by
  unfold text
  rfl

theorem data_inj {s s' t t' g g' c c' u u' id id' : List Char}
    (h : Incoming.message (.data (some (.slate s t g c u id))) =
      .message (.data (some (.slate s' t' g' c' u' id')))) : s = s' ∧ t = t' ∧ g = g' ∧ id = id' := by
  cases h
  exact ⟨rfl, rfl, rfl, rfl⟩

/-- What is sent carries this slate and no other. -/
theorem carries_sent {v v' : VersionedSlate} {id : List Char} {address : EpicboxAddress}
    (h : (sent v).Carries relay id address v') : v' = v ∧ address = peer := by
  obtain ⟨sender, str, signature, challenge, ver, proof, hmessage, hparse, haddress⟩ := h
  obtain ⟨proof', hparse', haddress'⟩ := parsed_of v (text_eq v)
  obtain ⟨hsender, hstr, hsignature, -⟩ := data_inj hmessage
  rw [← hsender, ← hstr, ← hsignature] at hparse
  obtain ⟨hv, hproof⟩ := Prod.mk.inj (Except.ok.inj (hparse.symm.trans hparse'))
  exact ⟨hv, by rw [← haddress, hproof, haddress']⟩

theorem carries_challenged {v : VersionedSlate} {id : List Char} {address : EpicboxAddress} :
    ¬challenged.Carries relay id address v := by
  rintro ⟨_, _, _, _, _, _, h, -, -⟩
  cases h

theorem round_sent {v : VersionedSlate} {x y : Listener}
    (h : EpicboxController.onSlate relay peer v x = (.ok (), y)) :
    EpicboxBroker.round relay (sent v) x = EpicboxBroker.acknowledge relay ['i', 'd'] y := by
  obtain ⟨proof, hparse, haddress⟩ := parsed_of v (text_eq v)
  have hmessage : EpicboxBroker.onSlateMessage relay peerText (text v) ((signed (text v)).toHex .small)
      ['i', 'd'] = EpicboxController.onSlate relay proof.address v >>= fun _ =>
        EpicboxBroker.acknowledge relay ['i', 'd'] := onSlateMessage_of_parsed hparse
  rw [haddress] at hmessage
  exact (congrFun hmessage x).trans (Prog.bind_of_ok h)

theorem subscribe_singleton (i : Incoming) (x : Listener) :
    (EpicboxBroker.subscribe R [i] x).2 = (EpicboxBroker.round R i x).2 := by
  rcases hstep : R.step x i with _ | y
  · exact subscribe_of_end hstep []
  · obtain ⟨hrun, hround⟩ := subscribe_of_step hstep []
    rw [hrun, hround]
    rfl

theorem step_challenged {w : Wallet} (h : (relay.step (.start w) challenged).isSome = true) :
    relay.step (.start w) challenged = some (subscribed w) := by
  obtain ⟨y, hy⟩ := Option.isSome_iff_exists.1 h
  obtain ⟨-, hround⟩ := subscribe_of_step hy []
  rw [hy, ← hround]
  rfl

/-! The reply is finalized, and the node takes the transaction. -/

def replied : VersionedSlate := .intoVersion Exchange.replied .v3

def waiting : Wallet := Exchange.sendLocked.2

theorem takes_replied : Takes relay (sent replied) (subscribed waiting) := by
  intro _ id address v hcarries hrefused
  obtain ⟨rfl, rfl⟩ := carries_sent hcarries
  have hall : (Slate.ofVersioned replied).numParticipants ≤
      (Slate.ofVersioned replied).participantData.length := by decide +kernel
  have hfinal : (relay.finalize (Slate.ofVersioned replied) (subscribed waiting).wallet).1.toOption.isSome =
      true := by decide +kernel
  cases hrefused with
  | invoice lacks inputs => exact absurd hall (Nat.not_le.2 lacks)
  | receive lacks fails => exact absurd hall (Nat.not_le.2 lacks)
  | finalize all fails =>
    rw [fails] at hfinal
    cases hfinal
  | tor finalizes route client rejects => cases rejects _ rfl
  | direct finalizes route rejects => cases rejects _ rfl

theorem not_handled : ¬Handled relay peer expired (subscribed World.funded) := by
  intro h
  cases h with
  | received lacks receives hands replies =>
    have hfails : (relay.receive peer (Slate.ofVersioned expired) (subscribed World.funded).wallet).1 =
        .error (.err .transactionExpired) := by decide +kernel
    rw [receives] at hfails
    cases hfails
  | finalized finalizes posted mem accepted =>
    have hlacks : ¬(Slate.ofVersioned expired).numParticipants ≤
        (Slate.ofVersioned expired).participantData.length := by decide +kernel
    exact hlacks finalizes.1

def processed : Except (Fault EpicboxError) (Bool × Slate) × Listener :=
  EpicboxController.processIncomingSlate relay (some peer.stripped) (Slate.ofVersioned expired)
    (subscribed World.funded)

theorem subscribed_expired : relay.step (.start World.funded) challenged = some (subscribed World.funded) :=
  step_challenged (by decide +kernel)

theorem acknowledged : mades (EpicboxBroker.subscribe relay [challenged, sent expired]
    (.start World.funded)).2.written = [['i', 'd']] := by
  have hprocessed : processed.1 = .error (.err (.epicboxReceiveTx .transactionExpired)) := by decide +kernel
  have hslate : EpicboxController.onSlate relay peer expired (subscribed World.funded) =
      (.ok (), processed.2) := onSlate_of_err (Prog.run_eq hprocessed)
  obtain ⟨hrun, -⟩ := subscribe_of_step subscribed_expired [sent expired]
  rw [hrun, subscribe_singleton, round_sent hslate]
  decide +kernel

end AcksHandled

end EpicWallet
