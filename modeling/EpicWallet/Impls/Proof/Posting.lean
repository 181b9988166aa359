import EpicWallet.Impls.Epicbox
import EpicWallet.Libwallet.Proof.Exchange

/-!
# Whether a finalized transaction is posted

`posted_iff`: after a reply was finalized a node took the transaction, and a post by Tor that fails is
followed by a direct one, exactly if the onion address takes it; or, where the post is direct, if an answer
without an error is an `Ok`. The answer to a post by Tor is dropped, and of a result only its `Ok` is read.
-/

namespace EpicWallet

open Lib WalletBackend

variable (R : Relay)

def Post.isTor : Post → Bool
  | .direct _ _ => false
  | .tor _ _ _ => true

/-- A reply that was finalized is really posted. -/
def Posted (address : Option String) (slate : Slate) (x : Listener) : Prop :=
  ∀ posts, (EpicboxController.processIncomingSlate R address slate x).2.node.posts =
      x.node.posts ++ posts →
    (∀ s, (EpicboxController.processIncomingSlate R address slate x).1 = .ok (true, s) →
      ∃ p ∈ posts, p.accepted = true) ∧
    ∀ before p after, posts = before ++ p :: after → p.isTor = true → p.accepted = false →
      ∃ q ∈ after, q.isTor = false

/-- The wallet finalizes a slate that came back. -/
def Finalizing (slate : Slate) (x : Listener) (fs : Slate) (w : Wallet) : Prop :=
  slate.numParticipants ≤ slate.participantData.length ∧
    (walletLock R.world >>= fun _ => Owner.finalizeTx R.world R.keychainMask slate) x.wallet = (.ok fs, w)

/-- The onion addresses the node tells; none if it does not answer. -/
def Relay.onionAddresses (n : Nat) : List String :=
  (((HTTPNodeClient.getOnionAddresses R.node) ⟨[], n⟩).1.toOption).getD []

/-- The onion address that is posted to. -/
def Relay.torRoute (x : Listener) : Option String :=
  if R.useTorListener then (R.shuffle x.answers (R.onionAddresses x.node.answers)).head? else none

/-- The listener once the node was asked for its onion addresses. -/
def asked (x : Listener) (w : Wallet) : Listener :=
  { x with wallet := w, node := { x.node with answers := x.node.answers + 1 }, answers := x.answers + 1 }

/-- The node after a post. -/
def NodeState.after (n : NodeState) (p : Post) : NodeState := ⟨n.posts ++ [p], n.answers + 1⟩

/-- The listener after a post. -/
def Listener.after (y : Listener) (p : Post) : Listener := { y with node := y.node.after p }

/-- What has to be so for a finalized transaction to be posted. -/
structure PostsWell (slate : Slate) (x : Listener) : Prop where
  tor : ∀ fs w url, Finalizing R slate x fs w → R.torRoute x = some url →
    R.node.torClient (x.node.answers + 1) = true →
      ∃ r, R.node.pushTor (x.node.answers + 1) url fs.tx = .ok r ∧ r.accepted = true
  direct : ∀ fs w r, Finalizing R slate x fs w → R.torRoute x = none →
    R.node.push (x.node.answers + 1) fs.tx false = .ok r → r.error = none →
      r.accepted = true ∨ ∃ f, (EpicboxController.markPosted R fs
        ((asked x w).after (.direct fs.tx (.ok r)))).1 = .error f

variable {R}

/-! ## Posting -/

/-- The node is asked once, and what it says depends on nothing else. -/
theorem getOnionAddresses_cases (N : NodeAnswers) (n : NodeState) :
    ∃ r : Except NodeError (List String), ∀ posts,
      HTTPNodeClient.getOnionAddresses N ⟨posts, n.answers⟩ =
        (r.mapError .err, ⟨posts, n.answers + 1⟩) := by
  unfold HTTPNodeClient.getOnionAddresses
  rcases hj : HTTPNodeClient.sendJsonRequest HTTPNodeClient.anyValue "get_onion_addresses"
    (N.onionAddresses n.answers) with e | j
  · refine ⟨.error e, fun posts => ?_⟩
    rw [Prog.bind_of_ok (show nextAnswer ⟨posts, n.answers⟩ = (.ok n.answers, _) from rfl), hj]
    rfl
  · refine ⟨.ok (HTTPNodeClient.addresses j), fun posts => ?_⟩
    rw [Prog.bind_of_ok (show nextAnswer ⟨posts, n.answers⟩ = (.ok n.answers, _) from rfl), hj]
    rfl

/-- Of an answer without an error any result is read. -/
theorem sendJsonRequest_cases (method : String) (a : Except String Response) :
    (∃ r j, a = .ok r ∧ r.error = none ∧
        HTTPNodeClient.sendJsonRequest HTTPNodeClient.anyValue method a = .ok j) ∨
      (∀ r, a = .ok r → r.error ≠ none) ∧
        ∃ e, HTTPNodeClient.sendJsonRequest HTTPNodeClient.anyValue method a = .error e := by
  rcases a with e | ⟨result, _ | rpcError⟩
  · exact .inr ⟨fun r h => (nomatch h), _, rfl⟩
  · rcases result with _ | j
    · exact .inl ⟨_, _, rfl, rfl, rfl⟩
    · exact .inl ⟨_, _, rfl, rfl, rfl⟩
  · refine .inr ⟨fun r h => by cases h; nofun, ?_⟩
    show ∃ e, (if containsText "Unauthorized" rpcError.message then Except.error NodeError.unauthorized
      else if containsText "Not found" rpcError.message then .error .notFound
      else .error (.badRequest _)) = Except.error e
    split_ifs
    · exact ⟨_, rfl⟩
    · exact ⟨_, rfl⟩
    · exact ⟨_, rfl⟩

/-- A direct post is sent, and returns unless the answer is an error. -/
theorem postTx_cases (N : NodeAnswers) (tx : Transaction) (fluff : Bool) (n : NodeState) :
    (∃ r, N.push n.answers tx fluff = .ok r ∧ r.error = none ∧
        Owner.postTx N tx fluff n = (.ok (), n.after (.direct tx (.ok r)))) ∨
      (∀ r, N.push n.answers tx fluff = .ok r → r.error ≠ none) ∧
        ∃ e, Owner.postTx N tx fluff n =
          (.error (.err e), n.after (.direct tx (N.push n.answers tx fluff))) := by
  have hrun (x : Except NodeError Json) (hx : HTTPNodeClient.sendJsonRequest HTTPNodeClient.anyValue
      "push_transaction" (N.push n.answers tx fluff) = x) : HTTPNodeClient.postTx N tx fluff n =
        ((x.map fun _ => ()).mapError .err, n.after (.direct tx (N.push n.answers tx fluff))) := by
    show (Prog.ofExcept (HTTPNodeClient.sendJsonRequest HTTPNodeClient.anyValue "push_transaction"
      (N.push n.answers tx fluff)) >>= fun _ => (pure () : NodeM Unit)) (n.after _) = _
    rw [hx]
    rcases x with e | j
    · rfl
    · rfl
  unfold Owner.postTx
  rcases sendJsonRequest_cases "push_transaction" (N.push n.answers tx fluff) with
    ⟨r, j, hr, herror, hj⟩ | ⟨herror, e, he⟩
  · rw [hr] at hrun hj
    exact .inl ⟨r, hr, herror, Prog.bind_of_ok (Prog.attempt_of_ok (hrun _ hj))⟩
  · exact .inr ⟨herror, e, Prog.bind_of_ok (Prog.attempt_of_err (hrun _ he))⟩

/-- The answer to a post by Tor is not looked at. -/
theorem postTxTor_cases (N : NodeAnswers) (tx : Transaction) (url : String) (n : NodeState) :
    N.torClient n.answers = true ∧ Owner.postTxTor N tx url n =
        (.ok (), n.after (.tor url tx (N.pushTor n.answers url tx))) ∨
      N.torClient n.answers = false ∧ (Owner.postTxTor N tx url n).1 = .error .panic ∧
        (Owner.postTxTor N tx url n).2.posts = n.posts := by
  have hrun : HTTPNodeClient.postTxTor N tx url n = (if ¬N.torClient n.answers then Prog.panic
      else record (.tor url tx (N.pushTor n.answers url tx))) { n with answers := n.answers + 1 } := rfl
  unfold Owner.postTxTor
  rcases hclient : N.torClient n.answers with _ | _
  · rw [hclient] at hrun
    rw [Prog.bind_of_error (Prog.attempt_of_panic hrun)]
    exact .inr ⟨rfl, rfl, rfl⟩
  · rw [hclient] at hrun
    exact .inl ⟨rfl, Prog.bind_of_ok (Prog.attempt_of_ok hrun)⟩

/-! ## The handler -/

/-- Nothing is posted. -/
def SameNode (x x' : Listener) : Prop := x'.node = x.node

instance : Std.Refl SameNode := ⟨fun _ => rfl⟩

instance : IsTrans Listener SameNode := ⟨fun _ _ _ h h' => h'.trans h⟩

theorem inWallet_sameNode {α : Type} (p : WalletM α) : Prog.Keeps SameNode (inWallet p) := fun _ => rfl

theorem markPosted_sameNode (fs : Slate) : Prog.Keeps SameNode (EpicboxController.markPosted R fs) := by
  refine (inWallet_sameNode _).attempt.bind fun r => ?_
  rcases r with e | _ | _
  · exact .pure _
  · exact .pure _
  · exact inWallet_sameNode _

theorem inWallet_of_ok {α : Type} {p : WalletM α} {x : Listener} {w : Wallet} {a : α}
    (h : p x.wallet = (.ok a, w)) : inWallet p x = (.ok a, { x with wallet := w }) :=
  Prog.within_of_ok h

theorem inWallet_of_error {α : Type} {p : WalletM α} {x : Listener} {w : Wallet} {f : Fault Error}
    (h : p x.wallet = (.error f, w)) :
    inWallet p x = (.error (Prog.mapFault .libWallet f), { x with wallet := w }) :=
  Prog.within_of_error h

theorem inNode_of_ok {α : Type} {p : NodeM α} {x : Listener} {n : NodeState} {a : α}
    (h : p x.node = (.ok a, n)) : inNode p x = (.ok a, { x with node := n }) := Prog.within_of_ok h

theorem inNode_of_error {α : Type} {p : NodeM α} {x : Listener} {n : NodeState} {f : Fault NodeError}
    (h : p x.node = (.error f, n)) :
    inNode p x = (.error (Prog.mapFault .node f), { x with node := n }) := Prog.within_of_error h

theorem onionAddresses_asked (x : Listener) :
    ∃ r, Prog.attempt (inNode (HTTPNodeClient.getOnionAddresses R.node)) x =
        (.ok r, { x with node := { x.node with answers := x.node.answers + 1 } }) ∧
      r.toOption.getD [] = R.onionAddresses x.node.answers := by
  obtain ⟨r, hr⟩ := getOnionAddresses_cases R.node x.node
  unfold Relay.onionAddresses
  rw [hr []]
  rcases r with e | l
  · exact ⟨.error (.node e), Prog.attempt_of_err (inNode_of_error (hr x.node.posts)), rfl⟩
  · exact ⟨.ok l, Prog.attempt_of_ok (inNode_of_ok (hr x.node.posts)), rfl⟩

section
variable {slate fs : Slate} {x : Listener} {w : Wallet} {address : Option String}

/-- What is left of the handling once the slate is finalized. -/
theorem process_of_finalizing (h : Finalizing R slate x fs w) :
    EpicboxController.processIncomingSlate R address slate x =
      (EpicboxController.postFinalized R fs.tx
          (R.shuffle x.answers (R.onionAddresses x.node.answers)) >>= fun _ =>
        EpicboxController.markPosted R fs >>= fun _ => pure (true, slate)) (asked x w) := by
  have hfinal : inWallet (walletLock R.world >>= fun _ =>
      Owner.finalizeTx R.world R.keychainMask slate) x = (.ok fs, { x with wallet := w }) :=
    inWallet_of_ok h.2
  obtain ⟨r, hask, haddresses⟩ := onionAddresses_asked (R := R) { x with wallet := w }
  unfold EpicboxController.processIncomingSlate
  rw [if_neg (Nat.not_lt.2 h.1), Prog.bind_of_ok hfinal, Prog.bind_of_ok hask, haddresses]
  rfl

variable (address) in
/-- Where nothing is finalized, nothing is posted and nothing said to be. -/
theorem process_of_not_finalizing (h : ∀ fs w, ¬Finalizing R slate x fs w) :
    (EpicboxController.processIncomingSlate R address slate x).2.node = x.node ∧
      ∀ s, (EpicboxController.processIncomingSlate R address slate x).1 ≠ .ok (true, s) := by
  unfold EpicboxController.processIncomingSlate
  by_cases hmore : slate.numParticipants > slate.participantData.length
  · rw [if_pos hmore]
    by_cases hempty : slate.tx.inputs.isEmpty = true
    · rw [if_pos hempty]
      exact ⟨rfl, nofun⟩
    · rw [if_neg hempty]
      rcases hreceive : (walletLock R.world >>= fun _ => Foreign.receiveTx R.world R.keychainMask slate
        none none address) x.wallet with ⟨(e | _) | ret, w⟩
      · rw [Prog.bind_of_ok (Prog.attempt_of_err (inWallet_of_error hreceive))]
        exact ⟨rfl, nofun⟩
      · rw [Prog.bind_of_error (Prog.attempt_of_panic (inWallet_of_error hreceive))]
        exact ⟨rfl, nofun⟩
      · rw [Prog.bind_of_ok (Prog.attempt_of_ok (inWallet_of_ok hreceive))]
        exact ⟨rfl, nofun⟩
  · rw [if_neg hmore]
    rcases hfinal : (walletLock R.world >>= fun _ =>
      Owner.finalizeTx R.world R.keychainMask slate) x.wallet with ⟨f | fs, w⟩
    · rw [Prog.bind_of_error (inWallet_of_error hfinal)]
      exact ⟨rfl, nofun⟩
    · exact absurd ⟨Nat.not_lt.1 hmore, hfinal⟩ (h fs w)

end

section
variable (tx : Transaction) {addresses : List String} (y : Listener)

theorem postFinalized_tor {url : String}
    (hroute : (if R.useTorListener then addresses.head? else none) = some url) :
    R.node.torClient y.node.answers = true ∧ EpicboxController.postFinalized R tx addresses y =
        (.ok (), y.after (.tor url tx (R.node.pushTor y.node.answers url tx))) ∨
      R.node.torClient y.node.answers = false ∧
        (EpicboxController.postFinalized R tx addresses y).1 = .error .panic ∧
        (EpicboxController.postFinalized R tx addresses y).2.node.posts = y.node.posts := by
  have huse : R.useTorListener = true := by
    by_contra hcon
    rw [if_neg hcon] at hroute
    cases hroute
  rw [if_pos huse] at hroute
  unfold EpicboxController.postFinalized
  rw [hroute]
  dsimp only
  rw [if_pos huse]
  rcases postTxTor_cases R.node tx url y.node with ⟨hclient, hrun⟩ | ⟨hclient, hpanic, hposts⟩
  · exact .inl ⟨hclient, Prog.bind_of_ok (Prog.attempt_of_ok (inNode_of_ok hrun))⟩
  · have hrun : inNode (Owner.postTxTor R.node tx url) y = (.error .panic, _) :=
      inNode_of_error (Prod.ext hpanic rfl)
    rw [Prog.bind_of_error (Prog.attempt_of_panic hrun)]
    exact .inr ⟨hclient, rfl, hposts⟩

theorem postFinalized_direct
    (hroute : (if R.useTorListener then addresses.head? else none) = none) :
    (∃ r, R.node.push y.node.answers tx false = .ok r ∧ r.error = none ∧
        EpicboxController.postFinalized R tx addresses y = (.ok (), y.after (.direct tx (.ok r)))) ∨
      (∀ r, R.node.push y.node.answers tx false = .ok r → r.error ≠ none) ∧
        ∃ e, EpicboxController.postFinalized R tx addresses y =
          (.error (.err (.node e)), y.after (.direct tx (R.node.push y.node.answers tx false))) := by
  have hdirect : EpicboxController.postFinalized R tx addresses =
      inNode (Owner.postTx R.node tx false) := by
    unfold EpicboxController.postFinalized
    rcases haddresses : addresses.head? with _ | url
    · rfl
    · dsimp only
      rw [haddresses] at hroute
      by_cases huse : R.useTorListener = true
      · rw [if_pos huse] at hroute
        cases hroute
      · rw [if_neg huse]
  rw [hdirect]
  rcases postTx_cases R.node tx false y.node with ⟨r, hr, herror, hrun⟩ | ⟨herror, e, hrun⟩
  · exact .inl ⟨r, hr, herror, inNode_of_ok hrun⟩
  · exact .inr ⟨herror, e, inNode_of_error hrun⟩

end

section
variable {slate fs : Slate} {x y : Listener} {w : Wallet} {address : Option String}

variable (address) in
/-- A post that returned is marked; nothing more is posted. -/
theorem process_of_posted (h : Finalizing R slate x fs w)
    (hpost : EpicboxController.postFinalized R fs.tx
      (R.shuffle x.answers (R.onionAddresses x.node.answers)) (asked x w) = (.ok (), y)) :
    (EpicboxController.processIncomingSlate R address slate x).2.node = y.node ∧
      ((∃ s, (EpicboxController.processIncomingSlate R address slate x).1 = .ok (true, s)) ↔
        (EpicboxController.markPosted R fs y).1 = .ok ()) := by
  have hnode : (EpicboxController.markPosted R fs y).2.node = y.node := markPosted_sameNode fs y
  rw [process_of_finalizing h, Prog.bind_of_ok hpost]
  rcases hmark : EpicboxController.markPosted R fs y with ⟨f | ⟨⟩, z⟩
  · rw [hmark] at hnode
    rw [Prog.bind_of_error hmark]
    refine ⟨hnode, ?_, nofun⟩
    rintro ⟨s, hs⟩
    cases hs
  · rw [hmark] at hnode
    rw [Prog.bind_of_ok hmark]
    exact ⟨hnode, fun _ => rfl, fun _ => ⟨slate, rfl⟩⟩

variable (address) in
theorem process_of_not_posted {f : Fault EpicboxError} (h : Finalizing R slate x fs w)
    (hpost : EpicboxController.postFinalized R fs.tx
      (R.shuffle x.answers (R.onionAddresses x.node.answers)) (asked x w) = (.error f, y)) :
    EpicboxController.processIncomingSlate R address slate x = (.error f, y) := by
  rw [process_of_finalizing h, Prog.bind_of_error hpost]

/-- With one post, that one has to be taken. -/
theorem posted_of_one {p : Post}
    (hposts : (EpicboxController.processIncomingSlate R address slate x).2.node.posts =
      x.node.posts ++ [p]) :
    Posted R address slate x ↔
      ((∃ s, (EpicboxController.processIncomingSlate R address slate x).1 = .ok (true, s)) →
        p.accepted = true) ∧ (p.isTor = true → p.accepted = true) := by
  constructor
  · intro h
    obtain ⟨hok, htor⟩ := h [p] hposts
    refine ⟨?_, fun hp => ?_⟩
    · rintro ⟨s, hs⟩
      obtain ⟨q, hq, hacc⟩ := hok s hs
      rwa [List.mem_singleton.1 hq] at hacc
    · rcases hacc : p.accepted with _ | _
      · obtain ⟨q, hq, -⟩ := htor [] p [] rfl hp hacc
        cases hq
      · rfl
  · rintro ⟨hok, htor⟩ posts hnew
    obtain rfl : [p] = posts := List.append_cancel_left (hposts.symm.trans hnew)
    refine ⟨fun s hs => ⟨p, List.mem_cons_self, hok ⟨s, hs⟩⟩, fun before q after hsplit hq hacc => ?_⟩
    obtain rfl : p = q := by
      have hmem : q ∈ [p] := hsplit ▸ List.mem_append_right before List.mem_cons_self
      exact (List.mem_singleton.1 hmem).symm
    rw [htor hq] at hacc
    cases hacc

/-- With no post, nothing may be said to be posted. -/
theorem posted_of_none
    (hposts : (EpicboxController.processIncomingSlate R address slate x).2.node.posts = x.node.posts)
    (hok : ∀ s, (EpicboxController.processIncomingSlate R address slate x).1 ≠ .ok (true, s)) :
    Posted R address slate x := by
  intro posts hnew
  obtain rfl : [] = posts :=
    List.append_cancel_left ((List.append_nil _).trans (hposts.symm.trans hnew))
  refine ⟨fun s hs => absurd hs (hok s), fun before p after hsplit => ?_⟩
  have := congrArg List.length hsplit
  simp at this

theorem Finalizing.unique {fs' : Slate} {w' : Wallet} (h : Finalizing R slate x fs w)
    (h' : Finalizing R slate x fs' w') : fs' = fs ∧ w' = w := by
  have heq := h'.2.symm.trans h.2
  exact ⟨Except.ok.inj (Prod.mk.inj heq).1, (Prod.mk.inj heq).2⟩

/-- By Tor: the onion address has to take the transaction. -/
theorem posted_iff_tor {url : String} (h : Finalizing R slate x fs w)
    (hroute : R.torRoute x = some url) :
    Posted R address slate x ↔ (R.node.torClient (x.node.answers + 1) = true →
      ∃ r, R.node.pushTor (x.node.answers + 1) url fs.tx = .ok r ∧ r.accepted = true) := by
  rcases postFinalized_tor fs.tx (asked x w) hroute with
    ⟨hclient, hpost⟩ | ⟨hclient, hpanic, hsame⟩
  · obtain ⟨hnode, -⟩ := process_of_posted address h hpost
    rw [posted_of_one (congrArg NodeState.posts hnode)]
    have hacc : (Post.tor url fs.tx (R.node.pushTor (asked x w).node.answers url fs.tx)).accepted = true ↔
        ∃ r, R.node.pushTor (x.node.answers + 1) url fs.tx = .ok r ∧ r.accepted = true := by
      show (Post.tor url fs.tx (R.node.pushTor (x.node.answers + 1) url fs.tx)).accepted = true ↔ _
      rcases R.node.pushTor (x.node.answers + 1) url fs.tx with e | r
      · exact iff_of_false nofun (by rintro ⟨r, hr, -⟩; cases hr)
      · exact ⟨fun hr => ⟨r, rfl, hr⟩, by rintro ⟨r', hr, hacc⟩; cases hr; exact hacc⟩
    rw [hacc]
    exact ⟨fun hboth _ => hboth.2 rfl, fun hr => ⟨fun _ => hr hclient, fun _ => hr hclient⟩⟩
  · have hrun := process_of_not_posted address h (Prod.ext hpanic rfl)
    refine iff_of_true (posted_of_none ?_ ?_) fun hcon => ?_
    · rw [hrun]
      exact hsame
    · rw [hrun]
      nofun
    · exact absurd (hclient.symm.trans hcon) nofun

/-- Directly: an answer without an error has to be an `Ok`, unless marking the entry fails. -/
theorem posted_iff_direct (h : Finalizing R slate x fs w) (hroute : R.torRoute x = none) :
    Posted R address slate x ↔ ∀ r, R.node.push (x.node.answers + 1) fs.tx false = .ok r →
      r.error = none → r.accepted = true ∨ ∃ f, (EpicboxController.markPosted R fs
        ((asked x w).after (.direct fs.tx (.ok r)))).1 = .error f := by
  rcases postFinalized_direct fs.tx (asked x w) hroute with
    ⟨r, hr, herror, hpost⟩ | ⟨herror, e, hpost⟩
  · obtain ⟨hnode, hok⟩ := process_of_posted address h hpost
    rw [posted_of_one (congrArg NodeState.posts hnode), hok]
    constructor
    · rintro ⟨hacc, -⟩ r' hr' -
      obtain rfl : r = r' := Except.ok.inj (hr.symm.trans hr')
      rcases hmark : (EpicboxController.markPosted R fs
        ((asked x w).after (.direct fs.tx (.ok r)))).1 with f | ⟨⟩
      · exact .inr ⟨f, rfl⟩
      · exact .inl (hacc hmark)
    · intro hall
      refine ⟨fun hmark => ?_, nofun⟩
      rcases hall r hr herror with hacc | ⟨f, hf⟩
      · exact hacc
      · rw [hmark] at hf
        cases hf
  · have hrun := process_of_not_posted address h hpost
    refine iff_of_true ?_ fun r hr hcon => absurd hcon (herror r hr)
    rw [posted_of_one (congrArg (fun run => run.2.node.posts) hrun)]
    refine ⟨?_, nofun⟩
    rintro ⟨s, hs⟩
    rw [hrun] at hs
    cases hs

end

theorem posted_iff (address : Option String) (slate : Slate) (x : Listener) :
    Posted R address slate x ↔ PostsWell R slate x := by
  by_cases hfinal : ∃ fs w, Finalizing R slate x fs w
  · obtain ⟨fs, w, h⟩ := hfinal
    rcases hroute : R.torRoute x with _ | url
    · rw [posted_iff_direct h hroute]
      constructor
      · intro hall
        refine ⟨fun _ _ url _ hcon => absurd (hroute.symm.trans hcon) nofun, ?_⟩
        intro fs' w' r h' _
        obtain ⟨rfl, rfl⟩ := h.unique h'
        exact hall r
      · intro hwell r
        exact hwell.direct fs w r h hroute
    · rw [posted_iff_tor h hroute]
      constructor
      · intro hall
        refine ⟨?_, fun _ _ _ _ hcon => absurd (hroute.symm.trans hcon) nofun⟩
        intro fs' w' url' h' hroute'
        obtain ⟨rfl, rfl⟩ := h.unique h'
        obtain rfl : url = url' := Option.some.inj (hroute.symm.trans hroute')
        exact hall
      · intro hwell
        exact hwell.tor fs w url h hroute
  · have hno : ∀ fs w, ¬Finalizing R slate x fs w := fun fs w h => hfinal ⟨fs, w, h⟩
    obtain ⟨hnode, hok⟩ := process_of_not_finalizing address hno
    exact iff_of_true (posted_of_none (congrArg NodeState.posts hnode) hok)
      ⟨fun fs w _ h => absurd h (hno fs w), fun fs w _ h => absurd h (hno fs w)⟩

/-! The reply of a payment, and an onion address that cannot be reached. -/

namespace Posted

def relay : Relay :=
  { Relay.small with
    node := { Relay.small.node with pushTor := fun _ _ _ => .error "Cannot make request" } }

def listener : Listener := .start Exchange.sendLocked.2

def finalized : Except (Fault Error) Slate × Wallet :=
  (walletLock relay.world >>= fun _ =>
    Owner.finalizeTx relay.world relay.keychainMask Exchange.replied) listener.wallet

theorem finalized_eq : finalized = (.ok (World.slateOr World.emptySlate finalized), finalized.2) :=
  Prog.run_eq (by decide +kernel)

theorem finalizing : Finalizing relay Exchange.replied listener
    (World.slateOr World.emptySlate finalized) finalized.2 :=
  ⟨by decide +kernel, finalized_eq⟩

theorem not_posted : ¬Posted relay none Exchange.replied listener := by
  have hroute : relay.torRoute listener = some "http://node.onion" := by decide +kernel
  intro h
  obtain ⟨r, hr, -⟩ := (posted_iff_tor finalizing hroute).1 h rfl
  cases hr

end Posted

end EpicWallet
