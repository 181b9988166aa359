import EpicWallet.Libwallet.Proof.Finalizes
import EpicWallet.Libwallet.Proof.Hex

/-!
# Messages cut to their limit

Four calls cut the message they are given to 256 bytes before they put it in the slate, each by
`String::truncate`, which panics where the cut is within a character. `truncates_iff`: the cut returns, and
the message in the slate is the beginning of the given one and not longer than the limit, exactly if the
message is not longer itself or its byte 256 ends a character. One of the calls takes its message from the
other party.
-/

namespace EpicWallet

open Lib

/-! ### The cut -/

theorem takeBytes_eq_some {n : Nat} {l p : List Char} (h : takeBytes n l = some p) :
    p <+: l ∧ byteLen p ≤ n := by
  induction l generalizing n p with
  | nil =>
    cases h
    exact ⟨List.nil_prefix, Nat.zero_le n⟩
  | cons c l ih =>
    unfold takeBytes at h
    split_ifs at h with hzero hfit
    · cases h
      exact ⟨List.nil_prefix, Nat.zero_le n⟩
    · obtain ⟨q, hq, rfl⟩ := Option.map_eq_some_iff.1 h
      obtain ⟨hinit, hlen⟩ := ih hq
      refine ⟨(List.cons_prefix_cons).2 ⟨rfl, hinit⟩, ?_⟩
      rw [byteLen_cons]
      omega

/-- The characters fill the bytes, or end before. -/
theorem takeBytes_isSome {n : Nat} {l : List Char} :
    takeBytes n l ≠ none ↔ byteLen l ≤ n ∨ ∃ p, p <+: l ∧ byteLen p = n := by
  induction l generalizing n with
  | nil => exact iff_of_true nofun (.inl (Nat.zero_le n))
  | cons c l ih =>
    have hpos := c.utf8Size_pos
    unfold takeBytes
    split_ifs with hzero hfit
    · exact iff_of_true nofun (.inr ⟨[], List.nil_prefix, hzero.symm⟩)
    · have hmap : (c :: ·) <$> takeBytes (n - c.utf8Size) l ≠ none ↔ takeBytes (n - c.utf8Size) l ≠ none :=
        not_congr Option.map_eq_none_iff
      rw [hmap, ih, byteLen_cons]
      constructor
      · rintro (hlen | ⟨p, hp, hlen⟩)
        · exact .inl (by omega)
        · exact .inr ⟨c :: p, (List.cons_prefix_cons).2 ⟨rfl, hp⟩, by rw [byteLen_cons]; omega⟩
      · rintro (hlen | ⟨p, hp, hlen⟩)
        · exact .inl (by omega)
        · rcases List.prefix_cons_iff.1 hp with rfl | ⟨q, rfl, hq⟩
          · exact absurd hlen.symm hzero
          · rw [byteLen_cons] at hlen
            exact .inr ⟨q, hq, by omega⟩
    · refine iff_of_false (fun h => h rfl) ?_
      rintro (hlen | ⟨p, hp, hlen⟩)
      · rw [byteLen_cons] at hlen
        omega
      · rcases List.prefix_cons_iff.1 hp with rfl | ⟨q, rfl, hq⟩
        · exact hzero hlen.symm
        · rw [byteLen_cons] at hlen
          omega

/-- The message kept of the one given: none of none, else its beginning, within the limit. -/
def Cut : Option String → Option String → Prop
  | none, kept => kept = none
  | some given, kept => ∃ m, kept = some m ∧ m.toList <+: given.toList ∧ byteLen m.toList ≤ userMessageMaxLen

/-- The message is not longer than the limit, or a character ends there. -/
def FitsLimit : Option String → Prop
  | none => True
  | some m => byteLen m.toList ≤ userMessageMaxLen ∨ ∃ p, p <+: m.toList ∧ byteLen p = userMessageMaxLen

theorem fitsLimit_some (m : String) : FitsLimit (some m) ↔ takeBytes userMessageMaxLen m.toList ≠ none :=
  takeBytes_isSome.symm

theorem truncateMessage_cut (message : Option String) :
    Prog.Returns (truncateMessage message) (Cut message) := fun w kept w' h => by
  cases message with
  | none =>
    cases h
    rfl
  | some m =>
    obtain ⟨l, _, hl, h⟩ := Prog.bind_ok.1 h
    cases h
    obtain ⟨hinit, hlen⟩ := takeBytes_eq_some (Prog.unwrap_eq_ok.1 hl).1
    exact ⟨_, rfl, by rwa [String.toList_ofList], by rwa [String.toList_ofList]⟩

theorem truncateMessage_panics_iff (message : Option String) (w : Wallet) :
    truncateMessage message w = (.error .panic, w) ↔ ¬FitsLimit message := by
  cases message with
  | none => exact iff_of_false nofun fun h => h trivial
  | some m =>
    rw [fitsLimit_some, not_not]
    show (Prog.unwrap (takeBytes userMessageMaxLen m.toList) >>= fun l => pure (some (String.ofList l)) :
      WalletM (Option String)) w = _ ↔ _
    rcases takeBytes userMessageMaxLen m.toList with _ | l
    · exact iff_of_true rfl rfl
    · exact iff_of_false nofun nofun

/-! ### The messages of a slate -/

def Slate.messages (s : Slate) : List (Option String) := s.participantData.map (·.message)

theorem Alike.messages {s s' : Slate} (h : Alike s s') : s'.messages = s.messages :=
  congrArg (List.map _) h.participantData

variable {W : World}

theorem addTransactionElements_messages {s : Slate} {k : Keychain} {elems : List Append}
    {r : Slate × BlindingFactor} (h : s.addTransactionElements W k elems = .ok r) :
    r.1.messages = s.messages := by
  unfold Slate.addTransactionElements at h
  dsimp only at h
  rcases ht : W.partialTransaction (s.updateKernel W).tx elems k with e | ⟨tx, blind⟩
  · rw [ht] at h
    cases h
  · rw [ht] at h
    cases h
    rfl

/-- Round 1 adds the message. -/
theorem fillRound1_messages (s : Slate) (k : Keychain) (secKey secNonce : SecretKey) (participantId : Nat)
    (message : Option String) :
    Prog.Returns (s.fillRound1 W k secKey secNonce participantId message) fun r =>
      r.1.messages = s.messages ++ [message] := by
  unfold Slate.fillRound1
  refine Prog.Returns.bind (φ := fun r : Slate × SecretKey => r.1.messages = s.messages) ?_ fun r hr => ?_
  · refine .ite (fun _ => ?_) fun _ => .pure rfl
    exact .next fun t => .next fun b => .next fun key => .pure rfl
  · refine Prog.Returns.bind (φ := fun s' : Slate => s'.messages = s.messages ++ [message]) ?_
      fun s' hs' => .pure hs'
    refine .next fun key => .next fun nonce => .next fun sig => .pure ?_
    show List.map _ (_ ++ _) = _
    rw [List.map_append]
    exact congrArg (· ++ [message]) hr

theorem setPartSig_messages {id : Nat} {sig : Signature} :
    ∀ {n : Nat} {l l' : List ParticipantData}, Slate.setPartSig id sig n l = some l' →
      l'.map (·.message) = l.map (·.message)
  | 0, l, l', h => by
    cases h
    rfl
  | n + 1, [], l', h => by cases h
  | n + 1, p :: l, l', h => by
    unfold Slate.setPartSig at h
    split_ifs at h with hid
    · cases h
      rfl
    · obtain ⟨q, hq, rfl⟩ := Option.map_eq_some_iff.1 h
      rw [List.map_cons, List.map_cons, setPartSig_messages hq]

/-- Round 2 signs, and leaves the messages. -/
theorem fillRound2_messages (s : Slate) (secKey secNonce : SecretKey) (participantId : Nat) :
    Prog.Returns (s.fillRound2 W secKey secNonce participantId) fun r => r.messages = s.messages := by
  unfold Slate.fillRound2
  refine .next fun _ => .next fun _ => .next fun nonces => .next fun keys => .next fun msg =>
    .next fun sig => .next fun _ => ?_
  refine Prog.Returns.bind (φ := fun l : List ParticipantData => l.map (·.message) = s.messages)
    (fun w l w' h => setPartSig_messages (Prog.unwrap_eq_ok.1 h).1) fun l hl => .pure hl

theorem buildSendTx_messages (k : Keychain) (mask : Option SecretKey) (s : Slate)
    (minimumConfirmations maxOutputs changeOutputs : Nat) (selectAll : Bool) (parent : Identifier) :
    Prog.Returns (Selection.buildSendTx W k mask s minimumConfirmations maxOutputs changeOutputs selectAll
      parent) fun r => r.1.messages = s.messages := by
  unfold Selection.buildSendTx
  refine .next fun selected => Prog.Returns.bind (φ := fun r => r.1.messages = s.messages)
    (.ofExcept fun r h => addTransactionElements_messages h) fun r hr => ?_
  exact .next fun context => .next fun _ => .pure hr

theorem buildRecipientOutput_messages (mask : Option SecretKey) (s : Slate) (parent : Identifier) :
    Prog.Returns (Selection.buildRecipientOutput W mask s parent) fun r => r.1.messages = s.messages := by
  unfold Selection.buildRecipientOutput
  refine .next fun keyId => .next fun k => Prog.Returns.bind (φ := fun r => r.1.messages = s.messages)
    (.ofExcept fun r h => addTransactionElements_messages h) fun r hr => ?_
  exact .next fun _ => .next fun context => .next fun commit => .next fun _ => .next fun logId =>
    .next fun tick => .next fun _ => .next fun _ => .next fun _ => .pure hr

theorem addInputsToSlate_messages (mask : Option SecretKey) (s : Slate)
    (minimumConfirmations maxOutputs changeOutputs : Nat) (selectAll : Bool) (parent : Identifier)
    (participantId : Nat) (message : Option String) (isInitiator : Bool) :
    Prog.Returns (Tx.addInputsToSlate W mask s minimumConfirmations maxOutputs changeOutputs selectAll parent
      participantId message isInitiator) fun r => r.1.messages = s.messages ++ [message] := by
  unfold Tx.addInputsToSlate
  refine .next fun _ => .next fun k =>
    (buildSendTx_messages k mask s _ _ _ _ _).bind fun built hbuilt => .next fun k' =>
      (fillRound1_messages built.1 k' _ _ _ message).bind fun first hfirst => ?_
  have hmessages : first.1.messages = s.messages ++ [message] := by rw [hfirst, hbuilt]
  refine .ite (fun _ => .pure hmessages) fun _ => .next fun _ =>
    (fillRound2_messages first.1 _ _ _).bind fun second hsecond => .pure ?_
  rw [hsecond, hmessages]

theorem addOutputToSlate_messages (mask : Option SecretKey) (s : Slate) (parent : Identifier)
    (participantId : Nat) (message : Option String) (isInitiator : Bool) :
    Prog.Returns (Tx.addOutputToSlate W mask s parent participantId message isInitiator) fun r =>
      r.1.messages = s.messages ++ [message] := by
  unfold Tx.addOutputToSlate
  refine (buildRecipientOutput_messages mask s parent).bind fun built hbuilt => .next fun k =>
    (fillRound1_messages built.1 k _ _ _ message).bind fun first hfirst => ?_
  have hmessages : first.1.messages = s.messages ++ [message] := by rw [hfirst, hbuilt]
  refine .ite (fun _ => .pure hmessages) fun _ => .next fun _ =>
    (fillRound2_messages first.1 _ _ _).bind fun second hsecond => .pure ?_
  rw [hsecond, hmessages]

theorem newTxSlate_messages (amount n : Nat) (ttl : Option Nat) :
    Prog.Returns (Tx.newTxSlate W amount n ttl) fun s => s.messages = [] :=
  (newTxSlate_returns amount n ttl).mono fun _ hs => by
    unfold Slate.messages
    rw [hs.2.1]
    rfl

/-! ### The calls -/

/-- The calls that are given a message. -/
inductive MessageCall where
  | initSendTx (args : InitTxArgs)
  | issueInvoiceTx (args : IssueInvoiceTxArgs)
  | processInvoiceTx (slate : Slate) (args : InitTxArgs)
  | receiveTx (slate : Slate) (destAcctName message addrFrom : Option String)

namespace MessageCall

def message : MessageCall → Option String
  | initSendTx args => args.message
  | issueInvoiceTx args => args.message
  | processInvoiceTx _ args => args.message
  | receiveTx _ _ message _ => message

def run (W : World) (mask : Option SecretKey) : MessageCall → WalletM Slate
  | initSendTx args => Owner.initSendTx W mask args
  | issueInvoiceTx args => Owner.issueInvoiceTx W mask args
  | processInvoiceTx slate args => Owner.processInvoiceTx W mask slate args
  | receiveTx slate destAcctName message addrFrom =>
    Foreign.receiveTx W mask slate destAcctName message addrFrom

/-- The messages of the slate that is returned, the caller's being `kept`: an estimate has none. -/
def messages (kept : Option String) : MessageCall → List (Option String)
  | initSendTx args => if args.estimateOnly = some true then [] else [kept]
  | issueInvoiceTx _ => [kept]
  | processInvoiceTx slate _ => slate.messages ++ [kept]
  | receiveTx slate _ _ _ => slate.messages ++ [kept]

/-- The message is cut without a panic, and what a call that returns puts in the slate is the beginning of
the one given, within the limit. -/
structure Truncates (W : World) (mask : Option SecretKey) (call : MessageCall) : Prop where
  returns : ∀ w, truncateMessage call.message w ≠ (.error .panic, w)
  kept : ∀ w s w', call.run W mask w = (.ok s, w') →
    ∃ kept, Cut call.message kept ∧ s.messages = call.messages kept

/-- Whatever the call returns carries the message that was cut. -/
theorem run_kept (mask : Option SecretKey) (call : MessageCall) :
    Prog.Returns (call.run W mask) fun s =>
      ∃ kept, Cut call.message kept ∧ s.messages = call.messages kept := by
  cases call with
  | initSendTx args =>
    show Prog.Returns (Owner.initSendTx W mask args) _
    unfold Owner.initSendTx
    refine .next fun parent => (truncateMessage_cut _).bind fun kept hkept =>
      (newTxSlate_messages _ _ _).bind fun s hs => .ite (fun hestimate => ?_) fun hestimate => ?_
    · refine .next fun fee => .pure ⟨kept, hkept, ?_⟩
      show s.messages = if args.estimateOnly = some true then [] else [kept]
      rw [if_pos hestimate, hs]
    · refine (addInputsToSlate_messages mask s _ _ _ _ _ _ kept _).bind fun added hadded =>
        (addProofInfo_returns mask parent _ added.1 added.2).bind fun proof hproof => .next fun _ =>
          .pure ⟨kept, hkept, ?_⟩
      show (withOrigVersion proof.1 args.targetSlateVersion).messages =
        if args.estimateOnly = some true then [] else [kept]
      rw [(alike_withOrigVersion _ _).messages, hproof.1.messages, hadded, hs, if_neg hestimate]
      rfl
  | issueInvoiceTx args =>
    show Prog.Returns (Owner.issueInvoiceTx W mask args) _
    unfold Owner.issueInvoiceTx
    refine .next fun parent => (truncateMessage_cut _).bind fun kept hkept =>
      (newTxSlate_messages _ _ _).bind fun s hs =>
        (addOutputToSlate_messages mask s _ _ kept _).bind fun added hadded => .next fun _ =>
          .pure ⟨kept, hkept, ?_⟩
    rw [(alike_withOrigVersion _ _).messages, hadded, hs]
    rfl
  | processInvoiceTx slate args =>
    show Prog.Returns (Owner.processInvoiceTx W mask slate args) _
    unfold Owner.processInvoiceTx
    refine .next fun _ => .next fun parent => .next fun txs => .ite (fun _ => .throw _) fun _ => ?_
    refine (truncateMessage_cut _).bind fun kept hkept => .next fun tip =>
      (updateHeights_returns slate _ _).bind fun s hs =>
        (addInputsToSlate_messages mask s _ _ _ _ _ _ kept _).bind fun added hadded => .next fun _ =>
          .pure ⟨kept, hkept, ?_⟩
    rw [(alike_withOrigVersion _ _).messages, hadded, hs.messages]
    rfl
  | receiveTx slate destAcctName message addrFrom =>
    show Prog.Returns (Foreign.receiveTx W mask slate destAcctName message addrFrom) _
    unfold Foreign.receiveTx
    refine .next fun _ => .next fun parent => .next fun txs => .ite (fun _ => .throw _) fun _ => ?_
    refine (truncateMessage_cut _).bind fun kept hkept =>
      (addOutputToSlate_messages mask slate _ _ kept _).bind fun added hadded => .next fun _ =>
        .next fun _ => .next fun k => .next fun excess =>
          (signProof_returns k parent excess added.1).mono fun s hs => ⟨kept, hkept, ?_⟩
    rw [hs.messages, hadded]
    rfl

/-- The message of a call is cut safely exactly if it fits the limit, or a character ends there. -/
theorem truncates_iff (W : World) (mask : Option SecretKey) (call : MessageCall) :
    Truncates W mask call ↔ FitsLimit call.message := by
  constructor
  · intro h
    by_contra hfits
    exact h.returns (WalletBackend.opened ⟨0⟩ 0) ((truncateMessage_panics_iff _ _).2 hfits)
  · intro hfits
    exact ⟨fun w h => (truncateMessage_panics_iff _ _).1 h hfits, run_kept mask call⟩

/-- A payment for which no entry of the account says that it was received is refused by a panic, if its
message is cut within a character. -/
theorem receiveTx_panics {mask : Option SecretKey} {slate : Slate}
    {destAcctName message addrFrom : Option String} (parent : Identifier)
    (txs : Nat × Nat × List TxLogEntry) {w : Wallet} (halive : checkTtl slate w = (.ok (), w))
    (haccount : accountNamed destAcctName w = (.ok parent, w))
    (htxs : Updater.retrieveTxs none (some slate.id) (some parent) false none none none w = (.ok txs, w))
    (hfresh : txs.2.2.any (·.txType = .txReceived) = false) (hfits : ¬FitsLimit message) :
    Foreign.receiveTx W mask slate destAcctName message addrFrom w = (.error .panic, w) := by
  unfold Foreign.receiveTx
  rw [Prog.bind_of_ok halive, Prog.bind_of_ok haccount, Prog.bind_of_ok htxs, if_neg (by simp [hfresh])]
  exact Prog.bind_of_error ((truncateMessage_panics_iff _ _).2 hfits)

/-- A slate that asks for a payment of 5. -/
def offeredSlate : Slate where
  numParticipants := 2
  id := ⟨1⟩
  tx := Transaction.empty
  amount := 5
  fee := 1
  height := 1
  lockHeight := 0
  ttlCutoffHeight := none
  participantData := []
  versionInfo := ⟨3, 3, 6⟩
  paymentProof := none

/-- One letter, and 128 letters of two bytes each. -/
def accentedMessage : String := String.ofList ('a' :: List.replicate 128 'é')

/-- An odd number of bytes ends within a letter of two. -/
theorem takeBytes_accents : ∀ n, takeBytes (2 * n + 1) (List.replicate (n + 1) 'é') = none
  | 0 => rfl
  | n + 1 => by
    have hsize : Char.utf8Size 'é' = 2 := rfl
    rw [List.replicate_succ, takeBytes, if_neg (Nat.succ_ne_zero _), hsize, if_pos (by omega),
      show 2 * (n + 1) + 1 - 2 = 2 * n + 1 by omega, takeBytes_accents n]
    rfl

theorem accentedMessage_not_fits : ¬FitsLimit (some accentedMessage) := by
  have hcut (n : Nat) : takeBytes (2 * n + 2) ('a' :: List.replicate (n + 1) 'é') = none := by
    have hsize : Char.utf8Size 'a' = 1 := rfl
    rw [takeBytes, if_neg (by omega), hsize, if_pos (by omega), show 2 * n + 2 - 1 = 2 * n + 1 by omega,
      takeBytes_accents n]
    rfl
  have hchars : accentedMessage.toList = 'a' :: List.replicate (127 + 1) 'é' := String.toList_ofList
  have hlimit : userMessageMaxLen = 2 * 127 + 2 := rfl
  rw [fitsLimit_some, not_not, hchars, hlimit]
  exact hcut 127

/-- A new wallet that is sent a payment with this message panics. -/
theorem not_truncates :
    ¬Truncates World.small none (.receiveTx offeredSlate none (some accentedMessage) none) ∧
    Foreign.receiveTx World.small none offeredSlate none (some accentedMessage) none
      (WalletBackend.opened ⟨5⟩ 5) = (.error .panic, WalletBackend.opened ⟨5⟩ 5) := by
  refine ⟨fun h => h.returns (WalletBackend.opened ⟨5⟩ 5)
    ((truncateMessage_panics_iff _ _).2 accentedMessage_not_fits), ?_⟩
  exact receiveTx_panics WalletBackend.defaultPath (0, 0, []) rfl rfl rfl rfl accentedMessage_not_fits

end MessageCall

end EpicWallet
