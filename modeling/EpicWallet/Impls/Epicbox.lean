import EpicWallet.Impls.NodeClient
import EpicWallet.Libwallet.Crypto
import EpicWallet.Libwallet.Owner

/-!
# The epicbox listener

`impls/src/adapters/epicbox.rs`: the loop that reads what an epicbox server sends, the handler of a slate
and what is written back. The server, the socket and the random numbers are a record of their answers
(`Relay`). The state is the wallet, the node, and what the socket took; the loop reads a list of messages.
-/

namespace EpicWallet

open Lib WalletBackend

inductive EpicboxError where
  | libWallet (e : Error)
  | node (e : NodeError)
  | crypto (e : CryptoError)
  | epicboxReceiveTx (e : Error)
  | epicboxTungstenite (msg : String)
  | epicboxWebsocketAbnormalTermination
deriving DecidableEq

/-! ## The protocol -/

inductive ProtocolError where
  | unknownError
  | invalidRequest
  | invalidSignature
  | invalidChallenge
  | tooManySubscriptions
deriving DecidableEq

inductive ProtocolResponseV2 where
  | ok
  | error (kind : ProtocolError) (description : String)
  | challenge (str : List Char)
  | slate (sender str signature challenge ver epicboxmsgid : List Char)
  | getVersion (str : List Char)
deriving DecidableEq

/-- What the wallet sends: of `ProtocolRequestV2`, and `PostSlate` of `ProtocolRequest`. -/
inductive ProtocolRequest where
  | subscribe (address ver : String) (signature : List Char)
  | postSlate (sender dest : String) (str signature : List Char)
  | made (address : String) (signature : List Char) (ver : String) (epicboxmsgid : List Char)
  | clientDetails (walletVersion walletMode protocolVersion : String)
deriving DecidableEq

def EPICBOX_PROTOCOL_VERSION : String := "3.0.0"

/-- What is read from the socket. -/
inductive SocketMessage where
  /-- A text or bytes; `none` if it is no response. -/
  | data (response : Option ProtocolResponseV2)
  | ping
  | pong
  | frame
  | close
deriving DecidableEq

/-- What the loop finds: the node not synced, an error of the socket, or a message. -/
inductive Incoming where
  | notSynced
  | failed
  | message (m : SocketMessage)
deriving DecidableEq

/-! ## The listener -/

structure Relay where
  world : World
  node : NodeAnswers
  crypto : CryptoLib
  codecs : SlateCodecs
  keychainMask : Option SecretKey
  useTorListener : Bool
  address : EpicboxAddress
  secretKey : SecretKey
  walletMode : String
  pkgVersion : String
  shuffle : Nat → List String → List String
  shuffle_perm : ∀ n l, (shuffle n l).Perm l
  /-- Whether the socket takes a message. -/
  sends : Nat → Bool
  /-- Whether somebody still listens to the channel of `made_send`. -/
  listens : Nat → Bool
  salt : Nat → List Nat
  nonce : Nat → List Nat

structure Listener where
  wallet : Wallet
  node : NodeState
  /-- What the socket took. -/
  written : List ProtocolRequest
  challenge : Option (List Char)
  firstRun : Bool
  /-- The number of answers taken from the relay. -/
  answers : Nat

abbrev ListenerM := Prog Listener EpicboxError

def inWallet {α : Type} : WalletM α → ListenerM α :=
  Prog.within Listener.wallet (fun w x => { x with wallet := w }) .libWallet

def inNode {α : Type} : NodeM α → ListenerM α :=
  Prog.within Listener.node (fun n x => { x with node := n }) .node

def checked {α : Type} (x : Checked α) : ListenerM α := Prog.lift (x.mapError (Prog.mapFault .crypto))

def nextRelay : ListenerM Nat := fun x => (.ok x.answers, { x with answers := x.answers + 1 })

variable (R : Relay)

/-- Writes to the socket; whether it took the message. -/
def socketSend (request : ProtocolRequest) : ListenerM Bool := do
  let n ← nextRelay
  if R.sends n then do
    Prog.modify fun x => { x with written := x.written ++ [request] }
    pure true
  else pure false

/-! ## Posting a slate -/

def EpicboxBroker.postSlate (slate : VersionedSlate) (dest : EpicboxAddress) : ListenerM Unit := do
  let pkey ← checked (dest.key R.crypto)
  let n ← nextRelay
  let message ← checked (EncryptedMessage.new R.crypto (R.salt n) (R.nonce n) (slate.toText R.codecs) dest
    pkey R.secretKey)
  let messageSer := message.toJson.render
  let signature ← checked (signChallenge R.crypto messageSer R.secretKey)
  let sent ← socketSend R (.postSlate R.address.stripped dest.stripped messageSer
    (signature.toHex R.crypto))
  if sent then pure () else Prog.panic

/-! ## The handler -/

namespace EpicboxController

/-- Posts a finalized transaction: by Tor if the node has an onion address and the listener of Tor is used,
else directly. -/
def postFinalized (tx : Transaction) (onionAddresses : List String) : ListenerM Unit :=
  match onionAddresses.head? with
  | some torNodeUrl =>
    if R.useTorListener then do
      match ← Prog.attempt (inNode (Owner.postTxTor R.node tx torNodeUrl)) with
      | .ok () => pure ()
      | .error _ => inNode (Owner.postTx R.node tx false)
    else inNode (Owner.postTx R.node tx false)
  | none => inNode (Owner.postTx R.node tx false)

/-- Waits for the transaction in the pool and marks it. -/
def markPosted (finalizedSlate : Slate) : ListenerM Unit := do
  match ← Prog.attempt
      (inWallet (Owner.waitForTxInMempool R.world R.keychainMask finalizedSlate.id 240)) with
  | .ok true => inWallet do
      walletLock R.world
      Owner.updateMempoolStatus R.world R.keychainMask finalizedSlate
  | _ => pure ()

/-- Whether the slate was finalized, and the slate as it is then. -/
def processIncomingSlate (address : Option String) (slate : Slate) : ListenerM (Bool × Slate) :=
  if slate.numParticipants > slate.participantData.length then
    if slate.tx.inputs.isEmpty then pure (false, slate)
    else do
      match ← Prog.attempt (inWallet do
          walletLock R.world
          Foreign.receiveTx R.world R.keychainMask slate none none address) with
      | .ok retSlate => pure (false, retSlate)
      | .error (.libWallet e) => Prog.throw (.epicboxReceiveTx e)
      | .error e => Prog.throw e
  else do
    let finalizedSlate ← inWallet do
      walletLock R.world
      Owner.finalizeTx R.world R.keychainMask slate
    let onionAddresses ← Prog.attempt (inNode (HTTPNodeClient.getOnionAddresses R.node))
    let n ← nextRelay
    postFinalized R finalizedSlate.tx (R.shuffle n ((onionAddresses.toOption).getD []))
    markPosted R finalizedSlate
    pure (true, slate)

/-- The version a slate came in. -/
def version : VersionedSlate → SlateVersion
  | .v3 _ => .v3
  | .v2 _ => .v2

/-- Nothing is returned: an error is written to the log. -/
def onSlate (sender : EpicboxAddress) (slate : VersionedSlate) : ListenerM Unit := do
  let result ← Prog.attempt do
    let (isFinalized, s) ← processIncomingSlate R (some sender.stripped) (Slate.ofVersioned slate)
    if ¬isFinalized then
      Prog.orPanic (EpicboxBroker.postSlate R (VersionedSlate.intoVersion s (version slate)) sender)
    else pure ()
  match result with
  | .ok () => pure ()
  | .error _ => pure ()

end EpicboxController

/-! ## The loop -/

namespace EpicboxClient

def madeSend (epicboxmsgid : List Char) : ListenerM Unit := do
  let signature ← checked (signChallenge R.crypto epicboxmsgid R.secretKey)
  let sent ← socketSend R
    (.made R.address.publicKey (signature.toHex R.crypto) EPICBOX_PROTOCOL_VERSION epicboxmsgid)
  if sent then do
    let n ← nextRelay
    if R.listens n then pure () else Prog.panic
  else Prog.throw (.epicboxTungstenite "Could not send 'Made' request!")

def clientDetails : ListenerM Unit := do
  let sent ← socketSend R (.clientDetails R.pkgVersion R.walletMode EPICBOX_PROTOCOL_VERSION)
  if sent then pure ()
  else Prog.throw (.epicboxTungstenite "Could not send 'ClientDetails' request!")

end EpicboxClient

namespace EpicboxBroker

/-- How a round of the loop ends. -/
inductive Round where
  | next
  | stop (result : Except EpicboxError Unit)

def subscribeRequest (signature : Signature) : ProtocolRequest :=
  .subscribe R.address.publicKey EPICBOX_PROTOCOL_VERSION (signature.toHex R.crypto)

def onChallenge (str : List Char) : ListenerM Round := do
  Prog.modify fun x => { x with challenge := some str }
  let x ← Prog.get
  if x.firstRun then do
    EpicboxClient.clientDetails R
    Prog.modify fun x => { x with firstRun := false }
  else pure ()
  let signature ← checked (signChallenge R.crypto str R.secretKey)
  let _ ← socketSend R (subscribeRequest R signature)
  pure .next

/-- What follows a slate that was handled: a new subscription and the acknowledgement. -/
def acknowledge (epicboxmsgid : List Char) : ListenerM Round := do
  let x ← Prog.get
  let challenge ← Prog.unwrap x.challenge
  let signature ← checked (signChallenge R.crypto challenge R.secretKey)
  let sent ← socketSend R (subscribeRequest R signature)
  if sent then do
    let _ ← Prog.attempt (EpicboxClient.madeSend R epicboxmsgid)
    pure .next
  else pure .next

def onSlateMessage (sender str signature epicboxmsgid : List Char) : ListenerM Round :=
  match TxProof.fromResponse R.crypto R.codecs sender str signature R.secretKey (some R.address) with
  | .error .panic => Prog.panic
  | .error (.err _) => pure (.stop (.ok ()))
  | .ok (slate, txProof) => do
    EpicboxController.onSlate R txProof.address slate
    acknowledge R epicboxmsgid

def onResponse : ProtocolResponseV2 → ListenerM Round
  | .challenge str => onChallenge R str
  | .slate sender str signature _ _ epicboxmsgid => onSlateMessage R sender str signature epicboxmsgid
  | .getVersion _ => pure .next
  | .error _ _ => pure .next
  | .ok => pure .next

def round : Incoming → ListenerM Round
  | .notSynced => pure .next
  | .failed => pure (.stop (.error .epicboxWebsocketAbnormalTermination))
  | .message (.data none) => pure (.stop (.ok ()))
  | .message (.data (some response)) => onResponse R response
  | .message .ping => pure .next
  | .message .pong => pure .next
  | .message .frame => pure .next
  | .message .close => pure (.stop (.ok ()))

/-- The loop on a list of what it finds; `next` if it still waits for more. -/
def subscribe : List Incoming → ListenerM Round
  | [] => pure .next
  | i :: is => do
    match ← round R i with
    | .next => subscribe is
    | .stop result => pure (.stop result)

end EpicboxBroker

/-! ## A small relay -/

/-- A relay that takes everything, beside a node that takes every transaction, with an onion address. -/
def Relay.small : Relay where
  world := World.small
  node :=
    { onionAddresses := fun _ => .ok ⟨some (.obj [("Ok", .arr [.str "http://node.onion"])]), none⟩
      push := fun _ _ _ => .ok ⟨some (.obj [("Ok", .null)]), none⟩
      torClient := fun _ => true
      pushTor := fun _ _ _ => .ok ⟨some (.obj [("Ok", .null)]), none⟩ }
  crypto := .small
  codecs := .numbers
  keychainMask := none
  useTorListener := true
  address := ⟨"", DEFAULT_EPICBOX_DOMAIN, none⟩
  secretKey := ⟨1⟩
  walletMode := "listener"
  pkgVersion := ""
  shuffle _ l := l
  shuffle_perm _ _ := .refl _
  sends _ := true
  listens _ := true
  salt _ := List.replicate 8 0
  nonce _ := List.replicate 12 0

/-- A listener that has just connected. -/
def Listener.start (w : Wallet) : Listener := ⟨w, ⟨[], 0⟩, [], none, true, 0⟩

end EpicWallet
