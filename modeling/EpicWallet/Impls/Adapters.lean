import EpicWallet.Impls.Emoji
import EpicWallet.Impls.NodeClient
import EpicWallet.Lib.Files

/-!
# Sending a slate

`impls/src/adapters/`: what each transport hands to the receiver and the slate it returns, and
`controller/src/command.rs`, which slate the sender locks. The other side and the programs a transport
runs are a record of their answers (`Transports`). The state of an exchange is what was handed over and
the directory a file is written to.
-/

namespace EpicWallet

open Lib

/-- The errors of the transports. -/
inductive SendError where
  | io (code : Nat)
  | slate (e : SlateError)
  | clientCallback (msg : String)
  | epicbox (code : Nat)
deriving DecidableEq

/-! ## The other side -/

/-- A wallet that listens on http. -/
structure HttpPeer where
  isNodeSynced : Bool
  /-- The answer to a request: an error of the client, or a body, which may not be JSON. -/
  post : Json → Except String (Option Json)

structure KeybasePeer where
  /-- Whether `keybase chat api` sent a message; `none` is a panic. -/
  send : List Char → Option Bool
  /-- The messages of every round until the time is up; `none` is a failure of `keybase`. -/
  rounds : List (Option (List (List Char)))

structure EpicboxPeer where
  start : Except (Fault SendError) Unit
  /-- `EpicboxAddress::from_str` on the destination. -/
  address : Except (Fault SendError) Unit
  /-- Encrypting and signing the slate. -/
  encrypt : Except (Fault SendError) Unit
  /-- Whether the socket takes a message, and whether it closes; both are unwrapped. -/
  sends : Bool
  closes : Bool

structure Transports where
  emoji : EmojiMap
  files : Faults SendError
  http : HttpPeer
  keybase : KeybasePeer
  epicbox : EpicboxPeer

/-- What is handed to the receiver. -/
inductive Delivery where
  | json (text : List Char)
  | emoji (text : List Char)

/-- An exchange: what was handed over, and the directory of the files. -/
structure Sending where
  handed : List Delivery
  disk : Disk Unit

abbrev SendingM := Prog Sending SendError

def hand (m : Delivery) : SendingM Unit := Prog.modify fun x => { x with handed := x.handed ++ [m] }

variable (C : SlateCodecs)

/-! ## Files -/

namespace PathToSlate

variable (F : Faults SendError) (path : String)

def putTx (slate : Slate) : Prog (Disk Unit) SendError Unit := do
  Disk.create F path
  let outSlate := featureVersion slate
  Disk.writeAll F path (String.ofList (outSlate.toText C))
  -- `sync_all`
  Disk.op F id id

def getTx : Prog (Disk Unit) SendError Slate := do
  Disk.openFile F path
  let content ← Disk.readToString F path
  match Slate.deserializeUpgrade C content.toList with
  | .ok s => pure s
  | .error e => Prog.throw (.slate e)

/-- A file that was written is there for the receiver. -/
def hand (slate : Slate) : SendingM Unit := fun x =>
  let (r, disk) := putTx C F path slate x.disk
  (r, { handed := x.handed ++ ((disk.files.get path).map fun t => Delivery.json t.toList).toList, disk })

end PathToSlate

/-! ## HTTP -/

/-- A field of an error, in its text. -/
def errorText (what : String) (res : Json) : String :=
  what ++ ": Error: " ++ String.ofList (jsonAt "code" (jsonAt "error" res)).render ++ ", Message: " ++
    String.ofList (jsonAt "message" (jsonAt "error" res)).render

namespace HttpSlateSender

variable (H : HttpPeer)

def versionReport (e : String) : String :=
  if containsText "404" e then
    "Other wallet is incompatible and requires an upgrade. " ++
      "Please urge the other wallet owner to upgrade and try the transaction again."
  else "Performing version check (is recipient listening?): " ++ e

def checkOtherVersion : SendingM SlateVersion :=
  match H.post (jsonRpc "check_version" []) with
  | .error e => Prog.throw (.clientCallback (versionReport e))
  | .ok none => Prog.panic
  | .ok (some res) =>
    if ¬isNull (jsonAt "error" res) then
      Prog.throw (.clientCallback (errorText "Posting transaction" res))
    else do
      let respValue := jsonAt "Ok" (jsonAt "result" res)
      let foreignApiVersion ← Prog.unwrap (readU16 (jsonAt "foreign_api_version" respValue))
      let supportedSlateVersions ←
        Prog.unwrap (readList readString (jsonAt "supported_slate_versions" respValue))
      if foreignApiVersion < 2 then
        Prog.throw (.clientCallback "Other wallet reports unrecognized API format.")
      else if supportedSlateVersions.contains "V3" then pure .v3
      else if supportedSlateVersions.contains "V2" then pure .v2
      else Prog.throw (.clientCallback "Unable to negotiate slate format with other wallet.")

/-- The slate to send to a wallet that knows a version. -/
def slateSend (slate : Slate) : SlateVersion → SendingM VersionedSlate
  | .v3 => pure (VersionedSlate.intoVersion slate .v3)
  | .v2 =>
    if slate.paymentProof.isSome then
      Prog.throw (.clientCallback ("Payment proof requested, but other wallet does not support " ++
        "payment proofs. Please urge other user to upgrade, or re-send tx without a payment proof"))
    else
      pure (VersionedSlate.intoVersion
        { slate with versionInfo := { slate.versionInfo with version := 2, origVersion := 2 } } .v2)

/-- What is made of the answer to `receive_tx`. -/
def reply : Except String (Option Json) → SendingM Slate
  | .error e =>
    Prog.throw (.clientCallback ("Posting transaction slate (is recipient listening?): " ++ e))
  | .ok none => Prog.panic
  | .ok (some res) =>
    if ¬isNull (jsonAt "error" res) then
      Prog.throw (.clientCallback (errorText "Posting transaction slate" res))
    else
      match Slate.deserializeUpgrade C (jsonAt "Ok" (jsonAt "result" res)).render with
      | .ok s => pure s
      | .error _ => Prog.throw (.slate .slateDeser)

def sendTx (slate : Slate) : SendingM Slate :=
  if ¬H.isNodeSynced then Prog.throw (.clientCallback "Node not synchronized")
  else do
    let version ← checkOtherVersion H
    let slateSend ← slateSend slate version
    hand (.json (slateSend.toText C))
    reply C (H.post (jsonRpc "receive_tx" [slateSend.toJson C, .null, .null, .null]))

end HttpSlateSender

/-! ## Keybase -/

namespace KeybaseChannel

variable (K : KeybasePeer)

/-- The first slate among the messages; `none` is a panic, `some none` that the time is up. -/
def poll : List (Option (List (List Char))) → Option (Option Slate)
  | [] => some none
  | none :: _ => none
  | some unread :: rounds =>
    match unread.findSome? fun msg => (Slate.deserializeUpgrade C msg).toOption with
    | some slate => some (some slate)
    | none => poll rounds

def sendTx (slate : Slate) : SendingM Slate := do
  let j ← Prog.unwrap (slate.toJson C)
  hand (.json j.render)
  let sent ← Prog.unwrap (K.send j.render)
  if ¬sent then Prog.throw (.clientCallback "Posting transaction slate")
  else do
    match ← Prog.unwrap (poll C K.rounds) with
    | some slate => pure slate
    | none => Prog.throw (.clientCallback "Receiving reply from recipient")

end KeybaseChannel

/-! ## Epicbox -/

def EpicboxChannel.send (B : EpicboxPeer) (slate : Slate) : SendingM Slate := do
  Prog.lift B.start
  let vslate := VersionedSlate.intoVersion slate .v2
  Prog.lift B.address
  Prog.lift B.encrypt
  if ¬B.sends then Prog.panic
  else do
    hand (.json (vslate.toText C))
    if ¬B.closes then Prog.panic
    else pure (Slate.ofVersioned (VersionedSlate.intoVersion slate .v2))

/-! ## The send command -/

inductive Method where
  | emoji
  | file (path : String)
  | epicbox
  | http
  | keybase
deriving DecidableEq

/-- The exchange of `send`; the slate it returns is the one the sender locks. -/
def exchange (X : Transports) (slate : Slate) : Method → SendingM Slate
  | .emoji => do
    let text ← Prog.unwrap (EmojiSlate.encode X.emoji C slate)
    hand (.emoji text)
    pure slate
  | .file path => do
    PathToSlate.hand C X.files path slate
    pure slate
  | .epicbox => EpicboxChannel.send C X.epicbox slate
  | .http => HttpSlateSender.sendTx C X.http slate
  | .keybase => KeybaseChannel.sendTx C X.keybase slate

end EpicWallet
