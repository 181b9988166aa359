import EpicWallet.Libwallet.Crypto

/-!
# The owner API with encrypted requests

`controller/src/controller.rs` (`OwnerV3Helpers` and `OwnerAPIHandlerV3::call_api`), the envelopes of
`api/src/types.rs` and `init_secure_api` of `api/src/owner_rpc_s.rs`. Requests are handled at the same time,
and share the key of the handler, the key of the API and the mask. A step of a request is what it does up to
its next lock of one of the two keys.
-/

namespace EpicWallet

open Lib

/-- `serde_json::Value`; a number is its literal. -/
inductive Value where
  | null
  | bool (b : Bool)
  | number (literal : String)
  | string (s : String)
  | array (l : List Value)
  | object (fields : List (String × Value))

namespace Value

/-- `val[key]`. -/
def get (key : String) : Value → Value
  | .object fields => (fields.lookup key).getD .null
  | _ => .null

def asStr : Value → Option String
  | .string s => some s
  | _ => none

def asU64 : Value → Option Nat
  | .number literal => literal.toNat?.filter (· < 2 ^ 64)
  | _ => none

end Value

/-! ## Envelopes -/

inductive RpcId where
  | null
  | str (s : String)
  | integer (n : Nat)

def RpcId.toValue : RpcId → Value
  | .null => .null
  | .str s => .string s
  | .integer n => .number n.repr

def RpcId.ofValue : Value → Option RpcId
  | .null => some .null
  | .string s => some (.str s)
  | v => v.asU64.map .integer

structure EncryptedBody where
  nonce : String
  bodyEnc : String

structure EncryptedRequest where
  jsonrpc : String
  method : String
  id : RpcId
  params : EncryptedBody

/-- `result` is a map with one entry, `Ok`. -/
structure EncryptedResponse where
  jsonrpc : String
  id : RpcId
  result : EncryptedBody

structure EncryptionErrorResponse where
  jsonrpc : String
  id : RpcId
  code : String
  message : String

def EncryptedBody.toValue (b : EncryptedBody) : Value :=
  .object [("body_enc", .string b.bodyEnc), ("nonce", .string b.nonce)]

def EncryptedBody.ofValue (v : Value) : Option EncryptedBody := do
  let nonce ← (v.get "nonce").asStr
  let bodyEnc ← (v.get "body_enc").asStr
  pure { nonce, bodyEnc }

def EncryptedRequest.ofValue (v : Value) : Option EncryptedRequest := do
  let jsonrpc ← (v.get "jsonrpc").asStr
  let method ← (v.get "method").asStr
  let id ← (match v with
    -- a missing id is an error, `null` is not
    | .object fields => (fields.lookup "id").bind RpcId.ofValue
    | _ => none)
  let params ← EncryptedBody.ofValue (v.get "params")
  pure { jsonrpc, method, id, params }

def EncryptedResponse.asJsonValue (r : EncryptedResponse) : Value :=
  .object [("id", r.id.toValue), ("jsonrpc", .string r.jsonrpc),
    ("result", .object [("Ok", r.result.toValue)])]

def EncryptionErrorResponse.new (id : RpcId) (code message : String) : EncryptionErrorResponse :=
  { jsonrpc := "2.0", id, code, message }

def EncryptionErrorResponse.asJsonValue (r : EncryptionErrorResponse) : Value :=
  .object [("error", .object [("code", .number r.code), ("message", .string r.message)]),
    ("id", r.id.toValue), ("jsonrpc", .string r.jsonrpc)]

/-! ## What the handler calls -/

namespace OwnerV3Helpers

/-- Whether the method of the request is this one. -/
def isMethod (name : String) (val : Value) : Bool := (val.get "method").asStr = some name

def isInitSecureApi : Value → Bool := isMethod "init_secure_api"

def isOpenWallet : Value → Bool := isMethod "open_wallet"

end OwnerV3Helpers

/-- A method of the owner API; of the others only the answer counts. -/
inductive OwnerMethod where
  | initSecureApi (ecdhPubkey : PublicKey)
  | other

/-- A call; one without an id is a notification and gets no output. -/
structure RpcCall where
  id : Option Value
  method : OwnerMethod

inductive RpcRequest where
  | single (c : RpcCall)
  | batch (cs : List RpcCall)

def RpcRequest.calls : RpcRequest → List RpcCall
  | .single c => [c]
  | .batch cs => cs

/-- The reply, of the outputs of the calls. -/
def RpcRequest.reply : RpcRequest → List Value → Option Value
  | .single _, outputs => outputs.head?
  | .batch _, [] => none
  | .batch _, outputs => some (.array outputs)

/-- The libraries of the handler, and whether it runs beside the foreign API. -/
structure OwnerV3 where
  crypto : CryptoLib
  secretKeyFromSlice : List Nat → Option SecretKey
  publicKeyFromSecretKey : SecretKey → Option PublicKey
  /-- AES-256-GCM with a key and a nonce: the text and its tag. -/
  aesSeal : SecretKey → List Nat → List Nat → Option (List Nat)
  /-- The buffer once it is opened: the text and what is left of the tag. -/
  aesOpen : SecretKey → List Nat → List Nat → Option (List Nat)
  base64Encode : List Nat → String
  base64Decode : String → Option (List Nat)
  utilFromHex : String → Option (List Nat)
  /-- `serde_json::to_string`. -/
  toText : Value → List Char
  /-- `serde_json::from_str`. -/
  fromText : List Char → Option Value
  /-- Why a value is no encrypted request. -/
  formatError : Value → String
  /-- The order in which a map is walked. -/
  hashOrder : List (String × Value) → List (String × Value)
  hashOrder_perm : ∀ l, (hashOrder l).Perm l
  /-- The calls of a request; the dispatcher goes by the name of the method. -/
  rpc : Value → RpcRequest
  rpc_init : ∀ v id pk, rpc v = .single ⟨id, .initSecureApi pk⟩ → OwnerV3Helpers.isInitSecureApi v = true
  /-- `Error::Secp` as a value. -/
  secpError : Value
  runningForeign : Bool

variable (E : OwnerV3)

namespace EncryptedBody

/-- The error is the text of `APIEncryption`. -/
def fromJson (nonce : List Nat) (jsonIn : Value) (encKey : SecretKey) : Except String EncryptedBody :=
  match E.aesSeal encKey nonce (utf8 (E.toText jsonIn)) with
  | some toEncrypt => .ok { nonce := String.ofList (toHex nonce), bodyEnc := E.base64Encode toEncrypt }
  | none => .error "EncryptedBody: encryption failed"

def decrypt (b : EncryptedBody) (decKey : SecretKey) : Except String Value :=
  match E.base64Decode b.bodyEnc with
  | none => .error "EncryptedBody Dec: Encrypted request contains invalid Base64"
  | some toDecrypt =>
    match E.utilFromHex b.nonce with
    | none => .error "EncryptedBody Dec: Invalid Nonce"
    | some nonce =>
      if nonce.length < 12 then .error "EncryptedBody Dec: Invalid Nonce length"
      else
        match E.aesOpen decKey (nonce.take 12) toDecrypt with
        | none => .error "EncryptedBody: decryption failed"
        | some opened =>
          match fromUtf8 (opened.take (opened.length - 16)) with
          | none => .error "EncryptedBody Dec: Invalid UTF-8"
          | some decrypted =>
            match E.fromText decrypted with
            | none => .error "EncryptedBody Dec: Invalid JSON"
            | some v => .ok v

end EncryptedBody

namespace OwnerV3Helpers

def checkEncryptionStarted (key : Option SecretKey) : Except Value Unit :=
  match key with
  | some _ => .ok ()
  | none => .error (EncryptionErrorResponse.new (.integer 1) "-32001"
      "Encryption must be enabled. Please call 'init_secure_api` first").asJsonValue

def updateOwnerApiSharedKey (key : Option SecretKey) (val : Value) (newKey : Option SecretKey) :
    Option SecretKey :=
  match ((val.get "result").get "Ok").asStr with
  | some _ => newKey
  | none => key

def updateMask (mask : Option SecretKey) (val : Value) : Option SecretKey :=
  match (((val.get "result").get "Ok").asStr.bind E.utilFromHex).bind E.secretKeyFromSlice with
  | some sk => some sk
  | none => mask

/-- Without a key the unwrap panics. -/
def decryptRequest (key : Option SecretKey) (req : Value) : Except (Fault Value) (RpcId × Value) :=
  match key with
  | none => .error .panic
  | some sharedKey =>
    match EncryptedRequest.ofValue req with
    | none => .error (.err (EncryptionErrorResponse.new (.integer 1) "-32002"
        ("Encrypted request format error: " ++ E.formatError req)).asJsonValue)
    | some encReq =>
      match encReq.params.decrypt E sharedKey with
      | .error e => .error (.err (EncryptionErrorResponse.new (.integer 1) "-32002"
          ("Decryption error: " ++ e)).asJsonValue)
      | .ok res => .ok (encReq.id, res)

/-- Without a key the unwrap panics. -/
def encryptResponse (key : Option SecretKey) (nonce : List Nat) (id : RpcId) (res : Value) :
    Except (Fault Value) Value :=
  match key with
  | none => .error .panic
  | some sharedKey =>
    match EncryptedBody.fromJson E nonce res sharedKey with
    | .error e => .error (.err (EncryptionErrorResponse.new (.integer 1) "-32003"
        ("EncryptionError: " ++ e)).asJsonValue)
    | .ok result => .ok ({ jsonrpc := "2.0", id, result : EncryptedResponse }).asJsonValue

/-- The text of an error: of a map the last entry that is walked. -/
def errString : Value → Option String
  | .object fields =>
    let strings := fields.all fun f => f.2.asStr.isSome
    let texts := (E.hashOrder fields).map fun f =>
      f.1 ++ ": " ++ (if strings then f.2.asStr.getD "" else String.ofList (E.toText f.2))
    some (texts.getLast?.getD "")
  | .string s => some s
  | _ => none

def checkErrorResponse (val : Value) : Bool × Value :=
  match errString E ((val.get "result").get "Err") with
  | some s => (true, .object [("error", .object [("code", .number "-32099"), ("message", .string s)]),
      ("id", val.get "id"), ("jsonrpc", .string "2.0")])
  | none => (false, val)

end OwnerV3Helpers

/-! ## The exchange of keys -/

/-- What `init_secure_api` made of the key of a client. -/
structure KeyExchange where
  clientKey : PublicKey
  secKey : SecretKey
  sharedKey : SecretKey
  serverKey : PublicKey
deriving DecidableEq

/-- The key of a secret and the other side's public key. -/
def OwnerV3.ecdh (pubkey : PublicKey) (secKey : SecretKey) : Option SecretKey :=
  (E.crypto.mulAssign pubkey secKey).bind fun shared =>
    E.secretKeyFromSlice ((E.crypto.serializePublicKey shared).drop 1)

/-- What it returns, and the key of the API after it; the key is set before the public key is made. -/
def initSecureApi (secKey : SecretKey) (ecdhPubkey : PublicKey) (apiKey : Option SecretKey) :
    Option KeyExchange × Option SecretKey :=
  match E.ecdh ecdhPubkey secKey with
  | none => (none, apiKey)
  | some sharedKey =>
    match E.publicKeyFromSecretKey secKey with
    | none => (none, some sharedKey)
    | some pubKey => (some ⟨ecdhPubkey, secKey, sharedKey, pubKey⟩, some sharedKey)

def rpcOutput (id result : Value) : Value :=
  .object [("id", id), ("jsonrpc", .string "2.0"), ("result", result)]

/-- The result of `init_secure_api`. -/
def initResult : Option KeyExchange → Value
  | some e => .object [("Ok", .string (String.ofList (toHex (E.crypto.serializePublicKey e.serverKey))))]
  | none => .object [("Err", E.secpError)]

/-! ## The handler -/

namespace OwnerAPIHandlerV3

/-- Where a request is in `call_api`. -/
inductive Phase where
  /-- Before `check_encryption_started`. -/
  | parsed
  /-- Before `decrypt_request`. -/
  | started
  /-- In `handle_request`: the calls to come, and the outputs there are. -/
  | calling (todo : List RpcCall) (outputs : List Value)
  /-- Before `encrypt_response`. -/
  | replying (intercept : Value)
  /-- Before the key of the API is read, for the request to `init_secure_api`. -/
  | encrypted (intercept r : Value)
  /-- Before `update_owner_api_shared_key`. -/
  | updating (intercept r : Value) (newKey : Option SecretKey)
  | done (r : Value)
  | panicked

/-- A request that is handled. The code keeps the id of one it decrypted; the key and the exchanges are kept
here to say what it should do. -/
structure Task where
  val : Value
  phase : Phase
  session : Option (RpcId × SecretKey)
  exchanges : List KeyExchange

/-- What the requests share, and who stored which key last. -/
structure Handler where
  sharedKey : Option SecretKey
  apiSharedKey : Option SecretKey
  keychainMask : Option SecretKey
  tasks : List Task
  stored : List (Nat × Option SecretKey)

def new : Handler where
  sharedKey := none
  apiSharedKey := none
  keychainMask := none
  tasks := []
  stored := []

/-- `[]`, where there is nothing to reply. -/
def dontReply : Value := .array []

namespace Task

variable (t : Task)

/-- What follows the encryption. -/
def afterEncryption (intercept r : Value) : Task :=
  if OwnerV3Helpers.isInitSecureApi t.val then { t with phase := .encrypted intercept r }
  else { t with phase := .done r }

/-- What follows `handle_request`. -/
def afterCalls (reply : Option Value) : Task :=
  match reply with
  | none => { t with phase := .done dontReply }
  | some r =>
    let unencryptedIntercept := (OwnerV3Helpers.checkErrorResponse E r).2
    match t.session with
    | some _ => { t with phase := .replying unencryptedIntercept }
    | none => t.afterEncryption unencryptedIntercept r

/-- `handle_request` with the calls to come and the outputs there are. -/
def handle (todo : List RpcCall) (outputs : List Value) : Task :=
  match todo with
  | [] => t.afterCalls E ((E.rpc t.val).reply outputs)
  | _ :: _ => { t with phase := .calling todo outputs }

end Task

/-- A request whose body is parsed. -/
def receive (val : Value) : Task :=
  let t : Task := { val, phase := .parsed, session := none, exchanges := [] }
  if OwnerV3Helpers.isInitSecureApi val then t.handle E (E.rpc val).calls [] else t

/-- The mask, once the calls of a request are answered. -/
def maskAfter (mask : Option SecretKey) (t : Task) (todo : List RpcCall) (outputs : List Value) :
    Option SecretKey :=
  match todo, (E.rpc t.val).reply outputs with
  | [], some r =>
    if OwnerV3Helpers.isOpenWallet t.val && E.runningForeign then OwnerV3Helpers.updateMask E mask r
    else mask
  | _, _ => mask

/-- What the next call of a request finds: a secret for `init_secure_api`, the output of another method. -/
structure Answer where
  secKey : SecretKey
  output : Value

inductive Event where
  | receive (val : Value)
  | checkEncryptionStarted (i : Nat)
  | decryptRequest (i : Nat)
  | call (i : Nat) (a : Answer)
  | encryptResponse (i : Nat) (nonce : List Nat)
  | readApiKey (i : Nat)
  | updateKey (i : Nat)

namespace Handler

variable (x : Handler)

def setTask (i : Nat) (t : Task) : Handler := { x with tasks := x.tasks.set i t }

/-- The call `c` of the request `i`, with the calls to come and the outputs there are. -/
def call (i : Nat) (t : Task) (c : RpcCall) (todo : List RpcCall) (outputs : List Value) (a : Answer) :
    Handler :=
  match c.method with
  | .initSecureApi ecdhPubkey =>
    let found := EpicWallet.initSecureApi E a.secKey ecdhPubkey x.apiSharedKey
    let outputs := outputs ++ (c.id.map fun id => rpcOutput id (initResult E found.1)).toList
    { x with
      apiSharedKey := found.2
      keychainMask := maskAfter E x.keychainMask t todo outputs
      tasks := x.tasks.set i
        (Task.handle E { t with exchanges := t.exchanges ++ found.1.toList } todo outputs) }
  | .other =>
    let outputs := outputs ++ (c.id.map fun _ => a.output).toList
    { x with
      keychainMask := maskAfter E x.keychainMask t todo outputs
      tasks := x.tasks.set i (t.handle E todo outputs) }

end Handler

/-- The state after an event, if it can happen. -/
def step (x : Handler) : Event → Option Handler
  | .receive val => some { x with tasks := x.tasks ++ [receive E val] }
  | .checkEncryptionStarted i =>
    match x.tasks[i]? with
    | some t =>
      match t.phase with
      | .parsed =>
        match OwnerV3Helpers.checkEncryptionStarted x.sharedKey with
        | .ok () => some (x.setTask i { t with phase := .started })
        | .error v => some (x.setTask i { t with phase := .done v })
      | _ => none
    | none => none
  | .decryptRequest i =>
    match x.tasks[i]? with
    | some t =>
      match t.phase with
      | .started =>
        match OwnerV3Helpers.decryptRequest E x.sharedKey t.val with
        | .ok (id, val) =>
          let t : Task := { t with val, session := x.sharedKey.map (id, ·) }
          some (x.setTask i (t.handle E (E.rpc val).calls []))
        | .error (.err v) => some (x.setTask i { t with phase := .done v })
        | .error .panic => some (x.setTask i { t with phase := .panicked })
      | _ => none
    | none => none
  | .call i a =>
    match x.tasks[i]? with
    | some t =>
      match t.phase with
      | .calling (c :: todo) outputs => some (x.call E i t c todo outputs a)
      | _ => none
    | none => none
  | .encryptResponse i nonce =>
    match x.tasks[i]? with
    | some t =>
      match t.phase, t.session with
      | .replying intercept, some (id, _) =>
        match OwnerV3Helpers.encryptResponse E x.sharedKey nonce id intercept with
        | .ok r => some (x.setTask i (t.afterEncryption intercept r))
        | .error (.err v) => some (x.setTask i { t with phase := .done v })
        | .error .panic => some (x.setTask i { t with phase := .panicked })
      | _, _ => none
    | none => none
  | .readApiKey i =>
    match x.tasks[i]? with
    | some t =>
      match t.phase with
      | .encrypted intercept r =>
        some (x.setTask i { t with phase := .updating intercept r x.apiSharedKey })
      | _ => none
    | none => none
  | .updateKey i =>
    match x.tasks[i]? with
    | some t =>
      match t.phase with
      | .updating intercept r newKey =>
        some { x with
          sharedKey := OwnerV3Helpers.updateOwnerApiSharedKey x.sharedKey intercept newKey
          tasks := x.tasks.set i { t with phase := .done r }
          stored := if ((intercept.get "result").get "Ok").asStr.isSome then (i, newKey) :: x.stored
            else x.stored }
      | _ => none
    | none => none

end OwnerAPIHandlerV3

end EpicWallet
