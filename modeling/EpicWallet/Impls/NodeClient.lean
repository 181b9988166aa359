import EpicWallet.Impls.Serialization
import EpicWallet.Lib.Prog
import EpicWallet.Libwallet.World

/-!
# The client of the node

`impls/src/client_utils/json_rpc.rs`, the requests of `impls/src/node_clients/http.rs` that post a
transaction, and `post_tx` and `post_tx_tor` of `libwallet/src/api_impl/owner.rs`. What the HTTP client
gets back is a record of answers (`NodeAnswers`); the state counts the answers taken and keeps the
transactions that were posted, with what came back.
-/

namespace EpicWallet

open Lib

/-! ## JSON-RPC -/

/-- A field of a value; `null` if it has none. -/
def jsonAt (key : String) : Json → Json
  | .obj l => (l.lookup key).getD .null
  | _ => .null

def isNull : Json → Bool
  | .null => true
  | _ => false

def jsonRpc (method : String) (params : List Json) : Json :=
  .obj [("jsonrpc", .str "2.0"), ("method", .str method), ("id", .num 1), ("params", .arr params)]

/-- `str::contains`. -/
def containsText (pat s : String) : Bool := s.toList.tails.any fun t => pat.toList.isPrefixOf t

structure RpcError where
  code : Int
  message : String
deriving DecidableEq

structure Response where
  result : Option Json
  error : Option RpcError

namespace Response

variable {α : Type}

/-- `into_result`; the error is its text. -/
def intoResult (dec : Json → Except String α) (r : Response) : Except String α :=
  match r.error with
  | some _ => .error "RPC error response"
  | none => match r.result with
    | some j => (dec (jsonAt "Ok" j)).mapError ("JSON decode error: " ++ ·)
    | none => (dec .null).mapError ("JSON decode error: " ++ ·)

/-- The request succeeded: there is no error, and the result is an `Ok`. -/
def accepted (r : Response) : Bool :=
  r.error.isNone && match r.result with
    | some (.obj l) => (l.lookup "Ok").isSome
    | _ => false

end Response

/-! ## The node client -/

inductive NodeError where
  | unauthorized
  | notFound
  | badRequest (msg : String)
  | clientCallback (msg : String)
deriving DecidableEq

/-- What the HTTP client returns, by the number of answers taken before. -/
structure NodeAnswers where
  onionAddresses : Nat → Except String Response
  push : Nat → Transaction → Bool → Except String Response
  /-- Whether a client for an onion address can be built. -/
  torClient : Nat → Bool
  pushTor : Nat → String → Transaction → Except String Response

/-- A transaction that was posted, and what came back. -/
inductive Post where
  | direct (tx : Transaction) (answer : Except String Response)
  | tor (url : String) (tx : Transaction) (answer : Except String Response)

/-- The node took the transaction. -/
def Post.accepted : Post → Bool
  | .direct _ (.ok r) => r.accepted
  | .tor _ _ (.ok r) => r.accepted
  | _ => false

structure NodeState where
  posts : List Post
  answers : Nat

abbrev NodeM := Prog NodeState NodeError

/-- The number of the next answer. -/
def nextAnswer : NodeM Nat := fun n => (.ok n.answers, { n with answers := n.answers + 1 })

def record (p : Post) : NodeM Unit := Prog.modify fun n => { n with posts := n.posts ++ [p] }

namespace HTTPNodeClient

variable {α : Type} (N : NodeAnswers)

/-- What `send_json_request` makes of an answer. -/
def sendJsonRequest (dec : Json → Except String α) (method : String) :
    Except String Response → Except NodeError α
  | .error e => .error (.clientCallback ("Error calling " ++ method ++ ": " ++ e))
  | .ok inner => match inner.intoResult dec with
    | .ok r => .ok r
    | .error e =>
      let report := "Unable to parse response for " ++ method ++ ": " ++ e
      match inner.error with
      | some rpcError =>
        if containsText "Unauthorized" rpcError.message then .error .unauthorized
        else if containsText "Not found" rpcError.message then .error .notFound
        else .error (.badRequest report)
      | none => .error (.badRequest report)

/-- Any value is read. -/
def anyValue (j : Json) : Except String Json := .ok j

def postTx (tx : Transaction) (fluff : Bool) : NodeM Unit := do
  let n ← nextAnswer
  record (.direct tx (N.push n tx fluff))
  let _ ← Prog.ofExcept (sendJsonRequest anyValue "push_transaction" (N.push n tx fluff))
  pure ()

/-- The answer is dropped. -/
def postTxTor (tx : Transaction) (torNodeUrl : String) : NodeM Unit := do
  let n ← nextAnswer
  if ¬N.torClient n then Prog.panic
  else record (.tor torNodeUrl tx (N.pushTor n torNodeUrl tx))

/-- The texts of an array. -/
def addresses : Json → List String
  | .arr l => l.filterMap readString
  | _ => []

def getOnionAddresses : NodeM (List String) := do
  let n ← nextAnswer
  let result ← Prog.ofExcept (sendJsonRequest anyValue "get_onion_addresses" (N.onionAddresses n))
  pure (addresses result)

end HTTPNodeClient

namespace Owner

variable (N : NodeAnswers)

def postTx (tx : Transaction) (fluff : Bool) : NodeM Unit := do
  match ← Prog.attempt (HTTPNodeClient.postTx N tx fluff) with
  | .error e => Prog.throw e
  | .ok () => pure ()

def postTxTor (tx : Transaction) (torNodeUrl : String) : NodeM Unit := do
  match ← Prog.attempt (HTTPNodeClient.postTxTor N tx torNodeUrl) with
  | .error e => Prog.throw e
  | .ok () => pure ()

end Owner

end EpicWallet
