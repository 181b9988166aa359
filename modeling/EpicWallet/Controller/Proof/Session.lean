import EpicWallet.Controller.OwnerV3
import EpicWallet.Lib.Steps

/-!
# Sessions of the owner API

The key of a session is read once to decrypt a request and once more to encrypt the response, and
`init_secure_api` sets the key of the API, which the handler reads again before it takes it over. So it goes
wrong where another exchange comes in between, or where the exchange is hidden in a batch. `Event.Sound` rules
out these, and every run of sound events is consistent (`consistent_of_run`).
-/

namespace EpicWallet

open Lib

variable (E : OwnerV3)

/-- The keys of the exchange belong together. -/
structure KeyExchange.Made (e : KeyExchange) : Prop where
  shared : E.ecdh e.clientKey e.secKey = some e.sharedKey
  server : E.publicKeyFromSecretKey e.secKey = some e.serverKey

/-- Both sides of an exchange come to one point. -/
def OwnerV3.DiffieHellman : Prop :=
  ∀ c s C S, E.publicKeyFromSecretKey c = some C → E.publicKeyFromSecretKey s = some S →
    E.crypto.mulAssign C s = E.crypto.mulAssign S c

/-- The key of the exchange is the one the client computes. -/
theorem KeyExchange.Made.agrees {E : OwnerV3} {e : KeyExchange} (h : e.Made E) (hdh : E.DiffieHellman)
    {c : SecretKey} (hc : E.publicKeyFromSecretKey c = some e.clientKey) :
    E.ecdh e.serverKey c = some e.sharedKey := by
  rw [← h.shared]
  unfold OwnerV3.ecdh
  rw [hdh c e.secKey _ _ hc h.server]

namespace OwnerAPIHandlerV3

/-- The response is encrypted under the key of the request; a notification has none. -/
def Task.Encrypted (t : Task) (r : Value) : Prop :=
  ∀ id k, t.session = some (id, k) → r = dontReply ∨
    ∃ nonce res, OwnerV3Helpers.encryptResponse E (some k) nonce id res = .ok r

/-- The stored key is the one a client computes from the reply of request `i`, or that of a later exchange. -/
def Handler.Agrees (x : Handler) (i : Nat) (e : KeyExchange) : Prop :=
  ∀ clientSecret, E.publicKeyFromSecretKey clientSecret = some e.clientKey →
    ∃ k later earlier, E.ecdh e.serverKey clientSecret = some k ∧
      x.stored = later ++ (i, some k) :: earlier ∧ (later = [] → x.sharedKey = some k) ∧
      ∀ w ∈ later, w.1 ≠ i ∧ ∃ t, x.tasks[w.1]? = some t ∧ OwnerV3Helpers.isInitSecureApi t.val = true

structure Consistent (x : Handler) : Prop where
  responses : ∀ t ∈ x.tasks, ∀ r, t.phase = .done r → t.Encrypted E r
  exchanges : ∀ i t, x.tasks[i]? = some t → ∀ r, t.phase = .done r → r ≠ dontReply →
    ∀ e ∈ t.exchanges, x.Agrees E i e

/-! ## Sound events -/

namespace Task

variable (t : Task)

/-- The key of a request that is decrypted and whose response is not yet encrypted. -/
def openKey : Option SecretKey :=
  match t.phase with
  | .calling _ _ => t.session.map (·.2)
  | .replying _ => t.session.map (·.2)
  | _ => none

/-- The request made an exchange and has still to read the key of the API. -/
def awaitsKey : Bool :=
  match t.phase with
  | .calling _ _ => !t.exchanges.isEmpty
  | .replying _ => !t.exchanges.isEmpty
  | .encrypted _ _ => !t.exchanges.isEmpty
  | _ => false

/-- The next call is `init_secure_api`. -/
def callsInit : Bool :=
  match t.phase with
  | .calling (⟨_, .initSecureApi _⟩ :: _) _ => true
  | _ => false

def inBatch : Bool :=
  match E.rpc t.val with
  | .single _ => false
  | .batch _ => true

/-- The key the request is about to store. -/
def newKey : Option (Option SecretKey) :=
  match t.phase with
  | .updating _ _ newKey => some newKey
  | _ => none

/-- The response can be encrypted. -/
def seals (nonce : List Nat) : Bool :=
  match t.phase, t.session with
  | .replying intercept, some (_, k) => (E.aesSeal k nonce (utf8 (E.toText intercept))).isSome
  | _, _ => true

end Task

/-- An exchange is made by itself and while no other waits for its key; a key is stored while every request
that is decrypted has this key; and a response can be encrypted. -/
def Event.Sound : Event → Handler → Prop
  | .call i _, x => ∀ t ∈ x.tasks[i]?, t.callsInit = true →
    t.inBatch E = false ∧ ∀ t' ∈ x.tasks, t'.awaitsKey = false
  | .updateKey i, x => ∀ t ∈ x.tasks[i]?, ∀ key ∈ t.newKey, ∀ t' ∈ x.tasks, ∀ k ∈ t'.openKey, key = some k
  | .encryptResponse i nonce, x => ∀ t ∈ x.tasks[i]?, t.seals E nonce = true
  | _, _ => True

instance : (e : Event) → (x : Handler) → Decidable (e.Sound E x)
  | .call i _, x => inferInstanceAs (Decidable (∀ t ∈ x.tasks[i]?, t.callsInit = true →
      t.inBatch E = false ∧ ∀ t' ∈ x.tasks, t'.awaitsKey = false))
  | .updateKey i, x => inferInstanceAs (Decidable (∀ t ∈ x.tasks[i]?, ∀ key ∈ t.newKey,
      ∀ t' ∈ x.tasks, ∀ k ∈ t'.openKey, key = some k))
  | .encryptResponse i nonce, x => inferInstanceAs (Decidable (∀ t ∈ x.tasks[i]?, t.seals E nonce = true))
  | .receive _, _ | .checkEncryptionStarted _, _ | .decryptRequest _, _ | .readApiKey _, _ => .isTrue trivial

/-! ## The invariant -/

/-- What is to be stored for the exchange of a request, if it made one, is the key of the exchange. -/
def Task.Ready (t : Task) (intercept : Value) (key : Option SecretKey) : Prop :=
  ∀ e ∈ t.exchanges, e.Made E ∧ OwnerV3Helpers.isInitSecureApi t.val = true ∧
    ((intercept.get "result").get "Ok").asStr.isSome = true ∧ key = some e.sharedKey

/-- What holds of the request `i`, by where it is. -/
def Task.Fits (x : Handler) (i : Nat) (t : Task) : Prop :=
  match t.phase with
  | .parsed => t.session = none ∧ t.exchanges = []
  | .started => t.session = none ∧ t.exchanges = []
  | .calling todo outputs => (∀ p ∈ t.session, x.sharedKey = some p.2) ∧ t.exchanges = [] ∧
    ∃ called, (E.rpc t.val).calls = called ++ todo ∧ outputs.length ≤ called.length
  | .replying intercept => (∀ p ∈ t.session, x.sharedKey = some p.2) ∧
    t.Ready E intercept x.apiSharedKey
  | .encrypted intercept r => t.Encrypted E r ∧ t.Ready E intercept x.apiSharedKey ∧
    OwnerV3Helpers.isInitSecureApi t.val = true
  | .updating intercept r newKey => t.Encrypted E r ∧ t.Ready E intercept newKey ∧
    OwnerV3Helpers.isInitSecureApi t.val = true
  | .done r => t.Encrypted E r ∧
    (r = dontReply ∨ ∀ e ∈ t.exchanges, e.Made E ∧ (i, some e.sharedKey) ∈ x.stored)
  | .panicked => True

structure Inv (x : Handler) : Prop where
  fits : ∀ (i : Nat) (t : Task), x.tasks[i]? = some t → t.Fits E x i
  key : x.sharedKey = x.stored.head?.bind (·.2)
  stored : ∀ w ∈ x.stored, ∃ t, x.tasks[w.1]? = some t ∧ OwnerV3Helpers.isInitSecureApi t.val = true ∧
    ∃ r, t.phase = .done r
  nodup : (x.stored.map Prod.fst).Nodup

variable {E}

/-- What is stored for others, and keys that are of no concern, leave a request as it is. -/
theorem Task.Fits.frame {x y : Handler} {i : Nat} {t : Task} (h : t.Fits E x i)
    (hkey : ∀ k ∈ t.openKey, x.sharedKey = some k → y.sharedKey = some k)
    (hapi : t.awaitsKey = true → y.apiSharedKey = x.apiSharedKey)
    (hstored : ∀ w ∈ x.stored, w ∈ y.stored) : t.Fits E y i := by
  obtain ⟨val, phase, session, exchanges⟩ := t
  have hopen (hphase : Task.openKey ⟨val, phase, session, exchanges⟩ = session.map (·.2))
      (hold : ∀ p ∈ session, x.sharedKey = some p.2) : ∀ p ∈ session, y.sharedKey = some p.2 := by
    intro p hp
    refine hkey p.2 ?_ (hold p hp)
    rw [hphase, hp]
    rfl
  have hready (intercept : Value)
      (hphase : Task.awaitsKey ⟨val, phase, session, exchanges⟩ = !exchanges.isEmpty)
      (hold : Task.Ready E ⟨val, phase, session, exchanges⟩ intercept x.apiSharedKey) :
      Task.Ready E ⟨val, phase, session, exchanges⟩ intercept y.apiSharedKey := by
    intro e he
    obtain ⟨hmade, hinit, hok, hshared⟩ := hold e he
    refine ⟨hmade, hinit, hok, (hapi ?_).trans hshared⟩
    rw [hphase]
    cases exchanges with
    | nil => cases he
    | cons _ _ => rfl
  cases phase with
  | parsed => exact h
  | started => exact h
  | calling todo outputs => exact ⟨hopen rfl h.1, h.2⟩
  | replying intercept => exact ⟨hopen rfl h.1, hready intercept rfl h.2⟩
  | encrypted intercept r => exact ⟨h.1, hready intercept rfl h.2.1, h.2.2⟩
  | updating intercept r newKey => exact h
  | done r => exact ⟨h.1, h.2.imp_right fun hall e he => ⟨(hall e he).1, hstored _ (hall e he).2⟩⟩
  | panicked => trivial

/-! ## What follows the calls -/

section
variable {x : Handler} {i : Nat} {t : Task}

theorem fits_afterEncryption {intercept r : Value} (hr : t.Encrypted E r)
    (hready : t.Ready E intercept x.apiSharedKey) : (t.afterEncryption intercept r).Fits E x i := by
  unfold Task.afterEncryption
  split_ifs with hinit
  · exact ⟨hr, hready, hinit⟩
  · exact ⟨hr, .inr fun e he => absurd (hready e he).2.1 hinit⟩

theorem fits_afterCalls {reply : Option Value} (hkey : ∀ p ∈ t.session, x.sharedKey = some p.2)
    (hready : ∀ r, reply = some r →
      t.Ready E (OwnerV3Helpers.checkErrorResponse E r).2 x.apiSharedKey) :
    (t.afterCalls E reply).Fits E x i := by
  unfold Task.afterCalls
  rcases reply with _ | r
  · exact ⟨fun _ _ _ => .inl rfl, .inl rfl⟩
  · rcases hsession : t.session with _ | p
    · refine fits_afterEncryption (fun id k h => ?_) (hready r rfl)
      rw [hsession] at h
      cases h
    · exact ⟨fun q hq => hkey q (hsession ▸ hq), hready r rfl⟩

theorem fits_handle {todo : List RpcCall} {outputs : List Value}
    (hkey : ∀ p ∈ t.session, x.sharedKey = some p.2) (hnone : todo ≠ [] → t.exchanges = [])
    (hcalls : ∃ called, (E.rpc t.val).calls = called ++ todo ∧ outputs.length ≤ called.length)
    (hready : todo = [] → ∀ r, (E.rpc t.val).reply outputs = some r →
      t.Ready E (OwnerV3Helpers.checkErrorResponse E r).2 x.apiSharedKey) :
    (t.handle E todo outputs).Fits E x i := by
  unfold Task.handle
  rcases todo with _ | ⟨c, todo⟩
  · exact fits_afterCalls hkey (hready rfl)
  · exact ⟨hkey, hnone nofun, hcalls⟩

/-- Without an exchange nothing is to be stored. -/
theorem ready_of_nil (h : t.exchanges = []) (intercept : Value) (key : Option SecretKey) :
    t.Ready E intercept key := by
  intro e he
  rw [h] at he
  cases he

theorem fits_receive (val : Value) : (receive E val).Fits E x i := by
  unfold receive
  split_ifs
  · refine fits_handle nofun (fun _ => rfl) ⟨[], rfl, Nat.le_refl _⟩ fun _ _ _ => ready_of_nil rfl _ _
  · exact ⟨rfl, rfl⟩

end

/-- The exchange is made of the keys it is about, and its key is that of the API. -/
theorem initSecureApi_made {secKey : SecretKey} {p : PublicKey} {key : Option SecretKey} {e : KeyExchange}
    (h : (initSecureApi E secKey p key).1 = some e) :
    e.Made E ∧ (initSecureApi E secKey p key).2 = some e.sharedKey := by
  unfold initSecureApi at h ⊢
  rcases hshared : E.ecdh p secKey with _ | shared
  · rw [hshared] at h
    cases h
  · rcases hpub : E.publicKeyFromSecretKey secKey with _ | pubKey
    · rw [hshared, hpub] at h
      cases h
    · rw [hshared, hpub] at h
      cases h
      exact ⟨⟨hshared, hpub⟩, rfl⟩

/-- The output of an exchange is no error, and its result is a text. -/
theorem checkErrorResponse_init (id : Value) (e : KeyExchange) :
    (((OwnerV3Helpers.checkErrorResponse E (rpcOutput id (initResult E (some e)))).2.get "result").get
      "Ok").asStr.isSome = true := by
  have herror : OwnerV3Helpers.errString E (((rpcOutput id (initResult E (some e))).get "result").get "Err") =
      none := rfl
  unfold OwnerV3Helpers.checkErrorResponse
  rw [herror]
  rfl

/-! ## One event -/

theorem inv_set {x y : Handler} {i : Nat} {t t' : Task} (hx : Inv E x) (ht : x.tasks[i]? = some t)
    (hopen : ∀ r, t.phase ≠ .done r) (htasks : y.tasks = x.tasks.set i t') (hstored : y.stored = x.stored)
    (hkey : y.sharedKey = x.sharedKey)
    (hapi : ∀ u ∈ x.tasks, u.awaitsKey = true → y.apiSharedKey = x.apiSharedKey)
    (hfits : t'.Fits E y i) : Inv E y := by
  have hlt : i < x.tasks.length := (List.getElem?_eq_some_iff.1 ht).1
  refine ⟨fun j u hu => ?_, ?_, fun w hw => ?_, ?_⟩
  · rw [htasks] at hu
    rcases Decidable.eq_or_ne i j with rfl | hne
    · rw [List.getElem?_set_self hlt] at hu
      cases hu
      exact hfits
    · rw [List.getElem?_set_ne hne] at hu
      refine (hx.fits j u hu).frame (fun k _ h => hkey.trans h)
        (hapi u (List.mem_of_getElem? hu)) fun w hw => ?_
      rwa [hstored]
  · rw [hkey, hstored]
    exact hx.key
  · rw [hstored] at hw
    obtain ⟨u, hu, hinit, r, hr⟩ := hx.stored w hw
    have hne : i ≠ w.1 := by
      rintro rfl
      obtain rfl : t = u := Option.some.inj (ht.symm.trans hu)
      exact hopen r hr
    refine ⟨u, ?_, hinit, r, hr⟩
    rw [htasks, List.getElem?_set_ne hne]
    exact hu
  · rw [hstored]
    exact hx.nodup

theorem inv_receive {x : Handler} (hx : Inv E x) (val : Value) :
    Inv E { x with tasks := x.tasks ++ [receive E val] } := by
  refine ⟨fun i t ht => ?_, hx.key, fun w hw => ?_, hx.nodup⟩
  · rcases Nat.lt_or_ge i x.tasks.length with hlt | hge
    · rw [List.getElem?_append_left hlt] at ht
      exact (hx.fits i t ht).frame (fun _ _ h => h) (fun _ => rfl) fun _ h => h
    · rw [List.getElem?_append_right hge] at ht
      obtain rfl : receive E val = t := List.mem_singleton.1 (List.mem_of_getElem? ht) |>.symm
      exact fits_receive val
  · obtain ⟨t, ht, h⟩ := hx.stored w hw
    exact ⟨t, (List.getElem?_append_left (List.getElem?_eq_some_iff.1 ht).1).trans ht, h⟩

/-- A request before it is decrypted is answered, if it is, by an error. -/
theorem fits_refused {x : Handler} {i : Nat} {t : Task} (h : t.session = none ∧ t.exchanges = [])
    (v : Value) : Task.Fits E x i { t with phase := .done v } := by
  refine ⟨fun id k hsession => ?_, .inr fun e he => ?_⟩
  · cases h.1.symm.trans hsession
  · rw [show ({ t with phase := .done v } : Task).exchanges = [] from h.2] at he
    cases he

/-- What is decrypted is decrypted under the stored key. -/
theorem decryptRequest_ok {key : Option SecretKey} {req val : Value} {id : RpcId}
    (h : OwnerV3Helpers.decryptRequest E key req = .ok (id, val)) : ∃ k, key = some k := by
  rcases key with _ | k
  · cases h
  · exact ⟨k, rfl⟩

theorem inv_check {x y : Handler} {i : Nat} (hx : Inv E x)
    (h : step E x (.checkEncryptionStarted i) = some y) : Inv E y := by
  simp only [step] at h
  split at h
  next t ht =>
    split at h
    next hphase =>
      have hfits := hx.fits i t ht
      unfold Task.Fits at hfits
      rw [hphase] at hfits
      have hopen (r : Value) : t.phase ≠ .done r := by
        rw [hphase]
        exact nofun
      split at h
      · cases h
        exact inv_set hx ht hopen rfl rfl rfl (fun _ _ _ => rfl) hfits
      · cases h
        exact inv_set hx ht hopen rfl rfl rfl (fun _ _ _ => rfl) (fits_refused hfits _)
    all_goals cases h
  next => cases h

theorem inv_decrypt {x y : Handler} {i : Nat} (hx : Inv E x)
    (h : step E x (.decryptRequest i) = some y) : Inv E y := by
  simp only [step] at h
  split at h
  next t ht =>
    split at h
    next hphase =>
      have hfits := hx.fits i t ht
      unfold Task.Fits at hfits
      rw [hphase] at hfits
      have hopen (r : Value) : t.phase ≠ .done r := by
        rw [hphase]
        exact nofun
      split at h
      next id val hdecrypt =>
        obtain ⟨k, hk⟩ := decryptRequest_ok hdecrypt
        cases h
        refine inv_set hx ht hopen rfl rfl rfl (fun _ _ _ => rfl) ?_
        have hnone : ({ t with val, session := x.sharedKey.map (id, ·) } : Task).exchanges = [] := hfits.2
        refine fits_handle ?_ (fun _ => hnone) ⟨[], rfl, Nat.le_refl _⟩ fun _ _ _ =>
          ready_of_nil hnone _ _
        rw [hk]
        intro p hp
        cases hp
        exact hk
      next =>
        cases h
        exact inv_set hx ht hopen rfl rfl rfl (fun _ _ _ => rfl) (fits_refused hfits _)
      next =>
        cases h
        exact inv_set hx ht hopen rfl rfl rfl (fun _ _ _ => rfl) trivial
    all_goals cases h
  next => cases h

/-- A call adds to the outputs, and to nothing else of a request that is no exchange. -/
theorem called_succ {t : Task} {c : RpcCall} {todo : List RpcCall} {outputs : List Value}
    (h : ∃ called, (E.rpc t.val).calls = called ++ c :: todo ∧ outputs.length ≤ called.length)
    (o : Option Value) :
    ∃ called, (E.rpc t.val).calls = called ++ todo ∧ (outputs ++ o.toList).length ≤ called.length := by
  obtain ⟨called, hcalls, hlen⟩ := h
  refine ⟨called ++ [c], by rw [hcalls, List.append_assoc]; rfl, ?_⟩
  rw [List.length_append, List.length_append]
  have := Option.length_toList_le (o := o)
  simp only [List.length_singleton]
  omega

/-- The only call of a request finds no outputs and leaves no calls. -/
theorem single_call {t : Task} {c c' : RpcCall} {todo : List RpcCall} {outputs : List Value}
    (hsingle : E.rpc t.val = .single c')
    (h : ∃ called, (E.rpc t.val).calls = called ++ c :: todo ∧ outputs.length ≤ called.length) :
    c' = c ∧ todo = [] ∧ outputs = [] := by
  obtain ⟨called, hcalls, hlen⟩ := h
  rw [hsingle] at hcalls
  change [c'] = called ++ c :: todo at hcalls
  rcases called with _ | ⟨d, called⟩
  · obtain ⟨rfl, rfl⟩ := List.cons.inj hcalls
    exact ⟨rfl, rfl, List.length_eq_zero_iff.1 (Nat.le_zero.1 hlen)⟩
  · have := congrArg List.length hcalls
    simp at this

/-- The request of an exchange, once it is made. -/
theorem fits_exchange {x : Handler} {i : Nat} {t : Task} {id : Option Value} {p : PublicKey}
    {secKey : SecretKey} {key : Option SecretKey} (hsingle : E.rpc t.val = .single ⟨id, .initSecureApi p⟩)
    (hkey : ∀ q ∈ t.session, x.sharedKey = some q.2) (hnone : t.exchanges = [])
    (hapi : x.apiSharedKey = (initSecureApi E secKey p key).2) :
    Task.Fits E x i (Task.handle E
      { t with exchanges := t.exchanges ++ (initSecureApi E secKey p key).1.toList } []
      ([] ++ (id.map fun id => rpcOutput id (initResult E (initSecureApi E secKey p key).1)).toList)) := by
  have hinit : OwnerV3Helpers.isInitSecureApi t.val = true := E.rpc_init _ _ _ hsingle
  refine fits_handle hkey (fun h => absurd rfl h) ?_ fun _ r hr => ?_
  · refine ⟨[⟨id, .initSecureApi p⟩], by rw [hsingle]; rfl, ?_⟩
    exact Option.length_toList_le
  · intro e he
    rw [hsingle] at hr
    rcases id with _ | id
    · cases hr
    · rcases hmade : (initSecureApi E secKey p key).1 with _ | e'
      · rw [hmade, hnone] at he
        cases he
      · rw [hmade] at hr he
        rw [hnone] at he
        obtain rfl : e = e' := List.mem_singleton.1 he
        obtain ⟨h, hafter⟩ := initSecureApi_made hmade
        cases hr
        exact ⟨h, hinit, checkErrorResponse_init id e, hapi.trans hafter⟩

theorem inv_call {x y : Handler} {i : Nat} {a : Answer} (hs : (Event.call i a).Sound E x) (hx : Inv E x)
    (h : step E x (.call i a) = some y) : Inv E y := by
  simp only [step] at h
  split at h
  next t ht =>
    split at h
    next c todo outputs hphase =>
      have hfits := hx.fits i t ht
      unfold Task.Fits at hfits
      rw [hphase] at hfits
      obtain ⟨hkey, hnone, hcalls⟩ := hfits
      have hopen (r : Value) : t.phase ≠ .done r := by
        rw [hphase]
        exact nofun
      cases h
      obtain ⟨id, p | _⟩ := c
      · have hcallsInit : t.callsInit = true := by
          unfold Task.callsInit
          rw [hphase]
        obtain ⟨hbatch, hawaits⟩ := hs t ht hcallsInit
        rcases hrpc : E.rpc t.val with c' | cs
        · obtain ⟨rfl, rfl, rfl⟩ := single_call hrpc hcalls
          refine inv_set hx ht hopen rfl rfl rfl (fun u hu hawait => ?_) (fits_exchange hrpc hkey hnone rfl)
          rw [hawaits u hu] at hawait
          cases hawait
        · unfold Task.inBatch at hbatch
          rw [hrpc] at hbatch
          cases hbatch
      · refine inv_set hx ht hopen rfl rfl rfl (fun _ _ _ => rfl) ?_
        exact fits_handle hkey (fun _ => hnone) (called_succ hcalls _) fun _ _ _ => ready_of_nil hnone _ _
    all_goals cases h
  next => cases h

theorem encryptResponse_seals {k : SecretKey} {nonce : List Nat} {id : RpcId} {res : Value}
    (h : (E.aesSeal k nonce (utf8 (E.toText res))).isSome = true) :
    ∃ r, OwnerV3Helpers.encryptResponse E (some k) nonce id res = .ok r := by
  obtain ⟨sealed, hseal⟩ := Option.isSome_iff_exists.1 h
  unfold OwnerV3Helpers.encryptResponse EncryptedBody.fromJson
  simp only [hseal]
  exact ⟨_, rfl⟩

theorem inv_encrypt {x y : Handler} {i : Nat} {nonce : List Nat}
    (hs : (Event.encryptResponse i nonce).Sound E x) (hx : Inv E x)
    (h : step E x (.encryptResponse i nonce) = some y) : Inv E y := by
  simp only [step] at h
  split at h
  next t ht =>
    split at h
    next intercept id k hphase hsession =>
      have hfits := hx.fits i t ht
      unfold Task.Fits at hfits
      rw [hphase] at hfits
      obtain ⟨hkey, hready⟩ := hfits
      have hopen (r : Value) : t.phase ≠ .done r := by
        rw [hphase]
        exact nofun
      have hk : x.sharedKey = some k := hkey (id, k) hsession
      have hseals := hs t ht
      unfold Task.seals at hseals
      rw [hphase, hsession] at hseals
      obtain ⟨r, hr⟩ : ∃ r, OwnerV3Helpers.encryptResponse E (some k) nonce id intercept = .ok r :=
        encryptResponse_seals hseals
      rw [hk, hr] at h
      cases h
      refine inv_set hx ht hopen rfl rfl rfl (fun _ _ _ => rfl)
        (fits_afterEncryption (fun id' k' h' => ?_) hready)
      cases hsession.symm.trans h'
      exact .inr ⟨nonce, intercept, hr⟩
    next => cases h
  next => cases h

theorem inv_read {x y : Handler} {i : Nat} (hx : Inv E x) (h : step E x (.readApiKey i) = some y) :
    Inv E y := by
  simp only [step] at h
  split at h
  next t ht =>
    split at h
    next intercept r hphase =>
      have hfits := hx.fits i t ht
      unfold Task.Fits at hfits
      rw [hphase] at hfits
      have hopen (r : Value) : t.phase ≠ .done r := by
        rw [hphase]
        exact nofun
      cases h
      exact inv_set hx ht hopen rfl rfl rfl (fun _ _ _ => rfl) hfits
    all_goals cases h
  next => cases h

/-- The key of request `i` is stored: the requests that are decrypted have it already. -/
theorem inv_store {x : Handler} {i : Nat} {t : Task} {newKey : Option SecretKey} {r : Value} (t' : Task)
    (hx : Inv E x) (ht : x.tasks[i]? = some t) (hopen : ∀ r, t.phase ≠ .done r)
    (hkeys : ∀ u ∈ x.tasks, ∀ k ∈ u.openKey, newKey = some k) (hphase : t'.phase = .done r)
    (hinit : OwnerV3Helpers.isInitSecureApi t'.val = true) (hr : t'.Encrypted E r)
    (hmade : ∀ e ∈ t'.exchanges, e.Made E ∧ newKey = some e.sharedKey) :
    Inv E { x with sharedKey := newKey, tasks := x.tasks.set i t', stored := (i, newKey) :: x.stored } := by
  have hlt : i < x.tasks.length := (List.getElem?_eq_some_iff.1 ht).1
  have hne {w : Nat × Option SecretKey} (hw : w ∈ x.stored) : i ≠ w.1 := by
    rintro rfl
    obtain ⟨u, hu, -, r', hr'⟩ := hx.stored w hw
    obtain rfl : t = u := Option.some.inj (ht.symm.trans hu)
    exact hopen r' hr'
  refine ⟨fun j u hu => ?_, rfl, fun w hw => ?_, ?_⟩
  · rcases Decidable.eq_or_ne i j with rfl | hij
    · obtain rfl : t' = u := Option.some.inj ((List.getElem?_set_self hlt).symm.trans hu)
      unfold Task.Fits
      rw [hphase]
      refine ⟨hr, .inr fun e he => ⟨(hmade e he).1, ?_⟩⟩
      rw [← (hmade e he).2]
      exact List.mem_cons_self
    · have hu' : x.tasks[j]? = some u := (List.getElem?_set_ne hij).symm.trans hu
      exact (hx.fits j u hu').frame (fun k hk _ => hkeys u (List.mem_of_getElem? hu') k hk) (fun _ => rfl)
        fun w hw => List.mem_cons_of_mem _ hw
  · rcases List.mem_cons.1 hw with rfl | hw
    · exact ⟨t', List.getElem?_set_self hlt, hinit, r, hphase⟩
    · obtain ⟨u, hu, h⟩ := hx.stored w hw
      exact ⟨u, (List.getElem?_set_ne (hne hw)).trans hu, h⟩
  · refine List.nodup_cons.2 ⟨fun hmem => ?_, hx.nodup⟩
    obtain ⟨w, hw, hwi⟩ := List.mem_map.1 hmem
    exact hne hw hwi.symm

theorem inv_update {x y : Handler} {i : Nat} (hs : (Event.updateKey i).Sound E x) (hx : Inv E x)
    (h : step E x (.updateKey i) = some y) : Inv E y := by
  simp only [step] at h
  split at h
  next t ht =>
    split at h
    next intercept r newKey hphase =>
      have hfits := hx.fits i t ht
      unfold Task.Fits at hfits
      rw [hphase] at hfits
      obtain ⟨hr, hready, hinit⟩ := hfits
      have hopen (r : Value) : t.phase ≠ .done r := by
        rw [hphase]
        exact nofun
      have hnew : newKey ∈ t.newKey := by
        unfold Task.newKey
        rw [hphase]
        rfl
      cases h
      rcases htext : ((intercept.get "result").get "Ok").asStr with _ | s
      · -- the result is no text, so there was no exchange
        have hnone : t.exchanges = [] := List.eq_nil_iff_forall_not_mem.2 fun e he => by
          have := (hready e he).2.2.1
          rw [htext] at this
          cases this
        refine inv_set hx ht hopen rfl rfl ?_ (fun _ _ _ => rfl) ?_
        · unfold OwnerV3Helpers.updateOwnerApiSharedKey
          simp only [htext]
        · refine ⟨hr, .inr fun e he => ?_⟩
          rw [show ({ t with phase := .done r } : Task).exchanges = [] from hnone] at he
          cases he
      · have hkey : OwnerV3Helpers.updateOwnerApiSharedKey x.sharedKey intercept newKey = newKey := by
          unfold OwnerV3Helpers.updateOwnerApiSharedKey
          simp only [htext]
        rw [hkey]
        exact inv_store { t with phase := .done r } hx ht hopen (hs t ht newKey hnew) rfl hinit hr
          fun e he => ⟨(hready e he).1, (hready e he).2.2.2⟩
    all_goals cases h
  next => cases h

theorem inv_of_step {x y : Handler} {e : Event} (hs : e.Sound E x) (hx : Inv E x)
    (h : step E x e = some y) : Inv E y := by
  cases e with
  | receive val =>
    cases h
    exact inv_receive hx val
  | checkEncryptionStarted i => exact inv_check hx h
  | decryptRequest i => exact inv_decrypt hx h
  | call i a => exact inv_call hs hx h
  | encryptResponse i nonce => exact inv_encrypt hs hx h
  | readApiKey i => exact inv_read hx h
  | updateKey i => exact inv_update hs hx h

/-! ## Runs -/

theorem inv_new : Inv E new := ⟨nofun, rfl, nofun, List.nodup_nil⟩

theorem Inv.consistent {x : Handler} (hx : Inv E x) (hdh : E.DiffieHellman) : Consistent E x := by
  refine ⟨fun t ht r hr => ?_, fun i t ht r hr hne e he c hc => ?_⟩
  · obtain ⟨i, hi⟩ := List.getElem?_of_mem ht
    have hfits := hx.fits i t hi
    unfold Task.Fits at hfits
    rw [hr] at hfits
    exact hfits.1
  · have hfits := hx.fits i t ht
    unfold Task.Fits at hfits
    rw [hr] at hfits
    obtain ⟨hmade, hmem⟩ := (hfits.2.resolve_left hne) e he
    obtain ⟨later, earlier, hstored⟩ := List.append_of_mem hmem
    refine ⟨e.sharedKey, later, earlier, hmade.agrees hdh hc, hstored, ?_, fun w hw => ⟨?_, ?_⟩⟩
    · rintro rfl
      rw [hx.key, hstored]
      rfl
    · have hnodup := hx.nodup
      rw [hstored, List.map_append, List.map_cons] at hnodup
      rintro rfl
      exact (List.nodup_append.1 hnodup).2.2 _ (List.mem_map_of_mem hw) _ List.mem_cons_self rfl
    · obtain ⟨u, hu, hinit, -⟩ := hx.stored w (hstored ▸ List.mem_append_left _ hw)
      exact ⟨u, hu, hinit⟩

/-- In a run of sound events every response is encrypted under the key of its request, and the stored key is
that of the last exchange, as its client computes it. -/
theorem consistent_of_run (E : OwnerV3) (hdh : E.DiffieHellman) {es : List Event} {x : Handler}
    (hok : Steps.Allowed (step E) (Event.Sound E) es new) (hrun : Steps.run (step E) es new = some x) :
    Consistent E x :=
  (Steps.run_inv (fun _ _ _ => inv_of_step) hok inv_new hrun).consistent hdh

/-! A request between two exchanges. -/

namespace Consistent

mutual

/-- The value, if its numbers are naturals. -/
def toJson : Value → Json
  | .null => .null
  | .bool b => .bool b
  | .number literal => .num (Nat.ofDigitChars 10 literal.toList 0)
  | .string s => .str s
  | .array l => .arr (elemsToJson l)
  | .object fields => .obj (fieldsToJson fields)

def elemsToJson : List Value → List Json
  | [] => []
  | v :: l => toJson v :: elemsToJson l

def fieldsToJson : List (String × Value) → List (String × Json)
  | [] => []
  | (k, v) :: l => (k, toJson v) :: fieldsToJson l

end

mutual

def ofJson : Json → Value
  | .null => .null
  | .bool b => .bool b
  | .num n => .number n.repr
  | .str s => .string s
  | .arr l => .array (elemsOfJson l)
  | .obj fields => .object (fieldsOfJson fields)

def elemsOfJson : List Json → List Value
  | [] => []
  | j :: l => ofJson j :: elemsOfJson l

def fieldsOfJson : List (String × Json) → List (String × Value)
  | [] => []
  | (k, j) :: l => (k, ofJson j) :: fieldsOfJson l

end

def hexBytes : List Char → Option (List Nat)
  | [] => some []
  | [_] => none
  | a :: b :: l => do
    let x ← hexValue a
    let y ← hexValue b
    let rest ← hexBytes l
    pure ((16 * x + y) :: rest)

def callOf (v : Value) : RpcCall where
  id := match v with
    | .object fields => fields.lookup "id"
    | _ => some .null
  method :=
    if OwnerV3Helpers.isInitSecureApi v then
      match (((v.get "params").get "ecdh_pubkey").asStr.bind fun s => hexBytes s.toList).bind
        CryptoLib.small.publicKeyFromSlice with
      | some pk => .initSecureApi pk
      | none => .other
    else .other

/-- Keys of one byte; a tag is the key, sixteen times. -/
def small : OwnerV3 where
  crypto := .small
  secretKeyFromSlice b := some ⟨b.sum⟩
  publicKeyFromSecretKey s := some ⟨s.raw⟩
  aesSeal k _ text := some (text ++ List.replicate 16 k.raw)
  aesOpen k _ buf := if buf.drop (buf.length - 16) = List.replicate 16 k.raw then some buf else none
  base64Encode b := String.ofList (b.map Char.ofNat)
  base64Decode s := some (s.toList.map Char.toNat)
  utilFromHex s := hexBytes s.toList
  toText v := (toJson v).render
  fromText l := (Json.read l).map ofJson
  formatError _ := ""
  hashOrder l := l
  hashOrder_perm _ := .refl _
  rpc v := match v with
    | .array l => .batch (l.map callOf)
    | v => .single (callOf v)
  rpc_init v id pk h := by
    have hcall : ∀ v, (callOf v).method = .initSecureApi pk → OwnerV3Helpers.isInitSecureApi v = true := by
      intro v hv
      by_contra hno
      unfold callOf at hv
      simp only [if_neg hno] at hv
      cases hv
    cases v with
    | array l => cases h
    | null => exact hcall _ (congrArg RpcCall.method (RpcRequest.single.inj h))
    | bool b => exact hcall _ (congrArg RpcCall.method (RpcRequest.single.inj h))
    | number l => exact hcall _ (congrArg RpcCall.method (RpcRequest.single.inj h))
    | string s => exact hcall _ (congrArg RpcCall.method (RpcRequest.single.inj h))
    | object fields => exact hcall _ (congrArg RpcCall.method (RpcRequest.single.inj h))
  secpError := .null
  runningForeign := false

theorem small_diffieHellman : small.DiffieHellman := by
  rintro c s C S hC hS
  cases hC
  cases hS
  exact congrArg (fun n => some (⟨n⟩ : PublicKey)) (Nat.mul_comm _ _)

/-- The request of a client with this public key. -/
def initRequest (pubkey : Nat) : Value :=
  .object [("jsonrpc", .string "2.0"), ("method", .string "init_secure_api"), ("id", .string "1"),
    ("params", .object [("ecdh_pubkey", .string (String.ofList (toHex (List.replicate 32 0 ++ [pubkey]))))])]

def accounts : Value :=
  .object [("jsonrpc", .string "2.0"), ("method", .string "accounts"), ("id", .string "1"), ("params", .null)]

/-- A request that is encrypted under the key. -/
def encryptedRequest (k : SecretKey) (v : Value) : Value :=
  .object [("jsonrpc", .string "2.0"), ("method", .string "encrypted_request_v3"), ("id", .string "1"),
    ("params", ((EncryptedBody.fromJson small (List.replicate 12 0) v k).toOption.map
      EncryptedBody.toValue).getD .null)]

/-- The exchange of request `i`. -/
def exchange (i : Nat) (secKey : Nat) : List Event :=
  [.call i ⟨⟨secKey⟩, .null⟩, .readApiKey i, .updateKey i]

def answered : Value := rpcOutput (.string "1") (.object [("Ok", .array [])])

/-- The clients' keys are 2 and 4, the server's secrets 3 and 5. -/
def between : List Event :=
  [.receive (initRequest 2)] ++ exchange 0 3 ++
    [.receive (encryptedRequest ⟨6⟩ accounts), .checkEncryptionStarted 1, .decryptRequest 1,
      .receive (initRequest 4)] ++ exchange 2 5 ++
    [.call 1 ⟨⟨1⟩, answered⟩, .encryptResponse 1 (List.replicate 12 0)]

/-- The key a response was encrypted under. -/
def tag (r : Value) : Option Char :=
  (((r.get "result").get "Ok").get "body_enc").asStr.bind fun s => s.toList.getLast?

theorem tag_encryptResponse {k : SecretKey} {nonce : List Nat} {id : RpcId} {res r : Value}
    (h : OwnerV3Helpers.encryptResponse small (some k) nonce id res = .ok r) :
    tag r = some (Char.ofNat k.raw) := by
  cases h
  show (String.ofList ((utf8 (small.toText res) ++ List.replicate 16 k.raw).map
    Char.ofNat)).toList.getLast? = _
  rw [String.toList_ofList, List.map_append, List.map_replicate, List.getLast?_append]
  rfl

/-- The keys of request 1: of the request and of the response. -/
def keysOf (x : Handler) : Option (SecretKey × Option Char) := do
  let t ← x.tasks[1]?
  let (_, k) ← t.session
  match t.phase with
  | .done r => some (k, tag r)
  | _ => none

theorem keysOf_eq_some {x : Handler} {k : SecretKey} {c : Option Char} (h : keysOf x = some (k, c)) :
    ∃ t ∈ x.tasks, ∃ id r, t.session = some (id, k) ∧ t.phase = .done r ∧ tag r = c := by
  unfold keysOf at h
  obtain ⟨t, ht, h₁⟩ := Option.bind_eq_some_iff.1 h
  obtain ⟨⟨id, k'⟩, hsession, h₂⟩ := Option.bind_eq_some_iff.1 h₁
  rcases hphase : t.phase with _ | _ | _ | _ | _ | _ | r | _
  case done =>
    rw [hphase] at h₂
    cases h₂
    exact ⟨t, List.mem_of_getElem? ht, id, r, hsession, hphase, rfl⟩
  all_goals
    rw [hphase] at h₂
    cases h₂

theorem run_between : ∃ x, Steps.run (step small) between new = some x ∧
    keysOf x = some (⟨6⟩, some (Char.ofNat 20)) := by
  have h : (Steps.run (step small) between new).bind keysOf = some (⟨6⟩, some (Char.ofNat 20)) := by
    decide +kernel
  exact Option.bind_eq_some_iff.1 h

/-- The response is encrypted under the key of the second exchange. -/
theorem not_consistent : ¬∀ es x, Steps.run (step small) es new = some x → Consistent small x := by
  intro h
  obtain ⟨x, hrun, hkeys⟩ := run_between
  obtain ⟨t, ht, id, r, hsession, hphase, htag⟩ := keysOf_eq_some hkeys
  rcases (h between x hrun).responses t ht r hphase id ⟨6⟩ hsession with rfl | ⟨nonce, res, hres⟩
  · cases htag
  · have hsix := htag.symm.trans (tag_encryptResponse hres)
    exact absurd hsix (by decide)

/-- The request is answered before the second exchange. -/
def apart : List Event :=
  [.receive (initRequest 2)] ++ exchange 0 3 ++
    [.receive (encryptedRequest ⟨6⟩ accounts), .checkEncryptionStarted 1, .decryptRequest 1,
      .call 1 ⟨⟨1⟩, answered⟩, .encryptResponse 1 (List.replicate 12 0), .receive (initRequest 4)] ++
    exchange 2 5

theorem consistent_of_run_apart :
    ∃ x, Steps.run (step small) apart new = some x ∧ Consistent small x := by
  have hok : Steps.Allowed (step small) (Event.Sound small) apart new := by decide +kernel
  have hsome : (Steps.run (step small) apart new).isSome = true := by decide +kernel
  obtain ⟨x, hx⟩ := Option.isSome_iff_exists.1 hsome
  exact ⟨x, hx, consistent_of_run small small_diffieHellman hok hx⟩

end Consistent

end OwnerAPIHandlerV3

end EpicWallet
