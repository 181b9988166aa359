import EpicWallet.Lib.Json
import EpicWallet.Libwallet.Proof.Hex

/-!
# Keys and signatures as hexadecimal text

`libwallet/src/slate_versions/ser.rs`: the four modules that write an ed25519 key or signature, or an optional
one, as a JSON string and read it back. The hexadecimal functions of `epic_util` and the arrays of
`ed25519_dalek` are a record (`DalekLib`). Two of the modules check the number of bytes that were read; the two
others slice them, which panics if there are too few and cuts off what is too much (`exact_iff`).
-/

namespace EpicWallet

open Lib

/-- `[u8; n]`. -/
abbrev Bytes (n : Nat) : Type := { b : List UInt8 // b.length = n }

/-- What the modules take from `epic_util`, `ed25519_dalek` and the deserializer. -/
structure DalekLib (PublicKey Signature : Type) where
  toHex : List UInt8 → String
  fromHex : String → Except String (List UInt8)
  pubkeyToBytes : PublicKey → Bytes 32
  pubkeyFromBytes : Bytes 32 → Except String PublicKey
  sigToBytes : Signature → Bytes 64
  sigFromBytes : Bytes 64 → Signature
  invalidType : Json → String

/-- What is written is read back. -/
structure DalekLib.Lawful {PublicKey Signature : Type} (D : DalekLib PublicKey Signature) : Prop where
  hex : ∀ b, b ≠ [] → D.fromHex (D.toHex b) = .ok b
  pubkey : ∀ k, D.pubkeyFromBytes (D.pubkeyToBytes k) = .ok k
  sig : ∀ s, D.sigFromBytes (D.sigToBytes s) = s

/-- A reader may panic. -/
abbrev Read (α : Type) : Type := Except (Fault String) α

/-- `bytes.try_into()`, with the message of the module. -/
def tryInto (n : Nat) (message : String) (bytes : List UInt8) : Read (Bytes n) :=
  if h : bytes.length = n then .ok ⟨bytes, h⟩ else .error (.err message)

/-- `b.copy_from_slice(&bytes[0..n])`. -/
def copyFromSlice (n : Nat) (bytes : List UInt8) : Read (Bytes n) :=
  if h : n ≤ bytes.length then .ok ⟨bytes.take n, List.length_take_of_le h⟩ else .error .panic

section
variable {PublicKey Signature : Type} (D : DalekLib PublicKey Signature)

/-- `String::deserialize`. -/
def deserializeString : Json → Read String
  | .str s => .ok s
  | j => .error (.err (D.invalidType j))

/-- `Option::<String>::deserialize`. -/
def deserializeOptString : Json → Read (Option String)
  | .null => .ok none
  | .str s => .ok (some s)
  | j => .error (.err (D.invalidType j))

namespace DalekPubkeySerde

def serialize (key : PublicKey) : Json := .str (D.toHex (D.pubkeyToBytes key).1)

def deserialize (j : Json) : Read PublicKey := do
  let string ← deserializeString D j
  let bytes ← (D.fromHex string).mapError .err
  let array ← tryInto 32 "Public key must be 32 bytes" bytes
  (D.pubkeyFromBytes array).mapError .err

end DalekPubkeySerde

namespace OptionDalekPubkeySerde

def serialize : Option PublicKey → Json
  | some key => .str (D.toHex (D.pubkeyToBytes key).1)
  | none => .null

def deserialize (j : Json) : Read (Option PublicKey) := do
  let res ← deserializeOptString D j
  match res with
  | some string => do
    let bytes ← (D.fromHex string).mapError .err
    let b ← copyFromSlice 32 bytes
    let val ← (D.pubkeyFromBytes b).mapError .err
    pure (some val)
  | none => pure none

end OptionDalekPubkeySerde

namespace DalekSigSerde

def serialize (key : Signature) : Json := .str (D.toHex (D.sigToBytes key).1)

def deserialize (j : Json) : Read Signature := do
  let string ← deserializeString D j
  let bytes ← (D.fromHex string).mapError .err
  let b ← copyFromSlice 64 bytes
  pure (D.sigFromBytes b)

end DalekSigSerde

namespace OptionDalekSigSerde

def serialize : Option Signature → Json
  | some key => .str (D.toHex (D.sigToBytes key).1)
  | none => .null

def deserialize (j : Json) : Read (Option Signature) := do
  let res ← deserializeOptString D j
  match res with
  | some string => do
    let bytes ← (D.fromHex string).mapError .err
    let array ← tryInto 64 "Signature must be exactly 64 bytes" bytes
    pure (some (D.sigFromBytes array))
  | none => pure none

end OptionDalekSigSerde

end

/-! ## What is read and what is refused -/

section
variable {PublicKey Signature α : Type} (D : DalekLib PublicKey Signature)

/-- Every value is read back, and the text is refused unless it is that of the right number of bytes. -/
structure ExactAt (size : Nat) (serialize : α → Json) (deserialize : Json → Read α) (s : String) : Prop where
  roundTrip : ∀ v, deserialize (serialize v) = .ok v
  refuses : (∀ bytes, D.fromHex s = .ok bytes → bytes.length ≠ size) →
    ∃ e, deserialize (.str s) = .error (.err e)

variable {D}

theorem fromHex_toHex_bytes (hD : D.Lawful) {n : Nat} (hn : 0 < n) (b : Bytes n) :
    D.fromHex (D.toHex b.1) = .ok b.1 := by
  refine hD.hex b.1 ?_
  intro hnil
  have hlen := b.2
  rw [hnil] at hlen
  exact absurd hlen (Nat.ne_of_lt hn)

@[simp] theorem tryInto_bytes {n : Nat} {message : String} (b : Bytes n) : tryInto n message b.1 = .ok b :=
  dif_pos b.2

theorem tryInto_ne {n : Nat} {message : String} {bytes : List UInt8} (h : bytes.length ≠ n) :
    tryInto n message bytes = .error (.err message) := dif_neg h

theorem copyFromSlice_long {n : Nat} {bytes : List UInt8} (h : n ≤ bytes.length) :
    copyFromSlice n bytes = .ok ⟨bytes.take n, List.length_take_of_le h⟩ := dif_pos h

/-- Of too few bytes no slice can be taken. -/
theorem copyFromSlice_short {n : Nat} {bytes : List UInt8} (h : bytes.length < n) :
    copyFromSlice n bytes = .error .panic := dif_neg (Nat.not_le.2 h)

@[simp] theorem copyFromSlice_bytes {n : Nat} (b : Bytes n) : copyFromSlice n b.1 = .ok b := by
  rw [copyFromSlice_long (Nat.le_of_eq b.2.symm)]
  exact congrArg Except.ok (Subtype.ext (List.take_of_length_le (Nat.le_of_eq b.2)))

/-- A reader of texts that hands the bytes on: if it reads the bytes a value is written as, it is exact on the
texts of which it reads or refuses the bytes. -/
theorem exactAt_iff (hD : D.Lawful) {size : Nat} (hsize : 0 < size) {serialize : α → Json}
    {deserialize : Json → Read α} {ofBytes : List UInt8 → Read α}
    (hstr : ∀ s, deserialize (.str s) = (D.fromHex s).mapError .err >>= ofBytes)
    (hread : ∀ v, deserialize (serialize v) = .ok v ∨
      ∃ b : Bytes size, serialize v = .str (D.toHex b.1) ∧ ofBytes b.1 = .ok v) (s : String) :
    ExactAt D size serialize deserialize s ↔
      ∀ bytes, D.fromHex s = .ok bytes → bytes.length = size ∨ ∃ e, ofBytes bytes = .error (.err e) := by
  have hbytes {s : String} {bytes : List UInt8} (h : D.fromHex s = .ok bytes) :
      deserialize (.str s) = ofBytes bytes := by
    rw [hstr, h]
    rfl
  have hround : ∀ v, deserialize (serialize v) = .ok v := fun v => by
    rcases hread v with h | ⟨b, hwritten, hof⟩
    · exact h
    · rw [hwritten, hbytes (fromHex_toHex_bytes hD hsize b), hof]
  rcases h : D.fromHex s with e | bytes
  · have hs : deserialize (.str s) = .error (.err e) := by
      rw [hstr, h]
      rfl
    exact iff_of_true ⟨hround, fun _ => ⟨e, hs⟩⟩ nofun
  · constructor
    · rintro hexact _ ⟨⟩
      by_cases hlen : bytes.length = size
      · exact .inl hlen
      · refine .inr (hbytes h ▸ hexact.refuses fun b hb => ?_)
        cases h.symm.trans hb
        exact hlen
    · intro hall
      refine ⟨hround, fun hne => ?_⟩
      rw [hbytes h]
      exact (hall bytes rfl).resolve_left (hne bytes h)

theorem DalekPubkeySerde.exact (hD : D.Lawful) (s : String) :
    ExactAt D 32 (serialize D) (deserialize D) s := by
  refine (exactAt_iff hD (by decide) (fun _ => rfl) (fun v => ?_) s).2 fun bytes _ => ?_
  · refine .inr ⟨D.pubkeyToBytes v, rfl, ?_⟩
    rw [tryInto_bytes]
    show (D.pubkeyFromBytes (D.pubkeyToBytes v)).mapError Fault.err = _
    rw [hD.pubkey]
    rfl
  · by_cases hlen : bytes.length = 32
    · exact .inl hlen
    · rw [tryInto_ne hlen]
      exact .inr ⟨_, rfl⟩

theorem OptionDalekSigSerde.exact (hD : D.Lawful) (s : String) :
    ExactAt D 64 (serialize D) (deserialize D) s := by
  refine (exactAt_iff hD (by decide) (fun _ => rfl) (fun v => ?_) s).2 fun bytes _ => ?_
  · rcases v with _ | sig
    · exact .inl rfl
    · refine .inr ⟨D.sigToBytes sig, rfl, ?_⟩
      rw [tryInto_bytes]
      exact congrArg (fun s => Except.ok (some s)) (hD.sig sig)
  · by_cases hlen : bytes.length = 64
    · exact .inl hlen
    · rw [tryInto_ne hlen]
      exact .inr ⟨_, rfl⟩

/-- The optional key is read from the first 32 bytes, however many there are. -/
theorem OptionDalekPubkeySerde.exact_pubkey_iff (hD : D.Lawful) (s : String) :
    ExactAt D 32 (serialize D) (deserialize D) s ↔
      ∀ bytes, D.fromHex s = .ok bytes → bytes.length = 32 ∨ ∃ h : 32 < bytes.length, ∃ e,
        D.pubkeyFromBytes ⟨bytes.take 32, List.length_take_of_le (Nat.le_of_lt h)⟩ = .error e := by
  have hkeyOf (b : Bytes 32) : ((D.pubkeyFromBytes b).mapError Fault.err >>= fun val =>
      (pure (some val) : Read (Option PublicKey))) =
      ((D.pubkeyFromBytes b).map some).mapError Fault.err := by
    cases D.pubkeyFromBytes b <;> rfl
  refine (exactAt_iff hD (by decide) (fun _ => rfl) (fun v => ?_) s).trans
    (forall₂_congr fun bytes _ => ?_)
  · rcases v with _ | k
    · exact .inl rfl
    · refine .inr ⟨D.pubkeyToBytes k, rfl, ?_⟩
      rw [copyFromSlice_bytes]
      refine (hkeyOf _).trans ?_
      rw [hD.pubkey]
      rfl
  rcases Nat.lt_trichotomy bytes.length 32 with hshort | hlen | hlong
  · rw [copyFromSlice_short hshort]
    refine iff_of_false ?_ ?_
    · rintro (hlen | ⟨e, he⟩)
      · exact Nat.ne_of_lt hshort hlen
      · cases he
    · rintro (hlen | ⟨hlong, -⟩)
      · exact Nat.ne_of_lt hshort hlen
      · exact Nat.lt_asymm hshort hlong
  · exact iff_of_true (.inl hlen) (.inl hlen)
  · rw [copyFromSlice_long (Nat.le_of_lt hlong)]
    refine or_congr Iff.rfl ⟨?_, ?_⟩
    · rintro ⟨e, he⟩
      have hkey := (hkeyOf _).symm.trans he
      rcases h : D.pubkeyFromBytes ⟨bytes.take 32, List.length_take_of_le (Nat.le_of_lt hlong)⟩ with e' | k
      · exact ⟨hlong, e', h⟩
      · rw [h] at hkey
        cases hkey
    · rintro ⟨_, e, he⟩
      refine ⟨e, (hkeyOf _).trans ?_⟩
      rw [he]
      rfl

/-- Of more than 64 bytes the rest is cut off. -/
theorem DalekSigSerde.deserialize_long {s : String} {bytes : List UInt8} (hs : D.fromHex s = .ok bytes)
    (h : 64 ≤ bytes.length) :
    deserialize D (.str s) = .ok (D.sigFromBytes ⟨bytes.take 64, List.length_take_of_le h⟩) := by
  show ((D.fromHex s).mapError Fault.err >>= fun bytes =>
    copyFromSlice 64 bytes >>= fun b => pure (D.sigFromBytes b)) = _
  rw [hs]
  show (copyFromSlice 64 bytes >>= fun b => pure (D.sigFromBytes b)) = _
  rw [copyFromSlice_long h]
  rfl

/-- The signature is read from the first 64 bytes, and any 64 bytes are one. -/
theorem DalekSigSerde.exact_sig_iff (hD : D.Lawful) (s : String) :
    ExactAt D 64 (serialize D) (deserialize D) s ↔
      ∀ bytes, D.fromHex s = .ok bytes → bytes.length = 64 := by
  refine (exactAt_iff hD (by decide) (fun _ => rfl) (fun v => ?_) s).trans
    (forall₂_congr fun bytes _ => or_iff_left ?_)
  · refine .inr ⟨D.sigToBytes v, rfl, ?_⟩
    rw [copyFromSlice_bytes]
    exact congrArg Except.ok (hD.sig v)
  · rintro ⟨e, he⟩
    rcases Nat.lt_or_ge bytes.length 64 with hshort | hlong
    · rw [copyFromSlice_short hshort] at he
      cases he
    · rw [copyFromSlice_long hlong] at he
      cases he

end

/-! ## The four modules -/

inductive SerdeModule where
  | dalekPubkey
  | optionDalekPubkey
  | dalekSig
  | optionDalekSig

namespace SerdeModule

variable {PublicKey Signature : Type} (D : DalekLib PublicKey Signature)

/-- The module is exact on a text. -/
def Exact (s : String) : SerdeModule → Prop
  | dalekPubkey => ExactAt D 32 (DalekPubkeySerde.serialize D) (DalekPubkeySerde.deserialize D) s
  | optionDalekPubkey =>
    ExactAt D 32 (OptionDalekPubkeySerde.serialize D) (OptionDalekPubkeySerde.deserialize D) s
  | dalekSig => ExactAt D 64 (DalekSigSerde.serialize D) (DalekSigSerde.deserialize D) s
  | optionDalekSig => ExactAt D 64 (OptionDalekSigSerde.serialize D) (OptionDalekSigSerde.deserialize D) s

/-- The texts a module can tell: all of them if it checks the number of bytes; if it slices them, those that
are no bytes or the right number, and for a key also those that begin with 32 bytes of no key. -/
def Tells (s : String) : SerdeModule → Prop
  | dalekPubkey => True
  | optionDalekPubkey => ∀ bytes, D.fromHex s = .ok bytes → bytes.length = 32 ∨
      ∃ h : 32 < bytes.length, ∃ e,
        D.pubkeyFromBytes ⟨bytes.take 32, List.length_take_of_le (Nat.le_of_lt h)⟩ = .error e
  | dalekSig => ∀ bytes, D.fromHex s = .ok bytes → bytes.length = 64
  | optionDalekSig => True

variable {D}

/-- A module is exact on the texts it can tell, and on no others. -/
theorem exact_iff (hD : D.Lawful) (m : SerdeModule) (s : String) : m.Exact D s ↔ m.Tells D s := by
  cases m with
  | dalekPubkey => exact iff_of_true (DalekPubkeySerde.exact hD s) trivial
  | optionDalekPubkey => exact OptionDalekPubkeySerde.exact_pubkey_iff hD s
  | dalekSig => exact DalekSigSerde.exact_sig_iff hD s
  | optionDalekSig => exact iff_of_true (OptionDalekSigSerde.exact hD s) trivial

/-- Keys and signatures that are their bytes, the hexadecimal text of the wallet, and no key that begins
with 255. -/
def plainLib : DalekLib { k : Bytes 32 // k.1.head? ≠ some 255 } (Bytes 64) where
  toHex b := String.ofList (EpicWallet.toHex (b.map (·.toNat)))
  fromHex s := match EpicWallet.fromHex s.toList with
    | .ok b => .ok (b.map UInt8.ofNat)
    | .error _ => .error "invalid digit found in string"
  pubkeyToBytes k := k.1
  pubkeyFromBytes b := if h : b.1.head? ≠ some 255 then .ok ⟨b, h⟩ else .error "signature error"
  sigToBytes s := s
  sigFromBytes b := b
  invalidType _ := "invalid type"

theorem plainLib_lawful : plainLib.Lawful where
  hex b hb := by
    have hread : EpicWallet.fromHex (EpicWallet.toHex (b.map (·.toNat))) = .ok (b.map (·.toNat)) := by
      refine fromHex_toHex (by simpa using hb) fun x hx => ?_
      obtain ⟨y, -, rfl⟩ := List.mem_map.1 hx
      exact y.toNat_lt
    have hback : (b.map (·.toNat)).map UInt8.ofNat = b := by
      rw [List.map_map]
      exact List.map_id'' (fun x => UInt8.ofNat_toNat) b
    show (match EpicWallet.fromHex (String.ofList _).toList with
      | .ok b => Except.ok (b.map UInt8.ofNat)
      | .error _ => .error "invalid digit found in string") = _
    rw [String.toList_ofList, hread]
    exact congrArg Except.ok hback
  pubkey k := dif_pos k.2
  sig _ := rfl

/-- The text of one byte is no signature. -/
theorem exact_iff_byte :
    Exact plainLib (plainLib.toHex [0]) .dalekSig ↔ Tells plainLib (plainLib.toHex [0]) .dalekSig :=
  exact_iff plainLib_lawful .dalekSig (plainLib.toHex [0])

/-- The text of one byte makes the readers of a signature and of an optional key panic, and a signature is
read from 65 bytes. -/
theorem not_exact :
    DalekSigSerde.deserialize plainLib (.str (plainLib.toHex [0])) = .error .panic ∧
    OptionDalekPubkeySerde.deserialize plainLib (.str (plainLib.toHex [0])) = .error .panic ∧
    DalekSigSerde.deserialize plainLib (.str (plainLib.toHex (List.replicate 65 0))) =
      .ok ⟨List.replicate 64 0, List.length_replicate⟩ ∧
    ¬Exact plainLib (plainLib.toHex [0]) .dalekSig := by
  have hbyte : plainLib.fromHex (plainLib.toHex [0]) = .ok [0] := plainLib_lawful.hex [0] nofun
  have hlong : plainLib.fromHex (plainLib.toHex (List.replicate 65 0)) = .ok (List.replicate 65 0) :=
    plainLib_lawful.hex _ nofun
  have hpanic : DalekSigSerde.deserialize plainLib (.str (plainLib.toHex [0])) = .error .panic := by
    show ((plainLib.fromHex (plainLib.toHex [0])).mapError .err >>= fun bytes =>
      copyFromSlice 64 bytes >>= fun b => pure (plainLib.sigFromBytes b)) = _
    rw [hbyte]
    rfl
  refine ⟨hpanic, ?_, ?_, fun h => ?_⟩
  · show ((plainLib.fromHex (plainLib.toHex [0])).mapError .err >>= fun bytes =>
      copyFromSlice 32 bytes >>= fun b => (plainLib.pubkeyFromBytes b).mapError .err >>= fun val =>
        pure (some val)) = _
    rw [hbyte]
    rfl
  · have hcut : (List.replicate 65 (0 : UInt8)).take 64 = List.replicate 64 0 := by
      rw [List.take_replicate]
      rfl
    rw [DalekSigSerde.deserialize_long hlong (by rw [List.length_replicate]; decide)]
    exact congrArg Except.ok (Subtype.ext hcut)
  · obtain ⟨e, he⟩ := h.refuses fun bytes hbytes => by
      cases hbyte.symm.trans hbytes
      decide
    cases hpanic.symm.trans he

end SerdeModule

end EpicWallet
