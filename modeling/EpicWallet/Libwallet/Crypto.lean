import EpicWallet.Libwallet.SlateVersions

/-!
# Addresses and encrypted messages of epicbox

`libwallet/src/base58.rs`, `crypto.rs`, `epicbox_address.rs`, `message.rs` and `tx_proof.rs`. Bytes are
numbers below 256 and a text is the list of its characters. Hashes, the curve and the cipher are a record
(`CryptoLib`). A function that may panic returns an `Except` over `Fault`.
-/

namespace EpicWallet

open Lib

/-- The errors of these files. -/
inductive CryptoError where
  | numberParsing
  | invalidBase58Character (c : Char) (i : Nat)
  | invalidBase58Length
  | invalidBase58Checksum
  | invalidBase58Version
  | invalidBase58Key
  | epicboxAddressParsing (s : String)
  | encryption
  | decryption
deriving DecidableEq

abbrev Checked (α : Type) : Type := Except (Fault CryptoError) α

def Checked.fail {α : Type} (e : CryptoError) : Checked α := .error (.err e)

def Checked.panic {α : Type} : Checked α := .error .panic

/-- `ok_or` and `?`. -/
def Checked.orElse {α : Type} (e : CryptoError) : Option α → Checked α
  | some a => .ok a
  | none => Checked.fail e

/-- `unwrap`, and a slice or a closure that panics. -/
def Checked.unwrap {α : Type} : Option α → Checked α
  | some a => .ok a
  | none => Checked.panic

/-- What hashes, the curve and the cipher do. -/
structure CryptoLib where
  sha256 : List Nat → List Nat
  sha256_length : ∀ b, (sha256 b).length = 32
  publicKeyFromSlice : List Nat → Option PublicKey
  /-- Compressed. -/
  serializePublicKey : PublicKey → List Nat
  serializePublicKey_length : ∀ k, (serializePublicKey k).length = 33
  mulAssign : PublicKey → SecretKey → Option PublicKey
  signatureFromDer : List Nat → Option Signature
  serializeDer : Signature → List Nat
  sign : List Nat → SecretKey → Option Signature
  verify : List Nat → Signature → PublicKey → Bool
  pbkdf2 : List Nat → List Nat → List Nat
  sealInPlace : List Nat → List Nat → List Nat → Option (List Nat)
  /-- The buffer once it is opened: the text and what is left of the tag. -/
  openInPlace : List Nat → List Nat → List Nat → Option (List Nat)
  isFloonet : Bool

/-- Keys and signatures of one byte, and a cipher that encrypts nothing. -/
def CryptoLib.small : CryptoLib where
  sha256 b := List.replicate 32 (b.sum % 256)
  sha256_length _ := List.length_replicate
  publicKeyFromSlice b := if b.length = 33 then some ⟨b.sum⟩ else none
  serializePublicKey k := List.replicate 32 0 ++ [k.raw % 256]
  serializePublicKey_length _ := by simp
  mulAssign p k := some ⟨p.raw * k.raw⟩
  signatureFromDer b := if b.length = 8 then some ⟨b.sum⟩ else none
  serializeDer s := List.replicate 7 0 ++ [s.raw % 256]
  sign m k := some ⟨m.sum + k.raw⟩
  verify m s p := s.raw = (m.sum + p.raw) % 256
  pbkdf2 salt secret := salt ++ secret
  sealInPlace _ _ m := some (m ++ List.replicate 16 0)
  openInPlace _ _ m := if m.length < 16 then none else some m
  isFloonet := false

/-! ## Texts as bytes -/

/-- The bytes of a text. -/
def utf8 (text : List Char) : List Nat := (text.flatMap String.utf8EncodeChar).map (·.toNat)

/-- `len` of a text. -/
def byteLen (text : List Char) : Nat := (text.map (·.utf8Size)).sum

/-- The text before and after a byte, if the byte starts a character or ends the text. -/
def splitAtByte : Nat → List Char → Option (List Char × List Char)
  | 0, s => some ([], s)
  | _ + 1, [] => none
  | n + 1, c :: s =>
    if c.utf8Size ≤ n + 1 then (splitAtByte (n + 1 - c.utf8Size) s).map fun p => (c :: p.1, p.2)
    else none
termination_by _ s => s.length

/-- `&s[a..b]`. -/
def slice (s : List Char) (a b : Nat) : Checked (List Char) :=
  if b < a then Checked.panic
  else do
    let (before, _) ← Checked.unwrap (splitAtByte b s)
    let (_, part) ← Checked.unwrap (splitAtByte a before)
    pure part

/-! ## Base 58 -/

namespace Base58

def ALPHABET : List Char := "123456789ABCDEFGHJKLMNPQRSTUVWXYZabcdefghijkmnopqrstuvwxyz".toList

def B58_DIGITS_MAP : List Int :=
  [-1, -1, -1, -1, -1, -1, -1, -1, -1, -1, -1, -1, -1, -1, -1, -1, -1, -1, -1, -1, -1, -1, -1, -1,
   -1, -1, -1, -1, -1, -1, -1, -1, -1, -1, -1, -1, -1, -1, -1, -1, -1, -1, -1, -1, -1, -1, -1, -1,
   -1, 0, 1, 2, 3, 4, 5, 6, 7, 8, -1, -1, -1, -1, -1, -1, -1, 9, 10, 11, 12, 13, 14, 15,
   16, -1, 17, 18, 19, 20, 21, -1, 22, 23, 24, 25, 26, 27, 28, 29, 30, 31, 32, -1, -1, -1, -1, -1,
   -1, 33, 34, 35, 36, 37, 38, 39, 40, 41, 42, 43, -1, 44, 45, 46, 47, 48, 49, 50, 51, 52, 53, 54,
   55, 56, 57, -1, -1, -1, -1, -1]

/-- The digit of a byte below 128. -/
def digit (byte : Nat) : Option Nat :=
  match B58_DIGITS_MAP.getD byte (-1) with
  | .ofNat d => some d
  | .negSucc _ => none

/-- One digit more: the limbs, highest first, times 58 and the digit, and what is carried out. -/
def pushDigit (out : List Nat) (c : Nat) : List Nat × Nat :=
  out.foldr (fun limb acc =>
    let t := limb * 58 + acc.2
    (t % 2 ^ 32 :: acc.1, t / 2 ^ 32 % 64)) ([], c)

/-- The loop of `from_base58` from byte `i` on. The mask of the highest limb is 0, since 132 is a multiple
of 4. -/
def pushDigits : List Nat → Nat → List Nat → Checked (List Nat)
  | [], _, out => .ok out
  | b :: bytes, i, out =>
    if b ≥ 128 then Checked.fail (.invalidBase58Character (Char.ofNat b) i)
    else match digit b with
      | none => Checked.fail (.invalidBase58Character (Char.ofNat b) i)
      | some c =>
        if (pushDigit out c).2 ≠ 0 then Checked.fail .invalidBase58Length
        else pushDigits bytes (i + 1) (pushDigit out c).1

def limbBytes (limb : Nat) : List Nat :=
  [limb / 2 ^ 24 % 256, limb / 2 ^ 16 % 256, limb / 2 ^ 8 % 256, limb % 256]

def fromBase58 (text : List Char) : Checked (List Nat) := do
  let zcount := (text.takeWhile (· = '1')).length
  let out ← pushDigits ((utf8 text).drop zcount) zcount (List.replicate 33 0)
  let bin := out.flatMap limbBytes
  let leadingZeros := (bin.takeWhile (· = 0)).length
  if leadingZeros < zcount then Checked.panic
  else pure (bin.drop (leadingZeros - zcount))

/-- One byte more: the digits, lowest first, times 256 and the carry. The first `left` of them are passed
in any case, then the loop stops once nothing is carried; with the digits it returns how many it passed. At
the highest digit it stays, and `none` is that something is carried on from there. -/
def carryLoop : List Nat → Nat → Nat → Option (List Nat × Nat)
  | [], _, _ => none
  | [d], _, carry =>
    if carry = 0 then some ([d], 0)
    else if (carry + 256 * d) / 58 = 0 then some ([(carry + 256 * d) % 58], 0)
    else none
  | d :: d' :: ds, left, carry =>
    if left = 0 ∧ carry = 0 then some (d :: d' :: ds, 0)
    else (carryLoop (d' :: ds) (left - 1) ((carry + 256 * d) / 58)).map fun r =>
      ((carry + 256 * d) % 58 :: r.1, r.2 + 1)

/-- The loop of `to_base58` over the bytes after the leading zeros. -/
def pushBytes : List Nat → List Nat → Nat → Option (List Nat)
  | [], buffer, _ => some buffer
  | b :: bytes, buffer, left => do
    let (buffer, left) ← carryLoop buffer left b
    pushBytes bytes buffer left

/-- `none`: the buffer is too small. -/
def toBase58 (bytes : List Nat) : Option (List Char) := do
  let zcount := (bytes.takeWhile (· = 0)).length
  let size := (bytes.length - zcount) * 138 / 100 + 1
  let buffer ← pushBytes (bytes.drop zcount) (List.replicate size 0) 0
  let digits := buffer.reverse.dropWhile (· = 0)
  pure (List.replicate zcount '1' ++ digits.map fun d => ALPHABET.getD d '1')

section
variable (K : CryptoLib)

def doubleSha256 (payload : List Nat) : List Nat := K.sha256 (K.sha256 payload)

def toBase58Check (bytes version : List Nat) : Option (List Char) :=
  toBase58 (version ++ bytes ++ (doubleSha256 K (version ++ bytes)).take 4)

/-- The version and the rest. -/
def fromBase58Check (text : List Char) (versionBytes : Nat) : Checked (List Nat × List Nat) := do
  let payload ← fromBase58 text
  if payload.length < 5 then Checked.fail .invalidBase58Checksum
  else
    let checksumIndex := payload.length - 4
    let providedChecksum := payload.drop checksumIndex
    let payload := payload.take checksumIndex
    if (doubleSha256 K payload).take 4 ≠ providedChecksum then Checked.fail .invalidBase58Checksum
    else if payload.length < versionBytes then Checked.panic
    else pure (payload.take versionBytes, payload.drop versionBytes)

end

end Base58

/-! ## Hexadecimal -/

/-- `char::is_whitespace`. -/
def isWhitespace (c : Char) : Bool :=
  [0x9, 0xA, 0xB, 0xC, 0xD, 0x20, 0x85, 0xA0, 0x1680, 0x2028, 0x2029, 0x202F, 0x205F, 0x3000].contains
    c.toNat || (0x2000 ≤ c.toNat && c.toNat ≤ 0x200A)

def trim (s : List Char) : List Char :=
  ((s.dropWhile isWhitespace).reverse.dropWhile isWhitespace).reverse

def hexValue (c : Char) : Option Nat :=
  if '0' ≤ c ∧ c ≤ '9' then some (c.toNat - '0'.toNat)
  else if 'a' ≤ c ∧ c ≤ 'f' then some (c.toNat - 'a'.toNat + 10)
  else if 'A' ≤ c ∧ c ≤ 'F' then some (c.toNat - 'A'.toNat + 10)
  else none

/-- `u8::from_str_radix` with radix 16 on a text of at most two characters. -/
def readByte : List Char → Option Nat
  | [] => none
  | [c] => hexValue c
  | '+' :: s => s.foldlM (fun n c => (hexValue c).map (16 * n + ·)) 0
  | s => s.foldlM (fun n c => (hexValue c).map (16 * n + ·)) 0

/-- `split_n` with 2; a text of less than two bytes makes `s.len() - n` underflow. -/
def splitPairs (s : List Char) : Checked (List (List Char)) :=
  if byteLen s < 2 then Checked.panic
  else (List.range ((byteLen s - 2 + 1) / 2 + 1)).mapM fun i => slice s (2 * i) (2 * i + 2)

def fromHex (hexStr : List Char) : Checked (List Nat) :=
  if byteLen hexStr % 2 = 1 then Checked.fail .numberParsing
  else do
    let head ← slice hexStr 0 2
    let hexTrim ← (if head = ['0', 'x'] then slice hexStr 2 (byteLen hexStr) else pure hexStr)
    let parts ← splitPairs (trim hexTrim)
    parts.mapM fun b => Checked.orElse .numberParsing (readByte b)

def toHex (bytes : List Nat) : List Char := bytes.flatMap (hexDigits 2)

/-! ## Signatures -/

section
variable (K : CryptoLib)

/-- A signature that is no DER makes the closure of `map_err` panic. -/
def Signature.fromHex (text : List Char) : Checked Signature := do
  let hex ← EpicWallet.fromHex text
  Checked.unwrap (K.signatureFromDer hex)

def Signature.toHex (sig : Signature) : List Char := EpicWallet.toHex (K.serializeDer sig)

def signChallenge (challenge : List Char) (secretKey : SecretKey) : Checked Signature :=
  Checked.unwrap (K.sign (K.sha256 (utf8 challenge)) secretKey)

/-- A signature that does not verify makes the closure of `map_err` panic. -/
def verifySignature (challenge : List Char) (signature : Signature) (publicKey : PublicKey) :
    Checked Unit :=
  if K.verify (K.sha256 (utf8 challenge)) signature publicKey then pure () else Checked.panic

end

/-! ## Addresses -/

structure EpicboxAddress where
  publicKey : String
  domain : String
  port : Option Nat
deriving DecidableEq

def EPICBOX_ADDRESS_VERSION_MAINNET : List Nat := [1, 0]

def EPICBOX_ADDRESS_VERSION_TESTNET : List Nat := [1, 136]

def DEFAULT_EPICBOX_DOMAIN : String := "epicbox.epiccash.com"

def DEFAULT_EPICBOX_PORT_443 : Nat := 443

/-- `u16::from_str_radix` on digits. -/
def readPort (digits : List Char) : Option Nat :=
  if digits = [] then none
  else if Nat.ofDigitChars 10 digits 0 < 2 ^ 16 then some (Nat.ofDigitChars 10 digits 0)
  else none

namespace EpicboxAddress

def isDomainChar (c : Char) : Bool := c.isAlphanum || c = '.'

/-- The captures of `EPICBOX_ADDRESS_REGEX`: the key, the domain and the port. A text matches in one way
only, since what follows a part cannot belong to it. -/
def captures (s : List Char) : Option (List Char × Option (List Char) × Option (List Char)) :=
  let s := if "epicbox://".toList.isPrefixOf s then s.drop 10 else s
  if (s.take 52).length < 52 ∨ ¬(s.take 52).all Base58.ALPHABET.contains then none
  else match s.drop 52 with
    | [] => some (s.take 52, none, none)
    | '@' :: rest =>
      if rest.takeWhile isDomainChar = [] then none
      else match rest.dropWhile isDomainChar with
        | [] => some (s.take 52, some (rest.takeWhile isDomainChar), none)
        | ':' :: port =>
          if port.all Char.isDigit then
            some (s.take 52, some (rest.takeWhile isDomainChar), some port)
          else none
        | _ => none
    | _ => none

section
variable (K : CryptoLib)

def versionBytes : List Nat :=
  if K.isFloonet then EPICBOX_ADDRESS_VERSION_TESTNET else EPICBOX_ADDRESS_VERSION_MAINNET

def keyFromBase58Check (text : List Char) (versionExpect : List Nat) : Checked EpicWallet.PublicKey := do
  let (versionActual, keyBytes) ← Base58.fromBase58Check K text versionExpect.length
  if versionActual ≠ versionExpect then Checked.fail .invalidBase58Version
  else Checked.orElse .invalidBase58Key (K.publicKeyFromSlice keyBytes)

def new (publicKey : EpicWallet.PublicKey) (domain : Option String) (port : Option Nat) :
    Checked EpicboxAddress := do
  let text ← Checked.unwrap
    (Base58.toBase58Check K (K.serializePublicKey publicKey) (versionBytes K))
  pure { publicKey := String.ofList text, domain := domain.getD DEFAULT_EPICBOX_DOMAIN, port }

/-- `public_key`. -/
def key (a : EpicboxAddress) : Checked EpicWallet.PublicKey :=
  keyFromBase58Check K a.publicKey.toList (versionBytes K)

def fromStr (s : List Char) : Checked EpicboxAddress :=
  match captures s with
  | none => Checked.fail (.epicboxAddressParsing (String.ofList s))
  | some (publicKey, domain, port) => do
    let port ← (match port with
      | some p => do
        let n ← Checked.unwrap (readPort p)
        pure (some n)
      | none => pure none)
    let publicKey ← keyFromBase58Check K publicKey (versionBytes K)
    new K publicKey (domain.map String.ofList) port

/-- `Display`. -/
def stripped (a : EpicboxAddress) : String :=
  a.publicKey ++ "@" ++ a.domain ++ match a.port with
    | some p => if p ≠ DEFAULT_EPICBOX_PORT_443 then ":" ++ toString p else ""
    | none => ""

end

def toJson (a : EpicboxAddress) : Json :=
  .obj [("public_key", .str a.publicKey), ("domain", .str a.domain), ("port", optJson .num a.port)]

def fromJson : Json → Option EpicboxAddress
  | .obj l => do
    let publicKey ← field l "public_key" readString
    let domain ← field l "domain" readString
    let port ← fieldOpt l "port" readU16
    pure { publicKey, domain, port }
  | _ => none

end EpicboxAddress

/-! ## Messages -/

structure EncryptedMessage where
  destination : EpicboxAddress
  encryptedMessage : String
  salt : String
  nonce : String
deriving DecidableEq

/-- `map_err`: a panic stays one. -/
def Checked.mapErr {α ε : Type} (e : ε) (x : Checked α) : Except (Fault ε) α :=
  x.mapError (Prog.mapFault fun _ => e)

/-- `String::from_utf8`. -/
def fromUtf8 (bytes : List Nat) : Option (List Char) :=
  (String.fromUTF8? ⟨(bytes.map UInt8.ofNat).toArray⟩).map (·.toList)

namespace EncryptedMessage

variable (K : CryptoLib)

/-- The salt and the nonce are random. -/
def new (salt nonce : List Nat) (message : List Char) (destination : EpicboxAddress)
    (receiverPublicKey : PublicKey) (secretKey : SecretKey) : Checked EncryptedMessage := do
  let commonSecret ← Checked.orElse .encryption (K.mulAssign receiverPublicKey secretKey)
  let key := K.pbkdf2 salt (((K.serializePublicKey commonSecret).drop 1).take 32)
  let encBytes ← Checked.orElse .encryption (K.sealInPlace key nonce (utf8 message))
  pure { destination, encryptedMessage := String.ofList (toHex encBytes),
         salt := String.ofList (toHex salt), nonce := String.ofList (toHex nonce) }

def key (m : EncryptedMessage) (senderPublicKey : PublicKey) (secretKey : SecretKey) :
    Checked (List Nat) := do
  let salt ← (fromHex m.salt.toList).mapErr CryptoError.decryption
  let commonSecret ← Checked.orElse .decryption (K.mulAssign senderPublicKey secretKey)
  pure (K.pbkdf2 salt (((K.serializePublicKey commonSecret).drop 1).take 32))

def decryptWithKey (m : EncryptedMessage) (key : List Nat) : Checked (List Char) := do
  let encryptedMessage ← (fromHex m.encryptedMessage.toList).mapErr CryptoError.decryption
  let nonce ← (fromHex m.nonce.toList).mapErr CryptoError.decryption
  -- `nonce[0..12]`
  if nonce.length < 12 then Checked.panic
  else do
    let opened ← Checked.orElse .encryption (K.openInPlace key (nonce.take 12) encryptedMessage)
    Checked.orElse .decryption (fromUtf8 (opened.take (opened.length - 16)))

def toJson (m : EncryptedMessage) : Json :=
  .obj [("destination", m.destination.toJson), ("encrypted_message", .str m.encryptedMessage),
    ("salt", .str m.salt), ("nonce", .str m.nonce)]

def fromJson : Json → Option EncryptedMessage
  | .obj l => do
    let destination ← field l "destination" EpicboxAddress.fromJson
    let encryptedMessage ← field l "encrypted_message" readString
    let salt ← field l "salt" readString
    let nonce ← field l "nonce" readString
    pure { destination, encryptedMessage, salt, nonce }
  | _ => none

end EncryptedMessage

/-! ## Proofs of a message -/

inductive TxProofError where
  | parseAddress
  | parsePublicKey
  | parseSignature
  | verifySignature
  | parseEncryptedMessage
  | verifyDestination
  | decryptionKey
  | decryptMessage
  | parseSlate
deriving DecidableEq

structure TxProof where
  address : EpicboxAddress
  message : List Char
  signature : Signature
  key : List Nat
  amount : Nat
  fee : Nat
  inputs : List Commitment
  outputs : List Commitment

namespace TxProof

variable (K : CryptoLib) (C : SlateCodecs)

def orErr {α : Type} (e : TxProofError) : Option α → Except (Fault TxProofError) α
  | some a => .ok a
  | none => .error (.err e)

def verifyExtract (p : TxProof) (expectedDestination : Option EpicboxAddress) :
    Except (Fault TxProofError) (EpicboxAddress × VersionedSlate) := do
  let publicKey ← (p.address.key K).mapErr TxProofError.parsePublicKey
  (verifySignature K p.message p.signature publicKey).mapErr TxProofError.verifySignature
  let encryptedMessage ← orErr .parseEncryptedMessage
    ((Json.read p.message).bind EncryptedMessage.fromJson)
  let destination := encryptedMessage.destination
  if expectedDestination.any fun e => destination.publicKey ≠ e.publicKey then
    .error (.err .verifyDestination)
  else do
    let decryptedMessage ← (encryptedMessage.decryptWithKey K p.key).mapErr TxProofError.decryptMessage
    let slate ← orErr .parseSlate (VersionedSlate.fromText C decryptedMessage)
    pure (destination, slate)

def fromResponse (sender message signature : List Char) (secretKey : SecretKey)
    (expectedDestination : Option EpicboxAddress) :
    Except (Fault TxProofError) (VersionedSlate × TxProof) := do
  let address ← (EpicboxAddress.fromStr K sender).mapErr TxProofError.parseAddress
  let signature ← (Signature.fromHex K signature).mapErr TxProofError.parseSignature
  let publicKey ← (address.key K).mapErr TxProofError.parsePublicKey
  let encryptedMessage ← orErr .parseEncryptedMessage
    ((Json.read message).bind EncryptedMessage.fromJson)
  let key ← (encryptedMessage.key K publicKey secretKey).mapErr TxProofError.decryptionKey
  let proof : TxProof := { address, message, signature, key, amount := 0, fee := 0, inputs := [],
                           outputs := [] }
  let (_, slate) ← proof.verifyExtract K C expectedDestination
  pure (slate, proof)

end TxProof

end EpicWallet
