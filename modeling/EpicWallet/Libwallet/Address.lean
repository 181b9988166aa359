import EpicWallet.Libwallet.Crypto

/-!
# Onion addresses

The onion addresses of `libwallet/src/address.rs`, and `is_tor_address` and `complete_tor_address` of
`impls/src/tor/config.rs`. Base 32, the hash, the curve and the upper and lower case of other letters than
those of ASCII are a record (`OnionLib`).
-/

namespace EpicWallet

open Lib

inductive OnionError where
  | addressDecoding (msg : String)
  | notOnion (msg : String)
deriving DecidableEq

/-- `Display`. -/
def OnionError.display : OnionError → String
  | .addressDecoding msg => "Proof Address decoding: " ++ msg
  | .notOnion msg => "Address is not an Onion v3 Address: " ++ msg

abbrev OnionResult (α : Type) : Type := Except (Fault OnionError) α

def OnionResult.fail {α : Type} (e : OnionError) : OnionResult α := .error (.err e)

/-- `map_err` and `?`. -/
def OnionResult.orElse {α : Type} (e : OnionError) : Option α → OnionResult α
  | some a => .ok a
  | none => OnionResult.fail e

structure OnionLib where
  /-- `BASE32`. -/
  base32Encode : List Nat → List Char
  base32Decode : List Nat → Option (List Nat)
  sha3 : List Nat → List Nat
  dalekFromBytes : List Nat → Option DalekPublicKey
  dalekBytes : DalekPublicKey → List Nat
  upperChar : Char → List Char
  toLowercase : List Char → List Char

/-- `str::replace` with the empty text: what is left without the matches. The number is the characters of a
match that are still to leave out. -/
def removeAll (pat : List Char) : Nat → List Char → List Char
  | _, [] => []
  | 0, c :: s =>
    if pat.isPrefixOf (c :: s) then removeAll pat (pat.length - 1) s else c :: removeAll pat 0 s
  | n + 1, _ :: s => removeAll pat n s

namespace Onion

/-- The schemes and the suffix, in upper case. -/
def HTTP : List Char := "HTTP://".toList

def HTTPS : List Char := "HTTPS://".toList

def ONION : List Char := ".ONION".toList

/-- An upper-case text without its scheme. -/
def stripScheme (input : List Char) : List Char :=
  if HTTP.isPrefixOf input || HTTPS.isPrefixOf input then removeAll HTTPS 0 (removeAll HTTP 0 input)
  else input

def stripSuffix (input : List Char) : List Char :=
  if ONION.isSuffixOf input then removeAll ONION 0 input else input

def strip (input : List Char) : List Char := stripSuffix (stripScheme input)

/-- An upper-case text with a scheme. -/
def addScheme (input : List Char) : List Char :=
  if !HTTP.isPrefixOf input && !HTTPS.isPrefixOf input then HTTP ++ input else input

def addSuffix (input : List Char) : List Char :=
  if !ONION.isSuffixOf input then input ++ ONION else input

section
variable (L : OnionLib)

def toUppercase (s : List Char) : List Char := s.flatMap L.upperChar

def addressBytes (pubKey : DalekPublicKey) : List Nat :=
  let checksum := L.sha3 (utf8 ".onion checksum".toList ++ L.dalekBytes pubKey ++ [3])
  L.dalekBytes pubKey ++ checksum.take 2 ++ [3]

/-- It does not fail. -/
def onionV3FromPubkey (pubKey : DalekPublicKey) : List Char :=
  L.toLowercase (L.base32Encode (addressBytes L pubKey))

def pubkeyFromOnionV3 (onionAddress : List Char) : OnionResult DalekPublicKey := do
  let input := strip (toUppercase L onionAddress)
  if byteLen input ≠ 56 then OnionResult.fail (.addressDecoding "Input address is wrong length")
  else do
    let address ← OnionResult.orElse (.addressDecoding "Input address is not base 32")
      (L.base32Decode (utf8 input))
    -- `split_off` panics past the end, and 32 bytes are what it leaves
    if address.length < 32 then .error .panic
    else do
      let key ← OnionResult.orElse
        (.addressDecoding "Provided onion V3 address is invalid (parsing key)")
        (L.dalekFromBytes (address.take 32))
      if toUppercase L (onionV3FromPubkey L key) ≠ toUppercase L input then
        OnionResult.fail (.addressDecoding "Provided onion V3 address is invalid (no match)")
      else pure key

def isTorAddress (input : List Char) : OnionResult Unit :=
  ((pubkeyFromOnionV3 L input).map fun _ => ()).mapError (Prog.mapFault fun e => .notOnion e.display)

def completeTorAddress (input : List Char) : OnionResult (List Char) := do
  isTorAddress L input
  pure (L.toLowercase (addSuffix (addScheme (toUppercase L input))))

end

end Onion

end EpicWallet
