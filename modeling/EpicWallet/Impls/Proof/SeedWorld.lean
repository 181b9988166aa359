import EpicWallet.Impls.Seed

/-!
# What the seed operations rely on

`SeedWorld.Obeys`: the laws of the libraries, the cipher being ideal (a text opens under the key that
sealed it and no other). `plainWorld_obeys`: libraries that keep the laws exist, with any faults of the
file system.
-/

namespace EpicWallet

open Lib

/-- What the libraries promise. -/
structure SeedWorld.Obeys (W : SeedWorld) : Prop where
  hex : ∀ b, W.fromHex (W.toHex b) = some b
  json : ∀ e, W.fromStr (W.toStringPretty e) = some e
  -- an object's text is not empty, and no proper beginning of it is one
  text : ∀ e, (W.toStringPretty e).length ≠ 0
  truncated : ∀ e k, k < (W.toStringPretty e).length →
    W.fromStr (String.ofList ((W.toStringPretty e).toList.take k)) = none
  nonce : ∀ n, (W.nonce n).length = 12
  random : ∀ n k, (W.randomBytes n k).length = k
  opens : ∀ key n m c, W.sealInPlace key n m = some c →
    ∃ tag, tag.length = tagLen ∧ W.openInPlace key n c = some (m ++ tag)
  authentic : ∀ key key' n m c m', W.sealInPlace key n m = some c →
    W.openInPlace key' n c = some m' → key' = key
  entropy : ∀ b p, W.fromEntropy b = some p → W.toEntropy p = some b

namespace PlainWorld

/-! ## Hexadecimal -/

def hexDigit (n : Nat) : Char := if n < 10 then Char.ofNat (48 + n) else Char.ofNat (87 + n)

def hexValue (c : Char) : Option Nat :=
  if 48 ≤ c.toNat ∧ c.toNat < 58 then some (c.toNat - 48)
  else if 97 ≤ c.toNat ∧ c.toNat < 103 then some (c.toNat - 87)
  else none

def hexDigits : List UInt8 → List Char
  | [] => []
  | b :: bs => hexDigit (b.toNat / 16) :: hexDigit (b.toNat % 16) :: hexDigits bs

def hexBytes : List Char → Option (List UInt8)
  | [] => some []
  | [_] => none
  | c :: c' :: cs => do
    let hi ← hexValue c
    let lo ← hexValue c'
    let bs ← hexBytes cs
    pure (UInt8.ofNat (16 * hi + lo) :: bs)

theorem hexValue_hexDigit : ∀ n < 16, hexValue (hexDigit n) = some n := by decide

theorem hexBytes_hexDigits : ∀ bs : List UInt8, hexBytes (hexDigits bs) = some bs
  | [] => rfl
  | b :: bs => by
    have hb : b.toNat < 256 := b.toNat_lt
    have hsum : 16 * (b.toNat / 16) + b.toNat % 16 = b.toNat := Nat.div_add_mod b.toNat 16
    unfold hexDigits hexBytes
    rw [hexValue_hexDigit _ (by omega), hexValue_hexDigit _ (by omega), hexBytes_hexDigits bs]
    show some (UInt8.ofNat (16 * (b.toNat / 16) + b.toNat % 16) :: bs) = _
    rw [hsum, UInt8.ofNat_toNat]

/-! ## The text of an encrypted seed -/

/-- A string, each character after a quote, and its end. -/
def quote : List Char → List Char
  | [] => [',']
  | c :: cs => '"' :: c :: quote cs

def unquote : List Char → Option (List Char × List Char)
  | [] => none
  | [c] => if c = ',' then some ([], []) else none
  | c :: c' :: cs =>
    if c = ',' then some ([], c' :: cs) else (unquote cs).map fun x => (c' :: x.1, x.2)

def print (e : EncryptedWalletSeed) : List Char :=
  quote e.encryptedSeed.toList ++ (quote e.salt.toList ++ quote e.nonce.toList)

def parse (l : List Char) : Option (EncryptedWalletSeed × List Char) :=
  (unquote l).bind fun x => (unquote x.2).bind fun y => (unquote y.2).map fun z =>
    (⟨String.ofList x.1, String.ofList y.1, String.ofList z.1⟩, z.2)

theorem unquote_quote (r : List Char) : ∀ s, unquote (quote s ++ r) = some (s, r)
  | [] => by cases r <;> rfl
  | c :: cs => by
    show (unquote (quote cs ++ r)).map _ = _
    rw [unquote_quote r cs]
    rfl

theorem parse_print (e : EncryptedWalletSeed) : parse (print e) = some (e, []) := by
  have hlast := unquote_quote [] e.nonce.toList
  rw [List.append_nil] at hlast
  unfold parse print
  rw [unquote_quote, Option.bind_some, unquote_quote, Option.bind_some, hlast]
  simp

/-- What follows a string is left as it is. -/
theorem unquote_append (t : List Char) {l s r : List Char} (h : unquote l = some (s, r)) :
    unquote (l ++ t) = some (s, r ++ t) := by
  induction l using unquote.induct generalizing s r with
  | case1 => cases h
  | case2 =>
    cases h
    cases t <;> rfl
  | case3 c hc =>
    rw [unquote, if_neg hc] at h
    cases h
  | case4 c' cs =>
    cases h
    rfl
  | case5 c c' cs hc ih =>
    rw [unquote, if_neg hc] at h
    obtain ⟨⟨s', r'⟩, hs, heq⟩ := Option.map_eq_some_iff.1 h
    cases heq
    show unquote (c :: c' :: (cs ++ t)) = _
    rw [unquote, if_neg hc, ih hs]
    rfl

theorem parse_append (t : List Char) {l r : List Char} {e : EncryptedWalletSeed}
    (h : parse l = some (e, r)) : parse (l ++ t) = some (e, r ++ t) := by
  obtain ⟨⟨s₁, l₁⟩, h₁, h⟩ := Option.bind_eq_some_iff.1 h
  obtain ⟨⟨s₂, l₂⟩, h₂, h⟩ := Option.bind_eq_some_iff.1 h
  obtain ⟨⟨s₃, l₃⟩, h₃, h⟩ := Option.map_eq_some_iff.1 h
  cases h
  unfold parse
  rw [unquote_append t h₁, Option.bind_some, unquote_append t h₂, Option.bind_some,
    unquote_append t h₃]
  rfl

def toStringPretty (e : EncryptedWalletSeed) : String := String.ofList (print e)

def fromStr (text : String) : Option EncryptedWalletSeed :=
  (parse text.toList).bind fun x => if x.2 = [] then some x.1 else none

theorem fromStr_toStringPretty (e : EncryptedWalletSeed) : fromStr (toStringPretty e) = some e := by
  unfold fromStr toStringPretty
  rw [String.toList_ofList, parse_print]
  rfl

theorem fromStr_take {e : EncryptedWalletSeed} {k : Nat} (h : k < (print e).length) :
    fromStr (String.ofList ((print e).take k)) = none := by
  unfold fromStr
  rw [String.toList_ofList]
  rcases hp : parse ((print e).take k) with _ | ⟨e', r⟩
  · rfl
  · have happ := parse_append ((print e).drop k) hp
    rw [List.take_append_drop, parse_print] at happ
    have hdrop : (print e).drop k ≠ [] := fun hnil => by
      have := List.drop_eq_nil_iff.1 hnil
      omega
    obtain ⟨-, hnil⟩ := Prod.mk.inj (Option.some.inj happ)
    exact absurd (List.append_eq_nil_iff.1 hnil.symm).2 hdrop

/-! ## The cipher -/

/-- The key, each byte after a mark, before the text and its tag. -/
def lock : List UInt8 → List UInt8 → List UInt8
  | [], m => 0 :: (m ++ List.replicate tagLen 0)
  | k :: ks, m => 1 :: k :: lock ks m

def unlock : List UInt8 → List UInt8 → Option (List UInt8)
  | [], b :: m => if b = 0 then some m else none
  | k :: ks, b :: k' :: m => if b = 1 ∧ k' = k then unlock ks m else none
  | _, _ => none

theorem unlock_lock (m : List UInt8) :
    ∀ key, unlock key (lock key m) = some (m ++ List.replicate tagLen 0)
  | [] => rfl
  | k :: ks => by
    unfold lock unlock
    rw [if_pos ⟨rfl, rfl⟩, unlock_lock m ks]

theorem key_of_unlock {m m' : List UInt8} :
    ∀ {key key' : List UInt8}, unlock key' (lock key m) = some m' → key' = key
  | [], [], _ => rfl
  | [], k :: ks, h => by
    rcases hm : m ++ List.replicate tagLen 0 with _ | ⟨b, bs⟩
    · have hlen := congrArg List.length hm
      simp [tagLen] at hlen
    · rw [lock, hm, unlock, if_neg (by simp)] at h
      cases h
  | _ :: _, [], h => by
    rw [lock, unlock, if_neg (by decide)] at h
    cases h
  | k :: ks, k' :: ks', h => by
    rw [lock, unlock] at h
    split at h
    · rename_i hk
      rw [key_of_unlock h, hk.2]
    · cases h

/-! ## The mnemonic -/

/-- The mnemonic of sixteen zero bytes. -/
def phrase : String :=
  "abandon abandon abandon abandon abandon abandon abandon abandon abandon abandon abandon about"

def toEntropy (p : String) : Option (List UInt8) :=
  if p = phrase then some (List.replicate 16 0) else none

def fromEntropy (b : List UInt8) : Option String :=
  if b = List.replicate 16 0 then some phrase else none

theorem toEntropy_of_fromEntropy {b : List UInt8} {p : String} (h : fromEntropy b = some p) :
    toEntropy p = some b := by
  unfold fromEntropy at h
  split at h
  · rename_i hb
    cases h
    rw [hb]
    rfl
  · cases h

end PlainWorld

open PlainWorld in
/-- Libraries that keep the laws, though no secret. -/
def plainWorld (faults : Faults SeedError) : SeedWorld where
  faults := faults
  toEntropy := toEntropy
  fromEntropy := fromEntropy
  derive _ password := password.toUTF8.toList
  sealInPlace key _ m := some (lock key m)
  openInPlace key _ c := unlock key c
  toHex b := String.ofList (hexDigits b)
  fromHex s := hexBytes s.toList
  toStringPretty := toStringPretty
  fromStr := fromStr
  randomBytes n k := List.replicate k (UInt8.ofNat n)
  salt n := List.replicate 8 (UInt8.ofNat n)
  nonce n := List.replicate 12 (UInt8.ofNat n)
  display _ := "error"
  newBackend := .ok ()
  saveInitStatus := .ok ()

open PlainWorld in
theorem plainWorld_obeys (faults : Faults SeedError) : (plainWorld faults).Obeys where
  hex b := by
    show hexBytes (String.ofList (hexDigits b)).toList = _
    rw [String.toList_ofList, hexBytes_hexDigits]
  json e := by
    dsimp only [plainWorld]
    exact fromStr_toStringPretty e
  text e := by
    show (String.ofList (print e)).length ≠ 0
    rw [String.length_ofList]
    unfold print
    cases e.nonce.toList <;> simp [quote]
  truncated e k hk := by
    change k < (String.ofList (print e)).length at hk
    rw [String.length_ofList] at hk
    show fromStr (String.ofList ((String.ofList (print e)).toList.take k)) = none
    rw [String.toList_ofList, fromStr_take hk]
  nonce n := List.length_replicate
  random n k := List.length_replicate
  opens key n m c h := by
    obtain rfl := Option.some.inj h
    exact ⟨_, List.length_replicate, unlock_lock m key⟩
  authentic key key' n m c m' h hopen := by
    obtain rfl := Option.some.inj h
    exact key_of_unlock hopen
  entropy b p := toEntropy_of_fromEntropy

end EpicWallet
