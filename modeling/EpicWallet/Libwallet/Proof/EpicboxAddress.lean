import EpicWallet.Libwallet.Proof.Base58

/-!
# Epicbox addresses are read as they are printed

`epicboxAddress_exact`: an address is read back with and without its prefix, a key has 52 characters on both
networks, and the only texts that panic are those with an empty port or one that is no `u16`.
-/

namespace EpicWallet

open Lib

/-- Hashes and keys are bytes. -/
structure CryptoLib.ByteValued (K : CryptoLib) : Prop where
  sha256 : ∀ b, ∀ x ∈ K.sha256 b, x < 256
  serializePublicKey : ∀ k, ∀ x ∈ K.serializePublicKey k, x < 256

/-- A key that is read as it is written: compressed, so with 2 or 3 in front. -/
structure CryptoLib.Compressed (K : CryptoLib) (k : PublicKey) : Prop where
  fromSlice : K.publicKeyFromSlice (K.serializePublicKey k) = some k
  parity : ∃ rest, K.serializePublicKey k = 2 :: rest ∨ K.serializePublicKey k = 3 :: rest

namespace EpicboxAddress

variable {K : CryptoLib}

/-! ## Keys as text -/

/-- The version, the key and the checksum. -/
def payload (K : CryptoLib) (k : EpicWallet.PublicKey) (version : List Nat) : List Nat :=
  version ++ K.serializePublicKey k ++ (Base58.doubleSha256 K (version ++ K.serializePublicKey k)).take 4

section
variable {k : EpicWallet.PublicKey} {version : List Nat}

theorem payload_lt (hK : K.ByteValued) (hversion : ∀ x ∈ version, x < 256) :
    ∀ x ∈ payload K k version, x < 256 := by
  intro x hx
  rcases List.mem_append.1 hx with hx | hx
  · exact (List.mem_append.1 hx).elim (hversion x) (hK.serializePublicKey k x)
  · exact hK.sha256 _ x (List.mem_of_mem_take hx)

theorem length_checksum (b : List Nat) : ((Base58.doubleSha256 K b).take 4).length = 4 := by
  unfold Base58.doubleSha256
  rw [List.length_take, K.sha256_length]
  rfl

theorem length_payload : (payload K k version).length = version.length + 37 := by
  unfold payload
  rw [List.length_append, List.length_append, length_checksum, K.serializePublicKey_length]

theorem toBase58Check_eq (hK : K.ByteValued) (hversion : ∀ x ∈ version, x < 256) :
    Base58.toBase58Check K (K.serializePublicKey k) version =
      some (Base58.spell (zeros (payload K k version)) (ofRadix 256 (payload K k version))) :=
  Base58.toBase58_eq (payload_lt hK hversion)

/-- A key behind 1 and at most 136, with 2 or 3 in front, is between the powers 51 and 52 of 58. -/
theorem length_radix_key {x p : Nat} {tail : List Nat} (hx : x ≤ 136) (hp : p ≤ 3)
    (htail : ∀ d ∈ tail, d < 256) (hlen : tail.length = 36) :
    (radix 58 (ofRadix 256 (1 :: x :: p :: tail))).length = 52 := by
  have hrest : ofRadix 256 tail < 256 ^ 36 := hlen ▸ ofRadix_lt (by decide) htail
  have hnumber : ofRadix 256 (1 :: x :: p :: tail) =
      256 ^ 38 + x * 256 ^ 37 + p * 256 ^ 36 + ofRadix 256 tail := by
    rw [ofRadix_cons, ofRadix_cons, ofRadix_cons, List.length_cons, List.length_cons, hlen, Nat.one_mul]
    omega
  have hlow : 58 ^ 51 ≤ 256 ^ 38 := by norm_num
  have hhigh : 256 ^ 38 + 136 * 256 ^ 37 + 4 * 256 ^ 36 ≤ 58 ^ 52 := by norm_num
  have hx' : x * 256 ^ 37 ≤ 136 * 256 ^ 37 := Nat.mul_le_mul_right _ hx
  have hp' : p * 256 ^ 36 ≤ 3 * 256 ^ 36 := Nat.mul_le_mul_right _ hp
  refine Nat.le_antisymm ((length_radix_le (by decide)).2 (by omega)) (Nat.lt_of_not_le fun hle => ?_)
  have hlt := (length_radix_le (b := 58) (by decide)).1 hle
  omega

theorem alphabet_mem {d : Nat} (h : d < 58) : Base58.alphabet d ∈ Base58.ALPHABET := by
  have hlen : d < Base58.ALPHABET.length := h
  unfold Base58.alphabet
  rw [List.getD_eq_getElem?_getD, List.getElem?_eq_getElem hlen]
  exact List.getElem_mem hlen

/-- The text of a key, on both networks. -/
theorem length_keyText (hK : K.ByteValued) (hk : K.Compressed k)
    (hversion : version = EPICBOX_ADDRESS_VERSION_MAINNET ∨ version = EPICBOX_ADDRESS_VERSION_TESTNET) :
    ∃ text, Base58.toBase58Check K (K.serializePublicKey k) version = some text ∧ text.length = 52 ∧
      ∀ c ∈ text, c ∈ Base58.ALPHABET := by
  obtain ⟨x, hx, rfl⟩ : ∃ x ≤ 136, version = [1, x] := by
    rcases hversion with rfl | rfl
    · exact ⟨0, by decide, rfl⟩
    · exact ⟨136, by decide, rfl⟩
  have hlt : ∀ d ∈ [1, x], d < 256 := List.forall_mem_cons.2 ⟨by decide, by simp; omega⟩
  obtain ⟨p, rest, hp, hkey⟩ : ∃ p rest, p ≤ 3 ∧ K.serializePublicKey k = p :: rest := by
    obtain ⟨rest, h | h⟩ := hk.parity
    · exact ⟨2, rest, by decide, h⟩
    · exact ⟨3, rest, by decide, h⟩
  have hpayload : payload K k [1, x] =
      1 :: x :: p :: (rest ++ (Base58.doubleSha256 K ([1, x] ++ K.serializePublicKey k)).take 4) := by
    unfold payload
    rw [hkey]
    rfl
  have htail : (rest ++ (Base58.doubleSha256 K ([1, x] ++ K.serializePublicKey k)).take 4).length = 36 := by
    have hlen := K.serializePublicKey_length k
    rw [hkey, List.length_cons] at hlen
    rw [List.length_append, length_checksum]
    omega
  have hbytes := payload_lt (k := k) hK hlt
  rw [hpayload] at hbytes
  refine ⟨_, toBase58Check_eq hK hlt, ?_, ?_⟩
  · rw [hpayload]
    unfold Base58.spell
    rw [List.length_append, List.length_replicate, List.length_map,
      length_radix_key hx hp (fun d hd => hbytes d
        (List.mem_cons_of_mem _ (List.mem_cons_of_mem _ (List.mem_cons_of_mem _ hd)))) htail]
    rfl
  · intro c hc
    rcases List.mem_append.1 hc with hc | hc
    · rw [List.eq_of_mem_replicate hc]
      decide
    · obtain ⟨d, hd, rfl⟩ := List.mem_map.1 hc
      exact alphabet_mem (radix_lt (by decide) hd)

/-- The text of a key is read as that key. -/
theorem fromBase58Check_payload (hK : K.ByteValued) (hversion : ∀ x ∈ version, x < 256)
    (hlen : version.length ≤ 95) {text : List Char}
    (h : Base58.toBase58Check K (K.serializePublicKey k) version = some text) :
    Base58.fromBase58Check K text version.length = .ok (version, K.serializePublicKey k) := by
  have hpayload : (payload K k version).length = version.length + 37 := length_payload
  have hread : Base58.fromBase58 text = .ok (payload K k version) :=
    Base58.fromBase58_toBase58 (by omega) (payload_lt hK hversion) h
  have htake : (payload K k version).take ((payload K k version).length - 4) =
      version ++ K.serializePublicKey k := by
    refine List.take_left' ?_
    rw [hpayload, List.length_append, K.serializePublicKey_length]
    omega
  have hdrop : (payload K k version).drop ((payload K k version).length - 4) =
      (Base58.doubleSha256 K (version ++ K.serializePublicKey k)).take 4 := by
    refine List.drop_left' ?_
    rw [hpayload, List.length_append, K.serializePublicKey_length]
    omega
  unfold Base58.fromBase58Check
  rw [hread]
  show (if (payload K k version).length < 5 then Checked.fail .invalidBase58Checksum
    else if (Base58.doubleSha256 K ((payload K k version).take ((payload K k version).length - 4))).take 4 ≠
        (payload K k version).drop ((payload K k version).length - 4) then
      Checked.fail .invalidBase58Checksum
    else if ((payload K k version).take ((payload K k version).length - 4)).length < version.length then
      Checked.panic
    else pure (((payload K k version).take ((payload K k version).length - 4)).take version.length,
      ((payload K k version).take ((payload K k version).length - 4)).drop version.length)) = _
  rw [htake, hdrop, if_neg (by omega), if_neg (not_not.2 rfl),
    if_neg (by rw [List.length_append]; omega), List.take_left, List.drop_left]
  rfl

theorem keyFromBase58Check_payload (hK : K.ByteValued) (hk : K.Compressed k)
    (hversion : ∀ x ∈ version, x < 256) (hlen : version.length ≤ 95) {text : List Char}
    (h : Base58.toBase58Check K (K.serializePublicKey k) version = some text) :
    keyFromBase58Check K text version = .ok k := by
  unfold keyFromBase58Check
  rw [fromBase58Check_payload hK hversion hlen h]
  show (if version ≠ version then Checked.fail .invalidBase58Version
    else Checked.orElse .invalidBase58Key (K.publicKeyFromSlice (K.serializePublicKey k))) = _
  rw [if_neg (not_not.2 rfl), hk.fromSlice]
  rfl

end

/-! ## Addresses as text -/

/-- A key, a domain and a port as they are printed. -/
def printed (key domain : List Char) (port : Option Nat) : List Char :=
  key ++ '@' :: (domain ++ port.elim [] fun p => ':' :: Nat.toDigits 10 p)

theorem toList_stripped (a : EpicboxAddress) : a.stripped.toList =
    printed a.publicKey.toList a.domain.toList (a.port.filter (· ≠ DEFAULT_EPICBOX_PORT_443)) := by
  obtain ⟨key, domain, port⟩ := a
  unfold stripped printed
  rcases port with _ | p
  · simp
  · by_cases hp : p = DEFAULT_EPICBOX_PORT_443
    · have hnone : (some p).filter (· ≠ DEFAULT_EPICBOX_PORT_443) = none := by
        rw [Option.filter_some, if_neg (by simpa using hp)]
      rw [hnone]
      simp [hp]
    · have hsome : (some p).filter (· ≠ DEFAULT_EPICBOX_PORT_443) = some p := by
        rw [Option.filter_some, if_pos (by simpa using hp)]
      rw [hsome]
      simp [hp]

section
variable {key domain : List Char} {port : Option Nat}

theorem toDigits_isDigit (p : Nat) : (Nat.toDigits 10 p).all Char.isDigit = true :=
  List.all_eq_true.2 fun _ hc => Nat.isDigit_of_mem_toDigits (b := 10) (by decide) (by decide) hc

/-- The parts of what was printed are found again, behind a prefix too. -/
theorem captures_printed (hlen : key.length = 52) (hkey : ∀ c ∈ key, c ∈ Base58.ALPHABET)
    (hne : domain ≠ []) (hdomain : ∀ c ∈ domain, isDomainChar c = true) {s : List Char}
    (hs : s = printed key domain port ∨ s = "epicbox://".toList ++ printed key domain port) :
    captures s = some (key, some domain, port.map (Nat.toDigits 10)) := by
  have hbare : (if "epicbox://".toList.isPrefixOf s then s.drop 10 else s) = printed key domain port := by
    rcases hs with rfl | rfl
    · have hcolon : ':' ∉ Base58.ALPHABET := by decide
      have hpre : ¬"epicbox://".toList.isPrefixOf (printed key domain port) = true := by
        intro hpre
        obtain ⟨t, ht⟩ := List.isPrefixOf_iff_prefix.1 hpre
        have hmem : ':' ∈ (printed key domain port).take 52 := by
          rw [← ht]
          show ':' ∈ ('e' :: 'p' :: 'i' :: 'c' :: 'b' :: 'o' :: 'x' :: ':' :: '/' :: '/' :: t).take 52
          simp
        unfold printed at hmem
        rw [List.take_left' hlen] at hmem
        exact hcolon (hkey _ hmem)
      rw [if_neg hpre]
    · have hpre : "epicbox://".toList.isPrefixOf ("epicbox://".toList ++ printed key domain port) = true :=
        List.isPrefixOf_iff_prefix.2 (List.prefix_append _ _)
      rw [if_pos hpre]
      rfl
  have htake : (printed key domain port).take 52 = key := List.take_left' hlen
  have hdrop : (printed key domain port).drop 52 =
      '@' :: (domain ++ port.elim [] fun p => ':' :: Nat.toDigits 10 p) := List.drop_left' hlen
  have hall : key.all Base58.ALPHABET.contains = true :=
    List.all_eq_true.2 fun c hc => List.elem_eq_true_of_mem (hkey c hc)
  have hsplit : ∀ rest : List Char, (∀ c ∈ rest.head?, isDomainChar c = false) →
      (domain ++ rest).takeWhile isDomainChar = domain ∧
        (domain ++ rest).dropWhile isDomainChar = rest := by
    intro rest hrest
    rw [List.takeWhile_append_of_pos hdomain, List.dropWhile_append_of_pos hdomain]
    rcases rest with _ | ⟨c, rest⟩
    · simp
    · have hc := hrest c rfl
      rw [List.takeWhile_cons_of_neg (by simp [hc]), List.dropWhile_cons_of_neg (by simp [hc])]
      simp
  unfold captures
  dsimp only
  rw [hbare, htake, hdrop, if_neg (by rw [hlen, hall]; simp)]
  rcases port with _ | p
  · obtain ⟨hwhile, hrest⟩ := hsplit [] (by simp)
    simp only [Option.elim, hwhile, hrest, if_neg hne]
    rfl
  · obtain ⟨hwhile, hrest⟩ := hsplit (':' :: Nat.toDigits 10 p) (by simp; decide)
    simp only [Option.elim, hwhile, hrest, if_neg hne]
    exact if_pos (toDigits_isDigit p)

theorem versionBytes_cases (K : CryptoLib) : versionBytes K = EPICBOX_ADDRESS_VERSION_MAINNET ∨
    versionBytes K = EPICBOX_ADDRESS_VERSION_TESTNET := by
  unfold versionBytes
  split_ifs
  · exact .inr rfl
  · exact .inl rfl

theorem versionBytes_lt (K : CryptoLib) : ∀ x ∈ versionBytes K, x < 256 := by
  rcases versionBytes_cases K with h | h
  · rw [h]
    decide
  · rw [h]
    decide

theorem versionBytes_length (K : CryptoLib) : (versionBytes K).length = 2 := by
  rcases versionBytes_cases K with h | h
  · rw [h]
    rfl
  · rw [h]
    rfl

/-- The port of an address text that is matched can be read. -/
def PortReads (s : List Char) : Prop :=
  ∀ key domain port, captures s = some (key, domain, some port) →
    port ≠ [] ∧ Nat.ofDigitChars 10 port 0 < 2 ^ 16

theorem readPort_isSome {port : List Char} :
    readPort port ≠ none ↔ port ≠ [] ∧ Nat.ofDigitChars 10 port 0 < 2 ^ 16 := by
  unfold readPort
  split_ifs with hempty hlt
  · exact ⟨fun h => absurd rfl h, fun h => absurd hempty h.1⟩
  · exact ⟨fun _ => ⟨hempty, hlt⟩, fun _ => nofun⟩
  · exact ⟨fun h => absurd rfl h, fun h => absurd h.2 hlt⟩

theorem readPort_toDigits {p : Nat} (hp : p < 2 ^ 16) : readPort (Nat.toDigits 10 p) = some p := by
  have hne : Nat.toDigits 10 p ≠ [] := Nat.toDigits_ne_nil
  unfold readPort
  rw [Nat.ofDigitChars_ten_toDigits, if_neg hne, if_pos hp]

theorem new_of_text {k : EpicWallet.PublicKey} {text : List Char}
    (h : Base58.toBase58Check K (K.serializePublicKey k) (versionBytes K) = some text) (d : Option String)
    (port : Option Nat) :
    new K k d port = .ok ⟨String.ofList text, d.getD DEFAULT_EPICBOX_DOMAIN, port⟩ := by
  unfold new
  rw [h]
  rfl

/-- A printed address is read as the address it was, without the port 443. -/
theorem fromStr_stripped (hK : K.ByteValued) {k : EpicWallet.PublicKey} (hk : K.Compressed k) {d : String}
    (hne : d.toList ≠ []) (hdomain : ∀ c ∈ d.toList, isDomainChar c = true) {port : Option Nat}
    (hport : ∀ p ∈ port, p < 2 ^ 16) : ∃ a, new K k (some d) port = .ok a ∧ a.key K = .ok k ∧
      a.domain = d ∧ a.port = port ∧
      ∀ s, s = a.stripped.toList ∨ s = "epicbox://".toList ++ a.stripped.toList →
        fromStr K s = .ok { a with port := port.filter (· ≠ DEFAULT_EPICBOX_PORT_443) } := by
  obtain ⟨text, htext, hlen, halphabet⟩ := length_keyText hK hk (versionBytes_cases K)
  have hread : keyFromBase58Check K text (versionBytes K) = .ok k :=
    keyFromBase58Check_payload hK hk (versionBytes_lt K) (by rw [versionBytes_length]; decide) htext
  refine ⟨_, new_of_text htext (some d) port, ?_, rfl, rfl, fun s hs => ?_⟩
  · unfold EpicboxAddress.key
    dsimp only
    rw [String.toList_ofList, hread]
  · rw [toList_stripped, String.toList_ofList] at hs
    have hcaptures := captures_printed hlen halphabet hne hdomain hs
    unfold fromStr
    rw [hcaptures]
    rcases hfilter : port.filter (· ≠ DEFAULT_EPICBOX_PORT_443) with _ | p
    · show (keyFromBase58Check K text (versionBytes K) >>= fun publicKey =>
        new K publicKey (some (String.ofList d.toList)) none) = _
      rw [hread, String.ofList_toList]
      exact new_of_text htext (some d) none
    · have hp : p < 2 ^ 16 := hport p (Option.eq_some_of_filter_eq_some hfilter)
      show ((Checked.unwrap (readPort (Nat.toDigits 10 p)) >>= fun n => pure (some n)) >>= fun port =>
        keyFromBase58Check K text (versionBytes K) >>= fun publicKey =>
          new K publicKey (some (String.ofList d.toList)) port) = _
      rw [readPort_toDigits hp, String.ofList_toList]
      show (keyFromBase58Check K text (versionBytes K) >>= fun publicKey =>
        new K publicKey (some d) (some p)) = _
      rw [hread]
      exact new_of_text htext (some d) (some p)

/-! ## Panics -/

/-- Bytes have no more characters than twice their number, and no fewer than it. -/
theorem length_of_toBase58 {b : List Nat} (hb : ∀ x ∈ b, x < 256) {text : List Char}
    (h : Base58.toBase58 b = some text) : b.length ≤ text.length ∧ text.length ≤ 2 * b.length := by
  rw [Base58.toBase58_eq hb] at h
  obtain rfl := Option.some.inj h
  have hcount := congrArg List.length (eq_zeros_radix (by decide) hb)
  rw [List.length_append, List.length_replicate] at hcount
  generalize ofRadix 256 b = n at hcount ⊢
  have hlen : (Base58.spell (zeros b) n).length = zeros b + (radix 58 n).length := by
    unfold Base58.spell
    rw [List.length_append, List.length_replicate, List.length_map]
  have hup : (radix 256 n).length ≤ (radix 58 n).length := by
    have hlt := (length_radix_le (b := 58) (n := n) (by decide)).1 (Nat.le_refl _)
    exact (length_radix_le (by decide)).2 (Nat.lt_of_lt_of_le hlt (Nat.pow_le_pow_left (by decide) _))
  have hdown : (radix 58 n).length ≤ 2 * (radix 256 n).length := by
    have hlt := (length_radix_le (b := 256) (n := n) (by decide)).1 (Nat.le_refl _)
    refine (length_radix_le (by decide)).2 (Nat.lt_of_lt_of_le hlt ?_)
    rw [Nat.pow_mul]
    exact Nat.pow_le_pow_left (by decide) _
  rw [hlen]
  omega

/-- The text of a key in an address is too long to hold less than a version. -/
theorem keyFromBase58Check_ne_panic {text : List Char} (hlen : text.length = 52) :
    keyFromBase58Check K text (versionBytes K) ≠ Checked.panic := by
  have hcheck : Base58.fromBase58Check K text (versionBytes K).length ≠ Checked.panic := by
    rw [Base58.fromBase58Check_ne_panic_iff]
    intro b hb hspell
    have hbounds := length_of_toBase58 hb hspell
    refine ⟨.inl (by omega), fun hshort => ?_⟩
    have hversion := hshort.2.2.2
    rw [versionBytes_length] at hversion
    omega
  unfold keyFromBase58Check
  rcases hrun : Base58.fromBase58Check K text (versionBytes K).length with (e | _) | ⟨versionActual, keyBytes⟩
  · exact nofun
  · exact absurd hrun hcheck
  · show (if versionActual ≠ versionBytes K then Checked.fail .invalidBase58Version
      else Checked.orElse .invalidBase58Key (K.publicKeyFromSlice keyBytes)) ≠ _
    split_ifs
    · exact nofun
    · cases K.publicKeyFromSlice keyBytes <;> exact nofun

theorem captures_length {s key : List Char} {d p : Option (List Char)} (h : captures s = some (key, d, p)) :
    key.length = 52 := by
  unfold captures at h
  dsimp only at h
  generalize (if "epicbox://".toList.isPrefixOf s then s.drop 10 else s) = bare at h
  split at h
  · cases h
  · rename_i hshape
    have hlen := Nat.le_antisymm (List.length_take_le 52 _) (Nat.le_of_not_lt (not_or.1 hshape).1)
    split at h
    · cases h
      exact hlen
    · split_ifs at h
      split at h
      · cases h
        exact hlen
      · split_ifs at h
        cases h
        exact hlen
      · cases h
    · cases h

theorem fromStr_ne_panic_iff (hK : K.ByteValued) (s : List Char) :
    fromStr K s ≠ Checked.panic ↔ PortReads s := by
  have hrest {key : List Char} (hlen : key.length = 52) (d : Option String) (port : Option Nat) :
      (keyFromBase58Check K key (versionBytes K) >>= fun publicKey => new K publicKey d port) ≠
        Checked.panic := by
    have hkey := keyFromBase58Check_ne_panic (K := K) hlen
    rcases hrun : keyFromBase58Check K key (versionBytes K) with (e | _) | k
    · exact nofun
    · exact absurd hrun hkey
    · show new K k d port ≠ _
      rw [new_of_text (toBase58Check_eq hK (versionBytes_lt K))]
      exact nofun
  unfold fromStr PortReads
  rcases hcaptures : captures s with _ | ⟨key, d, port⟩
  · exact ⟨fun _ => nofun, fun _ => nofun⟩
  have hlen := captures_length hcaptures
  rcases port with _ | port
  · exact ⟨fun _ => nofun, fun _ => hrest hlen _ none⟩
  · show ((Checked.unwrap (readPort port) >>= fun n => pure (some n)) >>= fun port =>
      keyFromBase58Check K key (versionBytes K) >>= fun publicKey =>
        new K publicKey (d.map String.ofList) port) ≠ _ ↔ _
    have hiff : (∀ key' d' port', some (key, d, some port) = some (key', d', some port') →
        port' ≠ [] ∧ Nat.ofDigitChars 10 port' 0 < 2 ^ 16) ↔ readPort port ≠ none := by
      rw [readPort_isSome]
      exact ⟨fun h => h key d port rfl, fun h key' d' port' heq => by cases heq; exact h⟩
    rw [hiff]
    rcases readPort port with _ | n
    · exact ⟨fun h => absurd rfl h, fun h => absurd rfl h⟩
    · exact ⟨fun _ => nofun, fun _ => hrest hlen _ (some n)⟩

end

/-- An address that is printed is read back, with and without its prefix; its key has 52 characters on both
networks; and a text panics exactly if its port is empty or no `u16`. -/
theorem epicboxAddress_exact (K : CryptoLib) (hK : K.ByteValued) :
    (∀ k d port, K.Compressed k → d.toList ≠ [] → (∀ c ∈ d.toList, isDomainChar c = true) →
      (∀ p ∈ port, p < 2 ^ 16) →
      ∃ a, new K k (some d) port = .ok a ∧ a.key K = .ok k ∧ a.domain = d ∧
        ∀ s, s = a.stripped.toList ∨ s = "epicbox://".toList ++ a.stripped.toList →
          ∃ a', fromStr K s = .ok a' ∧ a'.publicKey = a.publicKey ∧ a'.domain = d ∧
            a'.port.getD DEFAULT_EPICBOX_PORT_443 = port.getD DEFAULT_EPICBOX_PORT_443) ∧
    (∀ k version, K.Compressed k →
      version = EPICBOX_ADDRESS_VERSION_MAINNET ∨ version = EPICBOX_ADDRESS_VERSION_TESTNET →
      ∃ text, Base58.toBase58Check K (K.serializePublicKey k) version = some text ∧ text.length = 52) ∧
    ∀ s, fromStr K s ≠ Checked.panic ↔ PortReads s := by
  refine ⟨fun k d port hk hne hdomain hport => ?_, fun k version hk hversion => ?_,
    fromStr_ne_panic_iff hK⟩
  · obtain ⟨a, hnew, hkey, hd, hp, hread⟩ := fromStr_stripped hK hk hne hdomain hport
    refine ⟨a, hnew, hkey, hd, fun s hs => ⟨_, hread s hs, rfl, hd, ?_⟩⟩
    rcases port with _ | p
    · rfl
    · by_cases hdefault : p = DEFAULT_EPICBOX_PORT_443
      · rw [Option.filter_some, if_neg (by simpa using hdefault), hdefault]
        rfl
      · rw [Option.filter_some, if_pos (by simpa using hdefault)]
  · obtain ⟨text, htext, hlen, -⟩ := length_keyText hK hk hversion
    exact ⟨text, htext, hlen⟩

/-- Keys of one byte behind a parity. -/
def parityKeys : CryptoLib :=
  { CryptoLib.small with
    publicKeyFromSlice := fun b => if b.length = 33 then some ⟨b.getLastD 0⟩ else none
    serializePublicKey := fun k => 2 :: List.replicate 31 0 ++ [k.raw % 256]
    serializePublicKey_length := fun _ => by simp }

theorem parityKeys_byteValued : parityKeys.ByteValued where
  sha256 b x hx := by
    rw [List.eq_of_mem_replicate hx]
    exact Nat.mod_lt _ (by decide)
  serializePublicKey k x hx := by
    rcases List.mem_append.1 hx with hx | hx
    · rcases List.mem_cons.1 hx with rfl | hx
      · decide
      · rw [List.eq_of_mem_replicate hx]
        decide
    · rw [List.mem_singleton.1 hx]
      exact Nat.mod_lt _ (by decide)

theorem epicboxAddress_exact_parityKeys :
    parityKeys.ByteValued ∧ parityKeys.Compressed ⟨7⟩ ∧
      ∃ a, new parityKeys ⟨7⟩ (some "a.b") (some 80) = .ok a ∧ a.key parityKeys = .ok ⟨7⟩ ∧
        a.domain = "a.b" ∧ ∀ s, s = a.stripped.toList ∨ s = "epicbox://".toList ++ a.stripped.toList →
          ∃ a', fromStr parityKeys s = .ok a' ∧ a'.publicKey = a.publicKey ∧ a'.domain = "a.b" ∧
            a'.port.getD DEFAULT_EPICBOX_PORT_443 = 80 := by
  have hkey : parityKeys.Compressed ⟨7⟩ := ⟨by decide, _, .inl rfl⟩
  exact ⟨parityKeys_byteValued, hkey,
    (epicboxAddress_exact parityKeys parityKeys_byteValued).1 ⟨7⟩ "a.b" (some 80) hkey (by decide)
      (List.all_eq_true.1 (by decide)) (by decide)⟩

/-- An empty port and one that is no `u16`. -/
theorem fromStr_port_panics :
    fromStr parityKeys (List.replicate 52 '2' ++ "@a:".toList) = Checked.panic ∧
      fromStr parityKeys (List.replicate 52 '2' ++ "@a:65536".toList) = Checked.panic := by
  decide

end EpicboxAddress

end EpicWallet
