import EpicWallet.Libwallet.Address
import EpicWallet.Libwallet.Proof.Base58
import EpicWallet.Libwallet.Proof.Hex

/-!
# Which texts are onion addresses

`pubkeyFromOnionV3_exact`: an address is read as the key it was made of, with a scheme and a suffix or
without. The source removes all matches of a scheme and of the suffix, so it accepts a text that has more
than one of them too, and one that becomes ASCII in upper case.
-/

namespace EpicWallet

open Lib

/-! ## Upper and lower case -/

/-- The cases of an ASCII character, looked up. -/
theorem ascii_case {c : Char} (hc : IsAscii c) :
    (c.toLower.toUpper = c.toUpper ∧ c.toUpper.toLower = c.toLower ∧ c.toLower.toLower = c.toLower) ∧
      (c.toUpper = ':' ↔ c = ':') ∧ (c.toUpper = '.' ↔ c = '.') ∧ IsAscii c.toLower ∧ c.utf8Size = 1 := by
  obtain ⟨n, hn, rfl⟩ : ∃ n, n < 128 ∧ Char.ofNat n = c := ⟨c.toNat, hc, Char.ofNat_toNat c⟩
  clear hc
  revert n
  decide

theorem toUpper_toLower {c : Char} (hc : IsAscii c) : c.toLower.toUpper = c.toUpper :=
  (ascii_case hc).1.1

theorem toLower_toUpper {c : Char} (hc : IsAscii c) : c.toUpper.toLower = c.toLower :=
  (ascii_case hc).1.2.1

theorem toLower_toLower {c : Char} (hc : IsAscii c) : c.toLower.toLower = c.toLower :=
  (ascii_case hc).1.2.2

theorem isAscii_toLower {c : Char} (hc : IsAscii c) : IsAscii c.toLower := (ascii_case hc).2.2.2.1

theorem isAscii_map_toLower {s : List Char} (hs : ∀ c ∈ s, IsAscii c) :
    ∀ c ∈ s.map Char.toLower, IsAscii c := by
  intro c hc
  obtain ⟨d, hd, rfl⟩ := List.mem_map.1 hc
  exact isAscii_toLower (hs d hd)

theorem isAscii_of_toLower {c : Char} (hc : IsAscii c.toLower) : IsAscii c := by
  unfold Char.toLower at hc
  split_ifs at hc with h
  · have hle : c.val.toNat ≤ 90 := UInt32.le_iff_toNat_le.1 h.2
    exact Nat.lt_of_le_of_lt hle (by decide)
  · exact hc

theorem map_toUpper_toLower {s : List Char} (hs : ∀ c ∈ s, IsAscii c) :
    (s.map Char.toLower).map Char.toUpper = s.map Char.toUpper := by
  rw [List.map_map]
  exact List.map_congr_left fun c hc => toUpper_toLower (hs c hc)

theorem map_toLower_toUpper {s : List Char} (hs : ∀ c ∈ s, IsAscii c) :
    (s.map Char.toUpper).map Char.toLower = s.map Char.toLower := by
  rw [List.map_map]
  exact List.map_congr_left fun c hc => toLower_toUpper (hs c hc)

theorem count_map_toUpper {d : Char} (hd : d = ':' ∨ d = '.') {s : List Char}
    (hs : ∀ c ∈ s, IsAscii c) : (s.map Char.toUpper).count d = s.count d := by
  have hiff : ∀ c, IsAscii c → (c.toUpper = d ↔ c = d) := by
    intro c hc
    rcases hd with rfl | rfl
    · exact (ascii_case hc).2.1
    · exact (ascii_case hc).2.2.1
  induction s with
  | nil => rfl
  | cons c s ih =>
    rw [List.map_cons, List.count_cons, List.count_cons, ih fun e he => hs e (List.mem_cons_of_mem c he)]
    simp only [beq_iff_eq, hiff c (hs c List.mem_cons_self)]

/-- A text whose bytes are below 128 is ASCII, and its bytes are its characters. -/
theorem utf8_ascii {s : List Char} (h : ∀ b ∈ utf8 s, b < 128) : ∀ c ∈ s, IsAscii c := by
  induction s with
  | nil => exact fun c hc => nomatch hc
  | cons c s ih =>
    by_cases hc : IsAscii c
    · rw [Base58.utf8_cons_ascii hc] at h
      exact List.forall_mem_cons.2 ⟨hc, ih fun b hb => h b (List.mem_cons_of_mem _ hb)⟩
    · obtain ⟨b, bytes, hbytes, hb⟩ := Base58.utf8_cons_other hc s
      have := h b (hbytes ▸ List.mem_cons_self)
      omega

theorem utf8_eq_map {s : List Char} (h : ∀ c ∈ s, IsAscii c) : utf8 s = s.map Char.toNat := by
  induction s with
  | nil => rfl
  | cons c s ih =>
    rw [Base58.utf8_cons_ascii (h c List.mem_cons_self), ih fun d hd => h d (List.mem_cons_of_mem c hd),
      List.map_cons]

/-! ## Removing all matches -/

theorem not_isPrefixOf {c : Char} {pat s : List Char} (hpat : c ∈ pat) (hs : c ∉ s) :
    pat.isPrefixOf s = false := by
  refine Bool.eq_false_iff.2 fun h => hs ?_
  exact (List.isPrefixOf_iff_prefix.1 h).subset hpat

theorem not_isSuffixOf {c : Char} {pat s : List Char} (hpat : c ∈ pat) (hs : c ∉ s) :
    pat.isSuffixOf s = false := by
  refine Bool.eq_false_iff.2 fun h => hs ?_
  exact (List.isSuffixOf_iff_suffix.1 h).subset hpat

theorem removeAll_of_not_mem {c : Char} {pat s : List Char} (hpat : c ∈ pat) (hs : c ∉ s) :
    removeAll pat 0 s = s := by
  induction s with
  | nil => rfl
  | cons d s ih =>
    rw [removeAll, not_isPrefixOf hpat hs, ih fun h => hs (List.mem_cons_of_mem d h)]
    rfl

theorem removeAll_skip (pat l s : List Char) : removeAll pat l.length (l ++ s) = removeAll pat 0 s := by
  induction l with
  | nil => rfl
  | cons c l ih => exact ih

theorem removeAll_prefix (c : Char) (pat s : List Char) :
    removeAll (c :: pat) 0 (c :: pat ++ s) = removeAll (c :: pat) 0 s := by
  have hmatch : (c :: pat).isPrefixOf (c :: (pat ++ s)) = true :=
    List.isPrefixOf_iff_prefix.2 (List.prefix_append (c :: pat) s)
  rw [List.cons_append, removeAll, if_pos hmatch]
  exact removeAll_skip (c :: pat) pat s

/-- A match at the end, whose first character is nowhere before it. -/
theorem removeAll_suffix {c : Char} (pat : List Char) {s : List Char} (hs : c ∉ s) :
    removeAll (c :: pat) 0 (s ++ c :: pat) = s := by
  induction s with
  | nil =>
    have hall := removeAll_prefix c pat []
    rw [List.append_nil] at hall
    exact hall
  | cons d s ih =>
    have hne : (c :: pat).isPrefixOf (d :: (s ++ c :: pat)) = false := by
      rw [List.isPrefixOf_cons_cons, Bool.and_eq_false_iff]
      exact .inl (beq_false_of_ne fun h => hs (h ▸ List.mem_cons_self))
    rw [List.cons_append, removeAll, hne, ih fun h => hs (List.mem_cons_of_mem d h)]
    rfl

namespace Onion

/-! ## Schemes and the suffix -/

def schemes : List (List Char) := [[], HTTP, HTTPS]

def suffixes : List (List Char) := [[], ONION]

/-- The parts are in upper case, and what they are in lower case. -/
theorem parts_case :
    (∀ part ∈ schemes ++ suffixes, part.map Char.toUpper = part) ∧
      HTTP.map Char.toLower = "http://".toList ∧ HTTPS.map Char.toLower = "https://".toList ∧
      ONION.map Char.toLower = ".onion".toList := by
  decide

theorem stripScheme_scheme {scheme a : List Char} (hscheme : scheme ∈ schemes) (ha : ':' ∉ a) :
    stripScheme (scheme ++ a) = a := by
  have hhttp : removeAll HTTP 0 a = a := removeAll_of_not_mem (by decide) ha
  have hhttps : removeAll HTTPS 0 a = a := removeAll_of_not_mem (by decide) ha
  simp only [schemes, List.mem_cons, List.not_mem_nil, or_false] at hscheme
  rcases hscheme with rfl | rfl | rfl
  · unfold stripScheme
    rw [List.nil_append, not_isPrefixOf (by decide) ha, not_isPrefixOf (by decide) ha]
    rfl
  · have hstrip : removeAll HTTP 0 (HTTP ++ a) = removeAll HTTP 0 a := removeAll_prefix 'H' _ a
    unfold stripScheme
    rw [List.isPrefixOf_iff_prefix.2 (List.prefix_append HTTP a), Bool.true_or, if_pos rfl, hstrip, hhttp,
      hhttps]
  · have hkeep : removeAll HTTP 0 (HTTPS ++ a) = HTTPS ++ removeAll HTTP 0 a := rfl
    have hstrip : removeAll HTTPS 0 (HTTPS ++ a) = removeAll HTTPS 0 a := removeAll_prefix 'H' _ a
    unfold stripScheme
    rw [List.isPrefixOf_iff_prefix.2 (List.prefix_append HTTPS a), Bool.or_true, if_pos rfl, hkeep, hhttp,
      hstrip, hhttps]

theorem stripSuffix_suffix {suffix a : List Char} (hsuffix : suffix ∈ suffixes) (ha : '.' ∉ a) :
    stripSuffix (a ++ suffix) = a := by
  simp only [suffixes, List.mem_cons, List.not_mem_nil, or_false] at hsuffix
  rcases hsuffix with rfl | rfl
  · unfold stripSuffix
    rw [List.append_nil, not_isSuffixOf (by decide) ha]
    rfl
  · unfold stripSuffix
    rw [List.isSuffixOf_iff_suffix.2 (List.suffix_append a ONION), if_pos rfl]
    exact removeAll_suffix _ ha

theorem not_mem_append_suffix {suffix a : List Char} (hsuffix : suffix ∈ suffixes) (ha : ':' ∉ a) :
    ':' ∉ a ++ suffix := by
  have hnone : ∀ suffix ∈ suffixes, ':' ∉ suffix := by decide
  intro h
  rcases List.mem_append.1 h with h | h
  · exact ha h
  · exact hnone suffix hsuffix h

theorem strip_scheme_suffix {scheme suffix a : List Char} (hscheme : scheme ∈ schemes)
    (hsuffix : suffix ∈ suffixes) (hcolon : ':' ∉ a) (hdot : '.' ∉ a) :
    strip (scheme ++ a ++ suffix) = a := by
  unfold strip
  rw [List.append_assoc, stripScheme_scheme hscheme (not_mem_append_suffix hsuffix hcolon),
    stripSuffix_suffix hsuffix hdot]

/-- A scheme that stands there twice is removed twice. -/
theorem strip_twice {a : List Char} (hcolon : ':' ∉ a) (hdot : '.' ∉ a) :
    strip (HTTP ++ (HTTP ++ a ++ ONION)) = a := by
  have hrest : ':' ∉ a ++ ONION := not_mem_append_suffix (by decide) hcolon
  have hhttp : removeAll HTTP 0 (a ++ ONION) = a ++ ONION := removeAll_of_not_mem (by decide) hrest
  have hhttps : removeAll HTTPS 0 (a ++ ONION) = a ++ ONION := removeAll_of_not_mem (by decide) hrest
  have hstrip (s : List Char) : removeAll HTTP 0 (HTTP ++ s) = removeAll HTTP 0 s :=
    removeAll_prefix 'H' _ s
  unfold strip stripScheme
  rw [List.isPrefixOf_iff_prefix.2 (List.prefix_append HTTP _), Bool.true_or, if_pos rfl, hstrip,
    List.append_assoc, hstrip, hhttp, hhttps, stripSuffix_suffix (by decide) hdot]

/-- With one colon the scheme is all that is removed. -/
theorem exists_scheme {input : List Char} (h : input.count ':' ≤ 1) :
    ∃ scheme ∈ schemes, input = scheme ++ stripScheme input := by
  by_cases hscheme : ∃ scheme ∈ [HTTP, HTTPS], scheme <+: input
  · obtain ⟨scheme, hmem, a, rfl⟩ := hscheme
    have hcount : ∀ scheme ∈ [HTTP, HTTPS], scheme.count ':' = 1 := by decide
    rw [List.count_append, hcount scheme hmem] at h
    have ha : ':' ∉ a := List.count_eq_zero.1 (by omega)
    have hmem' : scheme ∈ schemes := List.mem_cons_of_mem [] hmem
    exact ⟨scheme, hmem', by rw [stripScheme_scheme hmem' ha]⟩
  · have hnone : ∀ scheme ∈ [HTTP, HTTPS], scheme.isPrefixOf input = false := fun scheme hmem =>
      Bool.eq_false_iff.2 fun hpre => hscheme ⟨scheme, hmem, List.isPrefixOf_iff_prefix.1 hpre⟩
    refine ⟨[], by decide, ?_⟩
    unfold stripScheme
    rw [hnone HTTP (by decide), hnone HTTPS (by decide)]
    rfl

/-- With one dot the suffix is all that is removed. -/
theorem exists_suffix {input : List Char} (h : input.count '.' ≤ 1) :
    ∃ suffix ∈ suffixes, input = stripSuffix input ++ suffix := by
  by_cases hsuffix : ONION <:+ input
  · obtain ⟨a, rfl⟩ := hsuffix
    have hcount : ONION.count '.' = 1 := by decide
    rw [List.count_append, hcount] at h
    have ha : '.' ∉ a := List.count_eq_zero.1 (by omega)
    exact ⟨ONION, by decide, by rw [stripSuffix_suffix (by decide) ha]⟩
  · refine ⟨[], by decide, ?_⟩
    unfold stripSuffix
    rw [Bool.eq_false_iff.2 fun hpre => hsuffix (List.isSuffixOf_iff_suffix.1 hpre), List.append_nil]
    rfl

theorem exists_scheme_suffix {input : List Char} (hcolon : input.count ':' ≤ 1)
    (hdot : input.count '.' ≤ 1) :
    ∃ scheme ∈ schemes, ∃ suffix ∈ suffixes, input = scheme ++ strip input ++ suffix := by
  obtain ⟨scheme, hscheme, hinput⟩ := exists_scheme hcolon
  have hdot' : (stripScheme input).count '.' ≤ 1 := by
    rw [hinput, List.count_append] at hdot
    omega
  obtain ⟨suffix, hsuffix, hstrip⟩ := exists_suffix hdot'
  refine ⟨scheme, hscheme, suffix, hsuffix, ?_⟩
  unfold strip
  rw [List.append_assoc, ← hstrip]
  exact hinput

end Onion

/-! ## What the libraries do -/

/-- A letter or digit of base 32. -/
def IsSymbol (c : Char) : Prop := ('A' ≤ c ∧ c ≤ 'Z') ∨ ('2' ≤ c ∧ c ≤ '7')

instance (c : Char) : Decidable (IsSymbol c) := inferInstanceAs (Decidable (_ ∨ _))

/-- Base 32 is inverse to itself on whole groups, keys are 32 bytes and read as they are written, and ASCII
has the upper and lower case of ASCII. -/
structure OnionLib.Lawful (L : OnionLib) : Prop where
  upperChar : ∀ c, IsAscii c → L.upperChar c = [c.toUpper]
  toLowercase : ∀ s, (∀ c ∈ s, IsAscii c) → L.toLowercase s = s.map Char.toLower
  encode_length : ∀ b, b.length % 5 = 0 → (L.base32Encode b).length = 8 * (b.length / 5)
  encode_symbols : ∀ b, b.length % 5 = 0 → ∀ c ∈ L.base32Encode b, IsSymbol c
  decode_encode : ∀ b, b.length % 5 = 0 → (∀ x ∈ b, x < 256) →
    L.base32Decode ((L.base32Encode b).map Char.toNat) = some b
  decode_symbols : ∀ text b, L.base32Decode text = some b →
    ∀ x ∈ text, x < 128 ∧ (IsSymbol (Char.ofNat x) ∨ Char.ofNat x = '=')
  sha3_length : ∀ b, (L.sha3 b).length = 32
  sha3_lt : ∀ b, ∀ x ∈ L.sha3 b, x < 256
  dalekBytes_length : ∀ k, (L.dalekBytes k).length = 32
  dalekBytes_lt : ∀ k, ∀ x ∈ L.dalekBytes k, x < 256
  dalekBytes_fromBytes : ∀ b k, L.dalekFromBytes b = some k → L.dalekBytes k = b

/-- A key that is read from its bytes. -/
def OnionLib.Valid (L : OnionLib) (k : DalekPublicKey) : Prop := L.dalekFromBytes (L.dalekBytes k) = some k

theorem IsSymbol.toNat_le {c : Char} (h : IsSymbol c) : c.val.toNat ≤ 90 := by
  unfold IsSymbol at h
  have h90 : c ≤ 'Z' ∨ c ≤ '7' := h.elim (fun h => .inl h.2) fun h => .inr h.2
  rcases h90 with h | h
  · exact UInt32.le_iff_toNat_le.1 h
  · exact Nat.le_trans (UInt32.le_iff_toNat_le.1 h) (by decide)

theorem IsSymbol.isAscii {c : Char} (h : IsSymbol c) : IsAscii c :=
  Nat.lt_of_le_of_lt h.toNat_le (by decide)

theorem IsSymbol.toUpper {c : Char} (h : IsSymbol c) : c.toUpper = c := by
  unfold Char.toUpper
  split_ifs with hlower
  · -- a lower-case letter is not a symbol
    have h97 : 97 ≤ c.val.toNat := UInt32.le_iff_toNat_le.1 hlower.1
    have := h.toNat_le
    omega
  · rfl

theorem IsSymbol.ne {c d : Char} (h : IsSymbol c) (hd : d = ':' ∨ d = '.') : c ≠ d := by
  rintro rfl
  rcases hd with rfl | rfl
  · exact absurd h (by decide)
  · exact absurd h (by decide)

namespace Onion

variable {L : OnionLib} {k : DalekPublicKey}

theorem toUppercase_ascii (hL : L.Lawful) {s : List Char} (hs : ∀ c ∈ s, IsAscii c) :
    toUppercase L s = s.map Char.toUpper := by
  unfold toUppercase
  induction s with
  | nil => rfl
  | cons c s ih =>
    rw [List.flatMap_cons, hL.upperChar c (hs c List.mem_cons_self),
      ih fun d hd => hs d (List.mem_cons_of_mem c hd)]
    rfl

/-! ## The address of a key -/

/-- The upper-case address. -/
def address (L : OnionLib) (k : DalekPublicKey) : List Char := L.base32Encode (addressBytes L k)

theorem length_addressBytes (hL : L.Lawful) : (addressBytes L k).length = 35 := by
  unfold addressBytes
  rw [List.length_append, List.length_append, hL.dalekBytes_length, List.length_take, hL.sha3_length]
  rfl

theorem addressBytes_lt (hL : L.Lawful) : ∀ x ∈ addressBytes L k, x < 256 := by
  intro x hx
  rcases List.mem_append.1 hx with hx | hx
  · rcases List.mem_append.1 hx with hx | hx
    · exact hL.dalekBytes_lt k x hx
    · exact hL.sha3_lt _ x (List.mem_of_mem_take hx)
  · rw [List.mem_singleton.1 hx]
    decide

theorem take_addressBytes (hL : L.Lawful) : (addressBytes L k).take 32 = L.dalekBytes k := by
  unfold addressBytes
  rw [List.append_assoc]
  exact List.take_left' (hL.dalekBytes_length k)

theorem length_address (hL : L.Lawful) : (address L k).length = 56 := by
  have hlen : (addressBytes L k).length = 35 := length_addressBytes hL
  unfold address
  rw [hL.encode_length _ (by omega), hlen]

theorem address_symbols (hL : L.Lawful) : ∀ c ∈ address L k, IsSymbol c :=
  hL.encode_symbols _ (by rw [length_addressBytes hL])

theorem address_ascii (hL : L.Lawful) : ∀ c ∈ address L k, IsAscii c :=
  fun c hc => (address_symbols hL c hc).isAscii

theorem not_mem_address (hL : L.Lawful) {d : Char} (hd : d = ':' ∨ d = '.') : d ∉ address L k :=
  fun h => (address_symbols hL d h).ne hd rfl

theorem map_toUpper_address (hL : L.Lawful) : (address L k).map Char.toUpper = address L k := by
  rw [List.map_congr_left fun c hc => (address_symbols hL c hc).toUpper, List.map_id']

theorem onionV3FromPubkey_eq (hL : L.Lawful) :
    onionV3FromPubkey L k = (address L k).map Char.toLower :=
  hL.toLowercase _ (address_ascii hL)

theorem map_toLower_onion (hL : L.Lawful) :
    (onionV3FromPubkey L k).map Char.toLower = onionV3FromPubkey L k := by
  rw [onionV3FromPubkey_eq hL, List.map_map]
  exact List.map_congr_left fun c hc => toLower_toLower (address_ascii hL c hc)

theorem toUppercase_onion (hL : L.Lawful) : toUppercase L (onionV3FromPubkey L k) = address L k := by
  rw [onionV3FromPubkey_eq hL, toUppercase_ascii hL (isAscii_map_toLower (address_ascii hL)),
    map_toUpper_toLower (address_ascii hL), map_toUpper_address hL]

/-! ## What is accepted -/

/-- What base 32 can be read from is ASCII and in upper case. -/
theorem toUppercase_decoded (hL : L.Lawful) {input : List Char} {b : List Nat}
    (h : L.base32Decode (utf8 input) = some b) : toUppercase L input = input := by
  have hascii : ∀ c ∈ input, IsAscii c := utf8_ascii fun x hx => (hL.decode_symbols _ b h x hx).1
  rw [toUppercase_ascii hL hascii]
  conv_rhs => rw [← List.map_id' input]
  refine List.map_congr_left fun c hc => ?_
  have hx : c.toNat ∈ utf8 input := by
    rw [utf8_eq_map hascii]
    exact List.mem_map_of_mem hc
  have hsymbol := (hL.decode_symbols _ b h _ hx).2
  rw [Char.ofNat_toNat] at hsymbol
  rcases hsymbol with hsymbol | rfl
  · exact hsymbol.toUpper
  · decide

theorem byteLen_address (hL : L.Lawful) : byteLen (address L k) = 56 := by
  have hsize : ∀ c ∈ address L k, c.utf8Size = 1 := fun c hc =>
    (ascii_case (address_ascii hL c hc)).2.2.2.2
  rw [byteLen_ascii hsize, length_address hL]

theorem pubkeyFromOnionV3_address (hL : L.Lawful) (hk : L.Valid k) {text : List Char}
    (h : strip (toUppercase L text) = address L k) : pubkeyFromOnionV3 L text = .ok k := by
  have hdecode : L.base32Decode (utf8 (address L k)) = some (addressBytes L k) := by
    rw [utf8_eq_map (address_ascii hL)]
    exact hL.decode_encode _ (by rw [length_addressBytes hL]) (addressBytes_lt hL)
  unfold pubkeyFromOnionV3
  rw [h]
  dsimp only
  rw [if_neg (not_not.2 (byteLen_address hL)), hdecode]
  show (if (addressBytes L k).length < 32 then .error .panic
    else OnionResult.orElse _ (L.dalekFromBytes ((addressBytes L k).take 32)) >>= fun key =>
      if toUppercase L (onionV3FromPubkey L key) ≠ toUppercase L (address L k) then OnionResult.fail _
      else pure key) = _
  rw [if_neg (by rw [length_addressBytes hL]; decide), take_addressBytes hL,
    show L.dalekFromBytes (L.dalekBytes k) = some k from hk]
  show (if toUppercase L (onionV3FromPubkey L k) ≠ toUppercase L (address L k) then OnionResult.fail _
    else pure k) = _
  rw [toUppercase_onion hL, toUppercase_decoded hL hdecode, if_neg (not_not.2 rfl)]
  rfl

theorem pubkeyFromOnionV3_ok (hL : L.Lawful) {text : List Char} (h : pubkeyFromOnionV3 L text = .ok k) :
    L.Valid k ∧ strip (toUppercase L text) = address L k := by
  unfold pubkeyFromOnionV3 at h
  dsimp only at h
  split_ifs at h with hlen
  · exact nomatch h
  rcases hdecode : L.base32Decode (utf8 (strip (toUppercase L text))) with _ | b
  · rw [hdecode] at h
    exact nomatch h
  rw [hdecode] at h
  change (if b.length < 32 then .error .panic
    else OnionResult.orElse _ (L.dalekFromBytes (b.take 32)) >>= fun key =>
      if toUppercase L (onionV3FromPubkey L key) ≠ toUppercase L (strip (toUppercase L text)) then
        OnionResult.fail _
      else pure key) = _ at h
  split_ifs at h with hshort
  rcases hkey : L.dalekFromBytes (b.take 32) with _ | key
  · rw [hkey] at h
    exact nomatch h
  rw [hkey] at h
  change (if toUppercase L (onionV3FromPubkey L key) ≠ toUppercase L (strip (toUppercase L text)) then
    OnionResult.fail _ else pure key) = _ at h
  split_ifs at h with hmatch
  · exact nomatch h
  obtain rfl := Except.ok.inj h
  have hvalid : L.Valid key := by
    unfold OnionLib.Valid
    rw [hL.dalekBytes_fromBytes _ key hkey, hkey]
  rw [toUppercase_onion hL, toUppercase_decoded hL hdecode, not_not] at hmatch
  exact ⟨hvalid, hmatch.symm⟩

theorem pubkeyFromOnionV3_ok_iff (hL : L.Lawful) {text : List Char} :
    pubkeyFromOnionV3 L text = .ok k ↔ L.Valid k ∧ strip (toUppercase L text) = address L k :=
  ⟨pubkeyFromOnionV3_ok hL, fun h => pubkeyFromOnionV3_address hL h.1 h.2⟩

/-! ## The texts of an address -/

/-- `[http:// or https://]A[.onion]` with the address of the key, its ASCII letters in any case. -/
def IsOnion (L : OnionLib) (k : DalekPublicKey) (text : List Char) : Prop :=
  ∃ scheme ∈ ["", "http://", "https://"], ∃ suffix ∈ ["", ".onion"],
    text.map Char.toLower = scheme.toList ++ onionV3FromPubkey L k ++ suffix.toList

/-- ASCII with at most one colon and at most one dot. -/
def Plain (text : List Char) : Prop :=
  (∀ c ∈ text, IsAscii c) ∧ text.count ':' ≤ 1 ∧ text.count '.' ≤ 1

/-- The scheme of a text, or `http` if it has none. -/
def schemeOf (text : List Char) : List Char :=
  if HTTPS.isPrefixOf (text.map Char.toUpper) then "https://".toList else "http://".toList

/-- Read as the key whose address it is and no other, and completed to that address once and for all. -/
def Reads (L : OnionLib) (text : List Char) : Prop :=
  (∀ k, pubkeyFromOnionV3 L text = .ok k ↔ L.Valid k ∧ IsOnion L k text) ∧
    ∀ k, pubkeyFromOnionV3 L text = .ok k →
      completeTorAddress L text = .ok (schemeOf text ++ onionV3FromPubkey L k ++ ".onion".toList) ∧
        completeTorAddress L (schemeOf text ++ onionV3FromPubkey L k ++ ".onion".toList) =
          .ok (schemeOf text ++ onionV3FromPubkey L k ++ ".onion".toList)

theorem map_lower_parts {scheme suffix : List Char} (hL : L.Lawful) :
    (scheme ++ address L k ++ suffix).map Char.toLower =
      scheme.map Char.toLower ++ onionV3FromPubkey L k ++ suffix.map Char.toLower := by
  rw [List.map_append, List.map_append, onionV3FromPubkey_eq hL]

theorem parts_ascii {scheme suffix : List Char} (hL : L.Lawful) (hscheme : scheme ∈ schemes)
    (hsuffix : suffix ∈ suffixes) : ∀ c ∈ scheme ++ address L k ++ suffix, IsAscii c := by
  have hschemes : ∀ scheme ∈ schemes, ∀ c ∈ scheme, IsAscii c := by decide
  have hsuffixes : ∀ suffix ∈ suffixes, ∀ c ∈ suffix, IsAscii c := by decide
  intro c hc
  rcases List.mem_append.1 hc with hc | hc
  · exact (List.mem_append.1 hc).elim (hschemes scheme hscheme c) (address_ascii hL c)
  · exact hsuffixes suffix hsuffix c hc

theorem map_toUpper_parts {scheme suffix : List Char} (hL : L.Lawful) (hscheme : scheme ∈ schemes)
    (hsuffix : suffix ∈ suffixes) :
    (scheme ++ address L k ++ suffix).map Char.toUpper = scheme ++ address L k ++ suffix := by
  rw [List.map_append, List.map_append, parts_case.1 scheme (List.mem_append_left _ hscheme),
    parts_case.1 suffix (List.mem_append_right _ hsuffix), map_toUpper_address hL]

/-- The same in upper case. -/
theorem isOnion_iff (hL : L.Lawful) {text : List Char} :
    IsOnion L k text ↔ (∀ c ∈ text, IsAscii c) ∧ ∃ scheme ∈ schemes, ∃ suffix ∈ suffixes,
      text.map Char.toUpper = scheme ++ address L k ++ suffix := by
  obtain ⟨-, hhttp, hhttps, honion⟩ := parts_case
  have hschemes : schemes.map (·.map Char.toLower) = ["", "http://", "https://"].map String.toList := by
    show [[], HTTP.map Char.toLower, HTTPS.map Char.toLower] = _
    rw [hhttp, hhttps]
    rfl
  have hsuffixes : suffixes.map (·.map Char.toLower) = ["", ".onion"].map String.toList := by
    show [[], ONION.map Char.toLower] = _
    rw [honion]
    rfl
  constructor
  · rintro ⟨low, hlow, lowSuffix, hlowSuffix, htext⟩
    obtain ⟨scheme, hscheme, hschemeLow⟩ := List.mem_map.1 (hschemes ▸ List.mem_map_of_mem hlow)
    obtain ⟨suffix, hsuffix, hsuffixLow⟩ := List.mem_map.1 (hsuffixes ▸ List.mem_map_of_mem hlowSuffix)
    rw [← hschemeLow, ← hsuffixLow, ← map_lower_parts hL] at htext
    have hparts : ∀ c ∈ scheme ++ address L k ++ suffix, IsAscii c := parts_ascii hL hscheme hsuffix
    have hascii : ∀ c ∈ text, IsAscii c := by
      intro c hc
      have hmem : c.toLower ∈ (scheme ++ address L k ++ suffix).map Char.toLower :=
        htext ▸ List.mem_map_of_mem hc
      obtain ⟨d, hd, heq⟩ := List.mem_map.1 hmem
      refine isAscii_of_toLower (heq ▸ ?_)
      exact isAscii_toLower (hparts d hd)
    refine ⟨hascii, scheme, hscheme, suffix, hsuffix, ?_⟩
    rw [← map_toUpper_toLower hascii, htext, map_toUpper_toLower hparts,
      map_toUpper_parts hL hscheme hsuffix]
  · rintro ⟨hascii, scheme, hscheme, suffix, hsuffix, htext⟩
    obtain ⟨low, hlow, hlowEq⟩ := List.mem_map.1 (hschemes ▸ List.mem_map_of_mem hscheme)
    obtain ⟨lowSuffix, hlowSuffix, hlowSuffixEq⟩ :=
      List.mem_map.1 (hsuffixes ▸ List.mem_map_of_mem hsuffix)
    refine ⟨low, hlow, lowSuffix, hlowSuffix, ?_⟩
    rw [← map_toLower_toUpper hascii, htext, map_lower_parts hL, hlowEq, hlowSuffixEq]

theorem pubkeyFromOnionV3_of_isOnion (hL : L.Lawful) (hk : L.Valid k) {text : List Char}
    (h : IsOnion L k text) : pubkeyFromOnionV3 L text = .ok k := by
  obtain ⟨hascii, scheme, hscheme, suffix, hsuffix, htext⟩ := (isOnion_iff hL).1 h
  refine pubkeyFromOnionV3_address hL hk ?_
  rw [toUppercase_ascii hL hascii, htext]
  exact strip_scheme_suffix hscheme hsuffix (not_mem_address hL (.inl rfl)) (not_mem_address hL (.inr rfl))

theorem plain_of_isOnion (hL : L.Lawful) {text : List Char} (h : IsOnion L k text) : Plain text := by
  obtain ⟨hascii, scheme, hscheme, suffix, hsuffix, htext⟩ := (isOnion_iff hL).1 h
  have hschemes : ∀ scheme ∈ schemes, scheme.count ':' ≤ 1 ∧ scheme.count '.' = 0 := by decide
  have hsuffixes : ∀ suffix ∈ suffixes, suffix.count ':' = 0 ∧ suffix.count '.' ≤ 1 := by decide
  have hcolon : (address L k).count ':' = 0 := List.count_eq_zero.2 (not_mem_address hL (.inl rfl))
  have hdot : (address L k).count '.' = 0 := List.count_eq_zero.2 (not_mem_address hL (.inr rfl))
  obtain ⟨hs, hs'⟩ := hschemes scheme hscheme
  obtain ⟨ht, ht'⟩ := hsuffixes suffix hsuffix
  refine ⟨hascii, ?_, ?_⟩
  · rw [← count_map_toUpper (.inl rfl) hascii, htext, List.count_append, List.count_append]
    omega
  · rw [← count_map_toUpper (.inr rfl) hascii, htext, List.count_append, List.count_append]
    omega

/-- Of a plain text no more than a scheme and a suffix is removed. -/
theorem isOnion_of_plain (hL : L.Lawful) {text : List Char} (h : Plain text)
    (hstrip : strip (toUppercase L text) = address L k) : IsOnion L k text := by
  obtain ⟨hascii, hcolon, hdot⟩ := h
  rw [toUppercase_ascii hL hascii] at hstrip
  obtain ⟨scheme, hscheme, suffix, hsuffix, hparts⟩ := exists_scheme_suffix
    (by rw [count_map_toUpper (.inl rfl) hascii]; exact hcolon)
    (by rw [count_map_toUpper (.inr rfl) hascii]; exact hdot)
  rw [hstrip] at hparts
  exact (isOnion_iff hL).2 ⟨hascii, scheme, hscheme, suffix, hsuffix, hparts⟩

/-! ## Completing -/

theorem addScheme_scheme {scheme a : List Char} (hscheme : scheme ∈ schemes) (ha : ':' ∉ a) :
    addScheme (scheme ++ a) = (if scheme = HTTPS then HTTPS else HTTP) ++ a := by
  simp only [schemes, List.mem_cons, List.not_mem_nil, or_false] at hscheme
  unfold addScheme
  rcases hscheme with rfl | rfl | rfl
  · rw [List.nil_append, not_isPrefixOf (by decide) ha, not_isPrefixOf (by decide) ha]
    rfl
  · rw [List.isPrefixOf_iff_prefix.2 (List.prefix_append HTTP a)]
    rfl
  · rw [List.isPrefixOf_iff_prefix.2 (List.prefix_append HTTPS a), Bool.not_true, Bool.and_false]
    rfl

theorem addSuffix_suffix {suffix a : List Char} (hsuffix : suffix ∈ suffixes) (ha : '.' ∉ a) :
    addSuffix (a ++ suffix) = a ++ ONION := by
  simp only [suffixes, List.mem_cons, List.not_mem_nil, or_false] at hsuffix
  unfold addSuffix
  rcases hsuffix with rfl | rfl
  · rw [List.append_nil, not_isSuffixOf (by decide) ha]
    rfl
  · rw [List.isSuffixOf_iff_suffix.2 (List.suffix_append a ONION)]
    rfl

theorem schemeOf_eq {scheme a text : List Char} (hscheme : scheme ∈ schemes) (ha : ':' ∉ a)
    (htext : text.map Char.toUpper = scheme ++ a) :
    schemeOf text = (if scheme = HTTPS then HTTPS else HTTP).map Char.toLower := by
  obtain ⟨-, hhttp, hhttps, -⟩ := parts_case
  simp only [schemes, List.mem_cons, List.not_mem_nil, or_false] at hscheme
  unfold schemeOf
  rw [htext]
  rcases hscheme with rfl | rfl | rfl
  · rw [List.nil_append, not_isPrefixOf (by decide) ha, if_neg (by decide), if_neg (by decide), hhttp]
  · have hne : HTTPS.isPrefixOf (HTTP ++ a) = false := rfl
    rw [hne, if_neg (by decide), if_neg (by decide), hhttp]
  · rw [List.isPrefixOf_iff_prefix.2 (List.prefix_append HTTPS a), if_pos rfl, if_pos rfl, hhttps]

theorem completeTorAddress_of_isOnion (hL : L.Lawful) (hk : L.Valid k) {text : List Char}
    (h : IsOnion L k text) :
    completeTorAddress L text = .ok (schemeOf text ++ onionV3FromPubkey L k ++ ".onion".toList) := by
  obtain ⟨hascii, scheme, hscheme, suffix, hsuffix, htext⟩ := (isOnion_iff hL).1 h
  have hcolon : ':' ∉ address L k ++ suffix :=
    not_mem_append_suffix hsuffix (not_mem_address hL (.inl rfl))
  have hscheme' : (if scheme = HTTPS then HTTPS else HTTP) ∈ schemes := by
    split_ifs <;> decide
  have hdot : '.' ∉ (if scheme = HTTPS then HTTPS else HTTP) ++ address L k := by
    have hdots : ∀ scheme ∈ schemes, '.' ∉ scheme := by decide
    exact fun hmem => (List.mem_append.1 hmem).elim (hdots _ hscheme') (not_mem_address hL (.inr rfl))
  rw [List.append_assoc] at htext
  unfold completeTorAddress isTorAddress
  rw [pubkeyFromOnionV3_of_isOnion hL hk h]
  show Except.ok (L.toLowercase (addSuffix (addScheme (toUppercase L text)))) = _
  rw [toUppercase_ascii hL hascii, htext, addScheme_scheme hscheme hcolon, ← List.append_assoc,
    addSuffix_suffix hsuffix hdot, hL.toLowercase _ (parts_ascii hL hscheme' (by decide)),
    map_lower_parts hL, schemeOf_eq hscheme hcolon htext, parts_case.2.2.2]

/-- The completed address is one, with the same scheme. -/
theorem isOnion_complete (hL : L.Lawful) (text : List Char) :
    IsOnion L k (schemeOf text ++ onionV3FromPubkey L k ++ ".onion".toList) ∧
      schemeOf (schemeOf text ++ onionV3FromPubkey L k ++ ".onion".toList) = schemeOf text := by
  have hlow : schemeOf text = HTTPS.map Char.toLower ∨ schemeOf text = HTTP.map Char.toLower := by
    unfold schemeOf
    split_ifs
    · exact .inl parts_case.2.2.1.symm
    · exact .inr parts_case.2.1.symm
  obtain ⟨scheme, hscheme, hsame, heq⟩ : ∃ scheme ∈ schemes,
      (if scheme = HTTPS then HTTPS else HTTP) = scheme ∧ schemeOf text = scheme.map Char.toLower := by
    rcases hlow with h | h
    · exact ⟨HTTPS, by decide, by decide, h⟩
    · exact ⟨HTTP, by decide, by decide, h⟩
  have hparts : ∀ c ∈ scheme ++ address L k ++ ONION, IsAscii c := parts_ascii hL hscheme (by decide)
  have hupper : ((scheme ++ address L k ++ ONION).map Char.toLower).map Char.toUpper =
      scheme ++ address L k ++ ONION := by
    rw [map_toUpper_toLower hparts, map_toUpper_parts hL hscheme (by decide)]
  have hcolon : ':' ∉ address L k ++ ONION :=
    not_mem_append_suffix (by decide) (not_mem_address hL (.inl rfl))
  rw [heq, ← parts_case.2.2.2, ← map_lower_parts hL]
  constructor
  · refine (isOnion_iff hL).2 ⟨?_, scheme, hscheme, ONION, by decide, hupper⟩
    exact isAscii_map_toLower hparts
  · rw [List.append_assoc] at hupper ⊢
    rw [schemeOf_eq hscheme hcolon hupper, hsame]

/-- A second scheme is read over. -/
theorem pubkeyFromOnionV3_twice (hL : L.Lawful) (hk : L.Valid k) :
    pubkeyFromOnionV3 L ("http://http://".toList ++ onionV3FromPubkey L k ++ ".onion".toList) = .ok k := by
  have htext : "http://http://".toList ++ onionV3FromPubkey L k ++ ".onion".toList =
      (HTTP ++ (HTTP ++ address L k ++ ONION)).map Char.toLower := by
    rw [List.map_append, map_lower_parts hL, parts_case.2.1, parts_case.2.2.2]
    rfl
  have hascii : ∀ c ∈ HTTP ++ (HTTP ++ address L k ++ ONION), IsAscii c := by
    intro c hc
    rcases List.mem_append.1 hc with hc | hc
    · exact (by decide : ∀ c ∈ HTTP, IsAscii c) c hc
    · exact parts_ascii hL (by decide) (by decide) c hc
  refine pubkeyFromOnionV3_address hL hk ?_
  rw [htext, toUppercase_ascii hL (isAscii_map_toLower hascii), map_toUpper_toLower hascii,
    List.map_append, parts_case.1 HTTP (by decide), map_toUpper_parts hL (by decide) (by decide)]
  exact strip_twice (not_mem_address hL (.inl rfl)) (not_mem_address hL (.inr rfl))

/-- Every valid key is read from its address, and a text is treated as it should exactly if it is plain or
what is left of it without schemes and suffixes is the address of no valid key. -/
theorem pubkeyFromOnionV3_exact (L : OnionLib) (hL : L.Lawful) :
    (∀ k, L.Valid k →
      (onionV3FromPubkey L k).length = 56 ∧ pubkeyFromOnionV3 L (onionV3FromPubkey L k) = .ok k) ∧
    ∀ text, Reads L text ↔
      Plain text ∨ ∀ k, L.Valid k → strip (toUppercase L text) ≠ toUppercase L (onionV3FromPubkey L k) := by
  constructor
  · intro k hk
    refine ⟨by rw [onionV3FromPubkey_eq hL, List.length_map, length_address hL], ?_⟩
    refine pubkeyFromOnionV3_of_isOnion hL hk ⟨"", by decide, "", by decide, ?_⟩
    rw [map_toLower_onion hL]
    simp
  · intro text
    constructor
    · rintro ⟨hread, -⟩
      by_cases h : ∃ k, pubkeyFromOnionV3 L text = .ok k
      · obtain ⟨k, hk⟩ := h
        exact .inl (plain_of_isOnion hL ((hread k).1 hk).2)
      · refine .inr fun k hk hstrip => h ⟨k, ?_⟩
        rw [toUppercase_onion hL] at hstrip
        exact pubkeyFromOnionV3_address hL hk hstrip
    · intro h
      have hread : ∀ k, pubkeyFromOnionV3 L text = .ok k ↔ L.Valid k ∧ IsOnion L k text := by
        intro k
        refine ⟨fun hok => ?_, fun hk => pubkeyFromOnionV3_of_isOnion hL hk.1 hk.2⟩
        obtain ⟨hk, hstrip⟩ := pubkeyFromOnionV3_ok hL hok
        rcases h with hplain | hnone
        · exact ⟨hk, isOnion_of_plain hL hplain hstrip⟩
        · exact absurd (hstrip.trans (toUppercase_onion hL).symm) (hnone k hk)
      refine ⟨hread, fun k hok => ?_⟩
      obtain ⟨hk, honion⟩ := (hread k).1 hok
      obtain ⟨hcomplete, hscheme⟩ := isOnion_complete (k := k) hL text
      refine ⟨completeTorAddress_of_isOnion hL hk honion, ?_⟩
      rw [completeTorAddress_of_isOnion hL hk hcomplete, hscheme]

/-! ## A library -/

/-- The symbol of five bits, as a byte. -/
def symbol (d : Nat) : Nat := ("ABCDEFGHIJKLMNOPQRSTUVWXYZ234567".toList.getD d 'A').toNat

def digit (byte : Nat) : Option Nat := (List.range 32).find? (symbol · = byte)

theorem symbol_digit {d : Nat} (h : d < 32) :
    digit (symbol d) = some d ∧ (Char.ofNat (symbol d)).toNat = symbol d ∧ symbol d < 128 ∧
      IsSymbol (Char.ofNat (symbol d)) := by
  have hall : ∀ d < 32, digit (symbol d) = some d ∧ (Char.ofNat (symbol d)).toNat = symbol d ∧
      symbol d < 128 ∧ IsSymbol (Char.ofNat (symbol d)) := by decide
  exact hall d h

/-- The key of an address that exists, and its hash with the text around it. -/
def sampleKey : List Nat :=
  [208, 60, 9, 233, 193, 155, 183, 74, 169, 234, 68, 224, 254, 90, 226, 55, 169, 191, 64, 189, 223, 9,
   65, 6, 74, 128, 145, 58, 68, 89, 200, 187]

def sampleHash : List Nat :=
  [42, 97, 228, 250, 203, 151, 129, 45, 35, 140, 8, 36, 201, 96, 48, 25, 89, 107, 219, 162, 63, 151, 33,
   216, 0, 117, 178, 95, 156, 25, 191, 54]

/-- Base 32 of whole groups, every 32 bytes a key, and the hash of one key. -/
def sample : OnionLib where
  base32Encode b :=
    ((ofGroups 5 (b.flatMap (toBits 8))).getD []).map fun d => Char.ofNat (symbol d)
  base32Decode text := do
    let digits ← text.mapM digit
    ofGroups 8 (digits.flatMap (toBits 5))
  sha3 b :=
    if b = utf8 ".onion checksum".toList ++ sampleKey ++ [3] then sampleHash else List.replicate 32 0
  dalekFromBytes b :=
    if b.length = 32 ∧ ∀ x ∈ b, x < 256 then some ⟨ofBits (b.flatMap (toBits 8))⟩ else none
  dalekBytes k := (ofGroups 8 (toBits 256 k.raw)).getD []
  upperChar c := [c.toUpper]
  toLowercase s := s.map Char.toLower

/-- The digits of whole groups of bytes. -/
theorem exists_digits {b : List Nat} (h : b.length % 5 = 0) :
    ∃ ds : List Nat, sample.base32Encode b = ds.map (fun d => Char.ofNat (symbol d)) ∧
      ds.length = 8 * (b.length / 5) ∧ (∀ d ∈ ds, d < 32) ∧
      ds.flatMap (toBits 5) = b.flatMap (toBits 8) := by
  have hbits : (b.flatMap (toBits 8)).length = 8 * (b.length / 5) * 5 := by
    rw [length_flatMap_toBits]
    omega
  obtain ⟨ds, hds, hlen, hlt, hflat⟩ := exists_ofGroups (by decide) hbits
  refine ⟨ds, ?_, hlen, hlt, hflat⟩
  show ((ofGroups 5 (b.flatMap (toBits 8))).getD []).map _ = _
  rw [hds]
  rfl

theorem sample_dalekBytes (k : DalekPublicKey) :
    (sample.dalekBytes k).length = 32 ∧ ∀ x ∈ sample.dalekBytes k, x < 256 := by
  obtain ⟨ds, hds, hlen, hlt, -⟩ := exists_ofGroups (w := 8) (k := 32) (by decide)
    (length_toBits (32 * 8) k.raw)
  have heq : sample.dalekBytes k = ds := by
    show (ofGroups 8 (toBits (32 * 8) k.raw)).getD [] = ds
    rw [hds]
    rfl
  rw [heq]
  exact ⟨hlen, hlt⟩

theorem sample_lawful : sample.Lawful where
  upperChar _ _ := rfl
  toLowercase _ _ := rfl
  encode_length b hb := by
    obtain ⟨ds, heq, hlen, -⟩ := exists_digits hb
    rw [heq, List.length_map, hlen]
  encode_symbols b hb c hc := by
    obtain ⟨ds, heq, -, hlt, -⟩ := exists_digits hb
    rw [heq] at hc
    obtain ⟨d, hd, rfl⟩ := List.mem_map.1 hc
    exact (symbol_digit (hlt d hd)).2.2.2
  decode_encode b hb hbytes := by
    obtain ⟨ds, heq, -, hlt, hflat⟩ := exists_digits hb
    have hsymbols : (ds.map fun d => Char.ofNat (symbol d)).map Char.toNat = ds.map symbol := by
      rw [List.map_map]
      exact List.map_congr_left fun d hd => (symbol_digit (hlt d hd)).2.1
    have hread : (ds.map symbol).mapM digit = some ds :=
      mapM_map_some fun d hd => (symbol_digit (hlt d hd)).1
    rw [heq, hsymbols]
    show ((ds.map symbol).mapM digit).bind (fun digits => ofGroups 8 (digits.flatMap (toBits 5))) = _
    rw [hread]
    show ofGroups 8 (ds.flatMap (toBits 5)) = _
    rw [hflat]
    exact ofGroups_toBits (by decide) hbytes
  decode_symbols text b h x hx := by
    obtain ⟨digits, hdigits, -⟩ := Option.bind_eq_some_iff.1 h
    have hsome : (digit x).isSome := mapM_isSome_iff.1 (by rw [hdigits]; rfl) x hx
    obtain ⟨d, hd⟩ := Option.isSome_iff_exists.1 hsome
    have hlt : d < 32 := List.mem_range.1 (List.mem_of_find?_eq_some hd)
    have hx' : symbol d = x := by
      unfold digit at hd
      simpa using List.find?_some hd
    subst hx'
    exact ⟨(symbol_digit hlt).2.2.1, .inl (symbol_digit hlt).2.2.2⟩
  sha3_length b := by
    show (if _ then sampleHash else List.replicate 32 0).length = 32
    split_ifs
    · rfl
    · exact List.length_replicate
  sha3_lt b x hx := by
    have hall : ∀ x ∈ sampleHash, x < 256 := by decide
    change x ∈ (if _ then sampleHash else List.replicate 32 0) at hx
    split_ifs at hx
    · exact hall x hx
    · rw [List.eq_of_mem_replicate hx]
      decide
  dalekBytes_length k := (sample_dalekBytes k).1
  dalekBytes_lt k := (sample_dalekBytes k).2
  dalekBytes_fromBytes b k h := by
    change (if _ then some (DalekPublicKey.mk (ofBits (b.flatMap (toBits 8)))) else none) = some k at h
    split_ifs at h with hb
    cases h
    have hbits : (b.flatMap (toBits 8)).length = 256 := by rw [length_flatMap_toBits, hb.1]
    have hback := toBits_ofBits (b.flatMap (toBits 8))
    rw [hbits] at hback
    show (ofGroups 8 (toBits 256 (ofBits (b.flatMap (toBits 8))))).getD [] = b
    rw [hback, ofGroups_toBits (by decide) hb.2]
    rfl

def sampleAddress : String := "2a6at2obto3uvkpkitqp4wxcg6u36qf534eucbskqciturczzc5suyid"

def samplePublicKey : DalekPublicKey := ⟨ofBits (sampleKey.flatMap (toBits 8))⟩

theorem sample_valid : sample.Valid samplePublicKey := by
  unfold OnionLib.Valid
  decide +kernel

/-- The address of the key as the tests of the source have it. -/
theorem sample_address : sampleAddress.toList = onionV3FromPubkey sample samplePublicKey := by
  decide +kernel

theorem pubkeyFromOnionV3_exact_sample :
    sample.Lawful ∧ sample.Valid samplePublicKey ∧
      pubkeyFromOnionV3 sample (onionV3FromPubkey sample samplePublicKey) = .ok samplePublicKey ∧
      Reads sample ("HTTPS://" ++ sampleAddress ++ ".Onion").toList := by
  obtain ⟨hread, hreads⟩ := pubkeyFromOnionV3_exact sample sample_lawful
  have honion : IsOnion sample samplePublicKey ("HTTPS://" ++ sampleAddress ++ ".Onion").toList := by
    refine ⟨"https://", by decide, ".onion", by decide, ?_⟩
    rw [String.toList_append, String.toList_append, List.map_append, List.map_append, sample_address,
      map_toLower_onion sample_lawful]
    rfl
  exact ⟨sample_lawful, sample_valid, (hread samplePublicKey sample_valid).2,
    (hreads _).2 (.inl (plain_of_isOnion sample_lawful honion))⟩

/-- A scheme that stands there twice. -/
theorem reads_not : ¬Reads sample ("http://http://" ++ sampleAddress ++ ".onion").toList := by
  intro h
  rw [String.toList_append, String.toList_append, sample_address] at h
  have hread := pubkeyFromOnionV3_twice sample_lawful sample_valid
  obtain ⟨-, hcolon, -⟩ := plain_of_isOnion sample_lawful ((h.1 samplePublicKey).1 hread).2
  rw [List.count_append, List.count_append] at hcolon
  have htwo : "http://http://".toList.count ':' = 2 := rfl
  omega

end Onion

end EpicWallet
