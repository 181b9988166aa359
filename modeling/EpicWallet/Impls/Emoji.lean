import EpicWallet.Lib.Bits
import EpicWallet.Lib.CharMap
import EpicWallet.Libwallet.SlateVersions

/-!
# Slates as emoji

`impls/src/adapters/emoji.rs`: the bytes of a slate's JSON as emoji of ten bits each. The first emoji
holds the number of zero bits that fill up the second, so that the bits come out even.

* `pack_invertible`: unpacking undoes packing, for bytes of any number.
* `translate2string_encode`: the receiver unpacks the bytes that were packed, each as one character; a
  character that is not ASCII becomes several, so the text is read with its strings changed there and
  nowhere else (`latin1`).
-/

namespace EpicWallet

open Lib

/-- `EMOJI_MAP`: 1024 emoji of one character each. -/
structure EmojiMap where
  glyph : Nat → Char
  distinct : ∀ i < 1024, ∀ j < 1024, glyph i = glyph j → i = j

/-- The slate a text is made of: version 3 if it needs that, else version 2. -/
def featureVersion (slate : Slate) : VersionedSlate :=
  if slate.paymentProof.isSome ∨ slate.ttlCutoffHeight.isSome then
    VersionedSlate.intoVersion slate .v3
  else
    VersionedSlate.intoVersion
      { slate with versionInfo := { slate.versionInfo with version := 2, origVersion := 2 } } .v2

namespace EmojiSlate

variable (E : EmojiMap)

def byte2bitvec (byte : Nat) : List Bool :=
  (List.range 8).map fun i => byte * 2 ^ i % 2 ^ 8 / 2 ^ 7 = 1

def setExtraBits (dataLen : Nat) : List Bool :=
  let extraBits := 10 - dataLen * 8 % 10
  List.replicate 6 false ++ (byte2bitvec extraBits).drop 4 ++ List.replicate extraBits false

def translate2emoji (content : List Nat) : List Char := content.map E.glyph

/-- The place of an emoji in the map. -/
def position (c : Char) : Option Nat := (List.range 1024).find? (E.glyph · = c)

/-- The ten bits of a place. -/
def index2bitvec (idx : Nat) : List Bool :=
  (List.range 10).map fun i => idx * 2 ^ (16 - (10 - i)) % 2 ^ 16 / 2 ^ 15 = 1

/-- `none` is a panic: a character that is no emoji of the map, no first emoji, or bits that do not come
out even. -/
def translate2string (emojiString : List Char) : Option (List Char) := do
  let idxs ← emojiString.mapM (position E)
  let bitVec := idxs.flatMap index2bitvec
  let numExtraBits ← idxs.head?
  let bytes := bitVec.drop (10 + numExtraBits)
  let bytes ← groups 8 bytes.length bytes
  pure (bytes.map fun b => Char.ofNat (ofBits b % 256))

/-- The bytes as emoji; `none` is a panic. -/
def pack (bytes : List Nat) : Option (List Char) := do
  let bitstream := setExtraBits bytes.length ++ bytes.flatMap byte2bitvec
  let slices ← groups 10 bitstream.length bitstream
  pure (translate2emoji E (slices.map ofBits))

def bytes (text : List Char) : List Nat := (text.flatMap String.utf8EncodeChar).map (·.toNat)

def encode (C : SlateCodecs) (slate : Slate) : Option (List Char) :=
  pack E (bytes ((featureVersion slate).toText C))

/-- `none` is a panic. -/
def decode (C : SlateCodecs) (emojiString : List Char) : Option (Except SlateError Slate) :=
  (translate2string E emojiString).map (Slate.deserializeUpgrade C)

/-! ## Unpacking undoes packing -/

variable {E}

theorem mul_pow_mod_div (n : Nat) {w i : Nat} (hi : i < w) :
    n * 2 ^ i % 2 ^ w / 2 ^ (w - 1) = n / 2 ^ (w - 1 - i) % 2 := by
  obtain ⟨k, rfl⟩ : ∃ k, w = i + (k + 1) := ⟨w - i - 1, by omega⟩
  have hlast : i + (k + 1) - 1 = i + k := rfl
  have hrest : i + k - i = k := Nat.add_sub_cancel_left i k
  rw [hlast, hrest, Nat.pow_add 2 i k, Nat.pow_add 2 i (k + 1), Nat.mul_comm n, Nat.mul_mod_mul_left,
    Nat.mul_div_mul_left _ _ (Nat.two_pow_pos i), Nat.pow_succ, Nat.mod_mul_right_div_self]

theorem byte2bitvec_eq (byte : Nat) : byte2bitvec byte = toBits 8 byte := by
  refine List.map_congr_left fun i hi => ?_
  rw [mul_pow_mod_div byte (w := 8) (List.mem_range.1 hi), Nat.testBit_eq_decide_div_mod_eq]

theorem index2bitvec_eq (idx : Nat) : index2bitvec idx = toBits 10 idx := by
  refine List.map_congr_left fun i hi => ?_
  have hlt := List.mem_range.1 hi
  rw [mul_pow_mod_div idx (w := 16) (i := 16 - (10 - i)) (by omega), Nat.testBit_eq_decide_div_mod_eq,
    show 16 - 1 - (16 - (10 - i)) = 10 - 1 - i by omega]

theorem position_glyph {i : Nat} (hi : i < 1024) : position E (E.glyph i) = some i := by
  unfold position
  rcases h : (List.range 1024).find? (E.glyph · = E.glyph i) with _ | j
  · have := List.find?_eq_none.1 h i (List.mem_range.2 hi)
    simp at this
  · have hj := List.mem_range.1 (List.mem_of_find?_eq_some h)
    have heq : E.glyph j = E.glyph i := by simpa using List.find?_some h
    rw [E.distinct j hj i hi heq]

theorem mapM_position : ∀ {l : List Nat}, (∀ i ∈ l, i < 1024) →
    (l.map E.glyph).mapM (position E) = some l
  | [], _ => rfl
  | i :: l, h => by
    rw [List.map_cons, List.mapM_cons, position_glyph (h i List.mem_cons_self),
      mapM_position fun j hj => h j (List.mem_cons_of_mem i hj)]
    rfl

/-- The header: the number of filling bits, in ten bits, and the filling bits. -/
theorem setExtraBits_eq (n : Nat) :
    setExtraBits n = toBits 10 (10 - n * 8 % 10) ++ List.replicate (10 - n * 8 % 10) false := by
  have hhead : ∀ k < 11, List.replicate 6 false ++ (byte2bitvec k).drop 4 = toBits 10 k := by decide
  show List.replicate 6 false ++ (byte2bitvec (10 - n * 8 % 10)).drop 4 ++ _ = _
  rw [hhead _ (by omega)]

/-- The bits of some bytes, byte by byte. -/
theorem flatMap_byte2bitvec (bytes : List Nat) :
    bytes.flatMap byte2bitvec = (bytes.map (toBits 8)).flatten := by
  rw [List.flatMap_def]
  congr 1
  exact List.map_congr_left fun b _ => byte2bitvec_eq b

theorem length_byteBits : ∀ bytes : List Nat, (bytes.map (toBits 8)).flatten.length = bytes.length * 8
  | [] => rfl
  | b :: bytes => by
    rw [List.map_cons, List.flatten_cons, List.length_append, length_byteBits bytes, length_toBits,
      List.length_cons]
    omega

/-- The filling bits make up what the bytes leave of the last emoji. -/
theorem length_bitstream (bytes : List Nat) :
    (setExtraBits bytes.length ++ (bytes.map (toBits 8)).flatten).length =
      (2 + bytes.length * 8 / 10) * 10 := by
  rw [setExtraBits_eq, List.length_append, List.length_append, length_toBits, List.length_replicate,
    length_byteBits]
  omega

/-- What a packed text is: groups of ten bits, which put together are the header and the bytes. -/
theorem pack_eq (bytes : List Nat) :
    ∃ gs : List (List Bool), (∀ g ∈ gs, g.length = 10) ∧
      gs.flatten = setExtraBits bytes.length ++ (bytes.map (toBits 8)).flatten ∧
      pack E bytes = some ((gs.map ofBits).map E.glyph) := by
  have hlen := length_bitstream bytes
  obtain ⟨gs, hgs, hg, hk⟩ := exists_groups hlen
  refine ⟨gs, hg, hgs.symm, ?_⟩
  have hgroups : groups 10 (setExtraBits bytes.length ++ (bytes.map (toBits 8)).flatten).length
      (setExtraBits bytes.length ++ (bytes.map (toBits 8)).flatten) = some gs := by
    rw [hlen, hgs]
    exact groups_flatten (by decide) hg (by omega)
  unfold pack
  rw [flatMap_byte2bitvec]
  show (groups 10 _ _).bind _ = _
  rw [hgroups]
  rfl

theorem flatMap_index2bitvec : ∀ {gs : List (List Bool)}, (∀ g ∈ gs, g.length = 10) →
    (gs.map ofBits).flatMap index2bitvec = gs.flatten
  | [], _ => rfl
  | g :: gs, h => by
    rw [List.map_cons, List.flatMap_cons, List.flatten_cons, index2bitvec_eq,
      ← h g List.mem_cons_self, toBits_ofBits,
      flatMap_index2bitvec fun g' hg' => h g' (List.mem_cons_of_mem g hg')]

theorem translate2string_pack {bytes : List Nat} (h : ∀ b ∈ bytes, b < 256) :
    (pack E bytes).bind (translate2string E) = some (bytes.map Char.ofNat) := by
  obtain ⟨gs, hg, hflat, hpack⟩ := pack_eq (E := E) bytes
  have hlt : ∀ i ∈ gs.map ofBits, i < 1024 := fun i hi => by
    obtain ⟨g, hmem, rfl⟩ := List.mem_map.1 hi
    have := ofBits_lt g
    rw [hg g hmem] at this
    exact this
  rw [setExtraBits_eq] at hflat
  have hextra : 10 - bytes.length * 8 % 10 < 2 ^ 10 := by omega
  -- the first group is the number of filling bits
  obtain ⟨g, gs', rfl⟩ : ∃ g gs', gs = g :: gs' := by
    rcases gs with _ | ⟨g, gs'⟩
    · have := congrArg List.length hflat
      simp at this
      omega
    · exact ⟨g, gs', rfl⟩
  have hhead : g = toBits 10 (10 - bytes.length * 8 % 10) := by
    have htake := congrArg (List.take 10) hflat
    rw [List.flatten_cons, List.append_assoc] at htake
    rw [List.take_left' (hg g List.mem_cons_self), List.take_left' (length_toBits 10 _)] at htake
    exact htake
  have hdrop : (g :: gs').flatten.drop (10 + (10 - bytes.length * 8 % 10)) =
      (bytes.map (toBits 8)).flatten := by
    rw [hflat, List.drop_left' (by simp)]
  have hchars : (bytes.map (toBits 8)).map (fun b => Char.ofNat (ofBits b % 256)) =
      bytes.map Char.ofNat := by
    rw [List.map_map]
    refine List.map_congr_left fun b hb => ?_
    show Char.ofNat (ofBits (toBits 8 b) % 256) = _
    rw [ofBits_toBits (h b hb), Nat.mod_eq_of_lt (h b hb)]
  have hgroups : groups 8 (bytes.map (toBits 8)).flatten.length (bytes.map (toBits 8)).flatten =
      some (bytes.map (toBits 8)) := by
    refine groups_flatten (by decide) (fun b hb => ?_) ?_
    · obtain ⟨c, -, rfl⟩ := List.mem_map.1 hb
      exact length_toBits 8 c
    · rw [length_byteBits, List.length_map]
      omega
  rw [hpack, Option.bind_some]
  unfold translate2string
  rw [mapM_position hlt]
  show (groups 8 (List.drop (10 + ofBits g) _).length (List.drop (10 + ofBits g) _)).bind _ = _
  rw [flatMap_index2bitvec hg, hhead, ofBits_toBits hextra, ← hhead, hdrop, hgroups]
  show some ((bytes.map (toBits 8)).map _) = _
  rw [hchars]

/-! ## What the receiver reads -/

theorem toNat_ofNat_byte (b : UInt8) : (Char.ofNat b.toNat).toNat = b.toNat := by
  have hvalid : b.toNat.isValidChar := .inl (Nat.lt_trans b.toNat_lt (by decide))
  unfold Char.ofNat
  rw [dif_pos hvalid]
  rfl

/-- The bits of the header and of any bytes come out even, and the characters that are unpacked have the
bytes as their codes. -/
theorem pack_invertible (E : EmojiMap) (bytes : List UInt8) :
    (setExtraBits bytes.length ++ (bytes.map (·.toNat)).flatMap byte2bitvec).length % 10 = 0 ∧
      ∃ text chars, pack E (bytes.map (·.toNat)) = some text ∧ translate2string E text = some chars ∧
        chars.map Char.toNat = bytes.map (·.toNat) := by
  have hbytes : ∀ b ∈ bytes.map (·.toNat), b < 256 := by
    intro b hb
    obtain ⟨c, -, rfl⟩ := List.mem_map.1 hb
    exact c.toNat_lt
  constructor
  · have hlen := length_bitstream (bytes.map (·.toNat))
    rw [List.length_map, ← flatMap_byte2bitvec] at hlen
    rw [hlen, Nat.mul_mod_left]
  · obtain ⟨text, hpack, hread⟩ := Option.bind_eq_some_iff.1 (translate2string_pack (E := E) hbytes)
    refine ⟨text, _, hpack, hread, ?_⟩
    rw [List.map_map, List.map_map]
    exact List.map_congr_left fun b _ => toNat_ofNat_byte b

/-- The bytes of a character as one character each. -/
def latin1 : CharMap where
  map c := (String.utf8EncodeChar c).map fun b => Char.ofNat b.toNat
  ascii c h := by
    have hlt : c.toNat < 256 := Nat.lt_trans h (by decide)
    rw [utf8EncodeChar_ascii h]
    show [Char.ofNat (UInt8.ofNat c.toNat).toNat] = [c]
    rw [UInt8.toNat_ofNat_of_lt' hlt, Char.ofNat_toNat]
  other c h d hd := by
    obtain ⟨b, hb, rfl⟩ := List.mem_map.1 hd
    have := utf8EncodeChar_other h b hb
    unfold IsAscii
    rw [toNat_ofNat_byte]
    omega

theorem map_ofNat_bytes (text : List Char) : (bytes text).map Char.ofNat = latin1.apply text := by
  unfold bytes CharMap.apply
  rw [List.map_map, List.map_flatMap]
  rfl

/-- The receiver unpacks the text that was packed, its bytes as one character each. -/
theorem translate2string_encode (C : SlateCodecs) (slate : Slate) :
    (encode E C slate).bind (translate2string E) =
      some (latin1.apply ((featureVersion slate).toText C)) := by
  unfold encode
  rw [translate2string_pack fun b hb => ?_, map_ofNat_bytes]
  obtain ⟨c, -, rfl⟩ := List.mem_map.1 hb
  exact c.toNat_lt

end EmojiSlate

end EpicWallet
