import EpicWallet.Impls.Emoji
import EpicWallet.Impls.Proof.Adapters

/-!
# Slates as emoji, read back

* `decode_encode_iff`: which slates are decoded as they were encoded. The receiver reads every byte of a
  message as one character, so a message that is not ASCII comes out longer (`decode_encode`).
* `decode_isSome_iff`: which texts are decoded without a panic.
-/

namespace EpicWallet

open Lib

/-- What a slate is made of is written as ASCII. -/
structure SlateCodecs.Ascii (C : SlateCodecs) : Prop where
  uuid : ∀ i, (C.uuid.enc i).Ascii
  publicKey : ∀ k, (C.publicKey.enc k).Ascii
  signature : ∀ s, (C.signature.enc s).Ascii
  commitment : ∀ c, (C.commitment.enc c).Ascii
  blindingFactor : ∀ b, (C.blindingFactor.enc b).Ascii
  rangeProof : ∀ p, (C.rangeProof.enc p).Ascii

/-- A slate with the characters of its messages replaced. -/
def Slate.mapMessages (f : CharMap) (s : Slate) : Slate :=
  { s with participantData := s.participantData.map fun p =>
      { p with message := p.message.map f.mapString } }

namespace EmojiSlate

/-! ## The JSON of a slate with its characters replaced -/

section
variable (f : CharMap) {C : SlateCodecs} (hC : C.Ascii)

theorem replace_str {s : String} (h : s.toList.all (fun c => decide (IsAscii c)) = true) :
    f.replace (.str s) = .str s := congrArg Json.str (f.mapString_ascii (isAscii_of_all h))

theorem replace_stringOrU64 (n : Nat) : f.replace (stringOrU64 n) = stringOrU64 n := by
  refine congrArg Json.str (f.mapString_ascii ?_)
  unfold numText
  rw [String.toList_ofList]
  exact Json.isAscii_toDigits n

theorem replace_optJson {α : Type} {enc : α → Json} (h : ∀ a, f.replace (enc a) = enc a) (o : Option α) :
    f.replace (optJson enc o) = optJson enc o := by
  cases o with
  | none => rfl
  | some a => exact h a

theorem replace_outputFeaturesJson (b : Bool) : f.replace (outputFeaturesJson b) = outputFeaturesJson b := by
  cases b <;> exact replace_str f (by decide)

theorem replace_map {α : Type} {enc : α → Json} (h : ∀ a, f.replace (enc a) = enc a) (l : List α) :
    ∀ j ∈ l.map enc, f.replace j = j := by
  intro j hj
  obtain ⟨a, -, rfl⟩ := List.mem_map.1 hj
  exact h a

theorem replace_versionJson (a b c : Nat) : f.replace (versionJson a b c) = versionJson a b c := by
  unfold versionJson
  rw [f.replace_obj ["version", "orig_version", "block_header_version"] rfl (by decide)]
  rfl

include hC

theorem replace_participantJson (id : Nat) (x r : PublicKey) (s : Option Signature)
    (m : Option String) (t : Option Signature) :
    f.replace (participantJson C id x r s m t) =
      participantJson C id x r s (m.map f.mapString) t := by
  have hsig : ∀ o, f.replace (optJson C.signature.enc o) = optJson C.signature.enc o :=
    replace_optJson f fun s => f.replace_ascii _ (hC.signature s)
  have hm : f.replace (optJson .str m) = optJson .str (m.map f.mapString) := by
    cases m <;> rfl
  unfold participantJson
  rw [f.replace_obj ["id", "public_blind_excess", "public_nonce", "part_sig", "message", "message_sig"] rfl
    (by decide)]
  simp only [List.map_cons, List.map_nil, replace_stringOrU64, f.replace_ascii _ (hC.publicKey _), hsig, hm]

theorem replace_inputJson (b : Bool) (c : Commitment) :
    f.replace (inputJson C b c) = inputJson C b c := by
  unfold inputJson
  rw [f.replace_obj ["features", "commit"] rfl (by decide)]
  simp only [List.map_cons, List.map_nil, replace_outputFeaturesJson, f.replace_ascii _ (hC.commitment _)]

theorem replace_outputJson (b : Bool) (c : Commitment) (p : RangeProof) :
    f.replace (outputJson C b c p) = outputJson C b c p := by
  unfold outputJson
  rw [f.replace_obj ["features", "commit", "proof"] rfl (by decide)]
  simp only [List.map_cons, List.map_nil, replace_outputFeaturesJson, f.replace_ascii _ (hC.commitment _),
    f.replace_ascii _ (hC.rangeProof _)]

theorem replace_kernelJson (k : CompatKernelFeatures) (fee lockHeight : Nat) (excess : Commitment)
    (sig : Signature) :
    f.replace (kernelJson C k fee lockHeight excess sig) = kernelJson C k fee lockHeight excess sig := by
  have hfeatures : f.replace k.toJson = k.toJson := by
    cases k <;> exact replace_str f (by decide)
  unfold kernelJson
  rw [f.replace_obj ["features", "fee", "lock_height", "excess", "excess_sig"] rfl
    (by decide)]
  simp only [List.map_cons, List.map_nil, hfeatures, replace_stringOrU64,
    f.replace_ascii _ (hC.commitment _), f.replace_ascii _ (hC.signature _)]

/-- A transaction stays as it is. -/
theorem replace_transactionJson (offset : BlindingFactor) {inputs outputs kernels : List Json}
    (hin : ∀ j ∈ inputs, f.replace j = j) (hout : ∀ j ∈ outputs, f.replace j = j)
    (hker : ∀ j ∈ kernels, f.replace j = j) :
    f.replace (transactionJson C offset (bodyJson inputs outputs kernels)) =
      transactionJson C offset (bodyJson inputs outputs kernels) := by
  have hlist {l : List Json} (h : ∀ j ∈ l, f.replace j = j) : f.replace (.arr l) = .arr l := by
    rw [f.replace_arr, List.map_congr_left h, List.map_id']
  have hbody : f.replace (bodyJson inputs outputs kernels) = bodyJson inputs outputs kernels := by
    unfold bodyJson
    rw [f.replace_obj ["inputs", "outputs", "kernels"] rfl (by decide)]
    simp only [List.map_cons, List.map_nil, hlist hin, hlist hout, hlist hker]
  unfold transactionJson
  rw [f.replace_obj ["offset", "body"] rfl (by decide)]
  simp only [List.map_cons, List.map_nil, hbody, f.replace_ascii _ (hC.blindingFactor _)]

theorem replace_slateV3 (s : Slate) :
    f.replace ((SlateV3.ofSlate s).toJson C) = (SlateV3.ofSlate (s.mapMessages f)).toJson C := by
  have htx (tx : TransactionV3) : f.replace (tx.toJson C) = tx.toJson C :=
    replace_transactionJson f hC _ (replace_map f (fun i => replace_inputJson f hC ..) _)
      (replace_map f (fun o => replace_outputJson f hC ..) _)
      (replace_map f (fun k => replace_kernelJson f hC ..) _)
  have hparticipants : f.replace (.arr ((SlateV3.ofSlate s).participantData.map
      (ParticipantDataV3.toJson C))) =
        .arr ((SlateV3.ofSlate (s.mapMessages f)).participantData.map (ParticipantDataV3.toJson C)) := by
    unfold SlateV3.ofSlate Slate.mapMessages
    dsimp only
    rw [f.replace_arr, List.map_map, List.map_map, List.map_map, List.map_map]
    exact congrArg Json.arr (List.map_congr_left fun p _ => replace_participantJson f hC ..)
  unfold SlateV3.toJson
  rw [f.replace_obj ["version_info", "num_participants", "id", "tx", "amount", "fee", "height",
    "lock_height", "ttl_cutoff_height", "participant_data", "payment_proof"] rfl (by decide)]
  simp only [List.map_cons, List.map_nil, VersionCompatInfoV3.toJson, replace_versionJson, hparticipants,
    f.replace_ascii _ (hC.uuid _), htx, replace_stringOrU64, replace_optJson f (replace_stringOrU64 f),
    replace_optJson f fun p => f.replace_ascii _ (ascii_proof (C := C) p)]
  rfl

theorem replace_slateV2 (s : Slate) :
    f.replace ((SlateV2.ofV3 (SlateV3.ofSlate s)).toJson C) =
      (SlateV2.ofV3 (SlateV3.ofSlate (s.mapMessages f))).toJson C := by
  have htx (tx : TransactionV2) : f.replace (tx.toJson C) = tx.toJson C :=
    replace_transactionJson f hC _ (replace_map f (fun i => replace_inputJson f hC ..) _)
      (replace_map f (fun o => replace_outputJson f hC ..) _)
      (replace_map f (fun k => replace_kernelJson f hC ..) _)
  have hparticipants : f.replace (.arr ((SlateV2.ofV3 (SlateV3.ofSlate s)).participantData.map
      (ParticipantDataV2.toJson C))) =
        .arr ((SlateV2.ofV3 (SlateV3.ofSlate (s.mapMessages f))).participantData.map
          (ParticipantDataV2.toJson C)) := by
    unfold SlateV2.ofV3 SlateV3.ofSlate Slate.mapMessages
    dsimp only
    rw [f.replace_arr, List.map_map, List.map_map, List.map_map, List.map_map, List.map_map, List.map_map]
    exact congrArg Json.arr (List.map_congr_left fun p _ => replace_participantJson f hC ..)
  unfold SlateV2.toJson
  rw [f.replace_obj ["version_info", "num_participants", "id", "tx", "amount", "fee", "height",
    "lock_height", "participant_data"] rfl (by decide)]
  simp only [List.map_cons, List.map_nil, VersionCompatInfoV2.toJson, replace_versionJson, hparticipants,
    f.replace_ascii _ (hC.uuid _), htx, replace_stringOrU64]
  rfl

end

variable {E : EmojiMap} {C : SlateCodecs}

/-! ## Round trips -/

/-- A slate as its emitted version says it is: version 2 says that it is version 2. -/
def emitted (slate : Slate) : Slate :=
  if slate.paymentProof.isSome ∨ slate.ttlCutoffHeight.isSome then slate
  else { slate with versionInfo := { slate.versionInfo with version := 2, origVersion := 2 } }

/-- What is decoded of the encoded slate is the slate. -/
def Survives (E : EmojiMap) (C : SlateCodecs) (slate : Slate) : Prop :=
  ∃ text, encode E C slate = some text ∧ decode E C text = some (.ok (emitted slate))

def AsciiMessages (slate : Slate) : Prop :=
  ∀ p ∈ slate.participantData, ∀ m ∈ p.message, ∀ c ∈ m.toList, IsAscii c

instance (slate : Slate) : Decidable (AsciiMessages slate) :=
  inferInstanceAs (Decidable (∀ p ∈ slate.participantData, ∀ m ∈ p.message, ∀ c ∈ m.toList, IsAscii c))

theorem replace_featureVersion (f : CharMap) (hC : C.Ascii) (s : Slate) :
    f.replace ((featureVersion s).toJson C) = (featureVersion (s.mapMessages f)).toJson C := by
  unfold featureVersion
  by_cases hneeds : s.paymentProof.isSome ∨ s.ttlCutoffHeight.isSome
  · have hneeds' : (s.mapMessages f).paymentProof.isSome ∨ (s.mapMessages f).ttlCutoffHeight.isSome := hneeds
    rw [if_pos hneeds, if_pos hneeds']
    exact replace_slateV3 f hC s
  · have hneeds' : ¬((s.mapMessages f).paymentProof.isSome ∨ (s.mapMessages f).ttlCutoffHeight.isSome) :=
      hneeds
    rw [if_neg hneeds, if_neg hneeds']
    exact replace_slateV2 f hC _

/-- Every message comes out with its bytes for its characters. -/
theorem decode_encode (hC : C.Ascii) (s : Slate) : ∃ text, encode E C s = some text ∧
    decode E C text =
      some (Slate.deserializeUpgrade C ((featureVersion (s.mapMessages latin1)).toText C)) := by
  have hread := translate2string_encode (E := E) C s
  rcases henc : encode E C s with _ | text
  · rw [henc] at hread
    cases hread
  rw [henc, Option.bind_some] at hread
  have hsame : Json.read (latin1.apply ((featureVersion s).toText C)) =
      Json.read ((featureVersion (s.mapMessages latin1)).toText C) := by
    unfold VersionedSlate.toText
    rw [CharMap.read_apply, Json.read_render, replace_featureVersion latin1 hC]
  refine ⟨text, rfl, ?_⟩
  unfold decode
  rw [hread, Option.map_some]
  congr 1
  unfold Slate.deserializeUpgrade Slate.parseSlateVersion
  rw [hsame]

/-- A character that is not ASCII becomes several. -/
theorem length_latin1 (l : List Char) : l.length ≤ (latin1.apply l).length ∧
    ((latin1.apply l).length = l.length → ∀ c ∈ l, IsAscii c) := by
  induction l with
  | nil => exact ⟨Nat.le_refl 0, fun _ c hc => nomatch hc⟩
  | cons c l ih =>
    obtain ⟨hle, heq⟩ := ih
    have hlen : (latin1.apply (c :: l)).length = c.utf8Size + (latin1.apply l).length := by
      rw [CharMap.apply_cons, List.length_append]
      show ((String.utf8EncodeChar c).map _).length + _ = _
      rw [List.length_map, String.length_utf8EncodeChar]
    have hpos : 0 < c.utf8Size := c.utf8Size_pos
    rw [hlen, List.length_cons]
    refine ⟨by omega, fun h => List.forall_mem_cons.2 ⟨?_, heq (by omega)⟩⟩
    have hone : c.val ≤ 127 := Char.utf8Size_eq_one_iff.1 (by omega)
    exact Nat.lt_succ_of_le (UInt32.le_iff_toNat_le.1 hone)

theorem mapString_latin1 {m : String} : latin1.mapString m = m ↔ ∀ c ∈ m.toList, IsAscii c := by
  refine ⟨fun h => (length_latin1 m.toList).2 ?_, latin1.mapString_ascii⟩
  have hlist := congrArg String.toList h
  unfold CharMap.mapString at hlist
  rw [String.toList_ofList] at hlist
  rw [hlist]

theorem mapMessages_latin1 {s : Slate} : s.mapMessages latin1 = s ↔ AsciiMessages s := by
  constructor
  · intro h p hp m hm
    have hlist : s.participantData.map (fun p => { p with message := p.message.map latin1.mapString }) =
        s.participantData.map id := by
      rw [List.map_id]
      exact congrArg Slate.participantData h
    have hmessage : p.message.map latin1.mapString = p.message :=
      congrArg ParticipantData.message (List.map_inj_left.1 hlist p hp)
    rw [Option.mem_def.1 hm, Option.map_some, Option.some.injEq] at hmessage
    exact mapString_latin1.1 hmessage
  · intro h
    have hlist : s.participantData.map (fun p => { p with message := p.message.map latin1.mapString }) =
        s.participantData := by
      conv_rhs => rw [← List.map_id s.participantData]
      refine List.map_congr_left fun p hp => ?_
      rcases hm : p.message with _ | m
      · rcases p
        cases hm
        rfl
      · have hsame := mapString_latin1.2 (h p hp m hm)
        rcases p
        cases hm
        show ({ message := some (latin1.mapString m), .. } : ParticipantData) = _
        rw [hsame]
        rfl
    unfold Slate.mapMessages
    rw [hlist]

theorem survives_iff (hC : C.Ascii) (s : Slate) : Survives E C s ↔
    Slate.deserializeUpgrade C ((featureVersion (s.mapMessages latin1)).toText C) = .ok (emitted s) := by
  obtain ⟨text, henc, hdec⟩ := decode_encode (E := E) hC s
  constructor
  · rintro ⟨text', henc', hdec'⟩
    rw [henc, Option.some.injEq] at henc'
    subst henc'
    rw [hdec, Option.some.injEq] at hdec'
    exact hdec'
  · intro h
    exact ⟨text, henc, by rw [hdec, h]⟩

/-- A slate that needs version 3. -/
theorem survives_v3 (hC : C.Ascii) {s : Slate} (h : s.paymentProof.isSome ∨ s.ttlCutoffHeight.isSome) :
    Survives E C s ↔ AsciiMessages s ∧ s.versionInfo.version = 3 := by
  have hfeature : featureVersion (s.mapMessages latin1) =
      .v3 (SlateV3.ofSlate (s.mapMessages latin1)) := if_pos h
  have hemitted : emitted s = s := if_pos h
  rw [survives_iff hC, hfeature, hemitted]
  show Slate.deserializeUpgrade C ((SlateV3.ofSlate (s.mapMessages latin1)).toJson C).render = _ ↔ _
  rw [Slate.deserializeUpgrade_v3, readV3_eq_ok, ← mapMessages_latin1]
  constructor
  · rintro (⟨hv, hs⟩ | ⟨-, hs⟩)
    · exact ⟨hs.symm, hv⟩
    · have hnone : s.ttlCutoffHeight = none ∧ s.paymentProof = none :=
        ⟨congrArg Slate.ttlCutoffHeight hs, congrArg Slate.paymentProof hs⟩
      rw [hnone.1, hnone.2] at h
      exact absurd h (by decide)
  · rintro ⟨hs, hv⟩
    exact .inl ⟨hv, hs.symm⟩

/-- A slate that version 2 is enough for. -/
theorem survives_v2 (hC : C.Ascii) {s : Slate} (h : ¬(s.paymentProof.isSome ∨ s.ttlCutoffHeight.isSome)) :
    Survives E C s ↔ AsciiMessages s := by
  have hnone : s.ttlCutoffHeight = none ∧ s.paymentProof = none := by
    rw [not_or, Option.not_isSome_iff_eq_none, Option.not_isSome_iff_eq_none] at h
    exact ⟨h.2, h.1⟩
  have hemitted : emitted s =
      { s with versionInfo := { s.versionInfo with version := 2, origVersion := 2 } } := if_neg h
  have hfeature : featureVersion (s.mapMessages latin1) =
      .v2 (SlateV2.ofV3 (SlateV3.ofSlate ((emitted s).mapMessages latin1))) := by
    rw [hemitted]
    exact if_neg h
  have hsame : ((emitted s).mapMessages latin1).withoutV3 = (emitted s).mapMessages latin1 := by
    rw [withoutV3_eq_self, hemitted]
    exact hnone
  have hversion : ((emitted s).mapMessages latin1).versionInfo.version = 2 := by
    rw [hemitted]
    rfl
  have hmessages : AsciiMessages s ↔ AsciiMessages (emitted s) := by
    rw [hemitted]
    rfl
  rw [survives_iff hC, hfeature, hmessages, ← mapMessages_latin1]
  show Slate.deserializeUpgrade C
    ((SlateV2.ofV3 (SlateV3.ofSlate ((emitted s).mapMessages latin1))).toJson C).render = _ ↔ _
  rw [Slate.deserializeUpgrade_v2, readV2_eq_ok, hsame]
  exact ⟨fun hs => hs.2.symm, fun hs => ⟨hversion, hs.symm⟩⟩

/-- A slate survives exactly if its messages are ASCII and its version is 3 where it needs that. -/
theorem decode_encode_iff (E : EmojiMap) (C : SlateCodecs) (hC : C.Ascii) (slate : Slate) :
    Survives E C slate ↔ AsciiMessages slate ∧
      (slate.paymentProof.isSome ∨ slate.ttlCutoffHeight.isSome → slate.versionInfo.version = 3) := by
  by_cases h : slate.paymentProof.isSome ∨ slate.ttlCutoffHeight.isSome
  · rw [survives_v3 hC h]
    exact and_congr_right fun _ => ⟨fun hv _ => hv, fun hv => hv h⟩
  · rw [survives_v2 hC h]
    exact ⟨fun hm => ⟨hm, fun hcon => absurd hcon h⟩, fun hm => hm.1⟩

theorem numbers_ascii : SlateCodecs.numbers.Ascii where
  uuid _ _ hs := by cases hs
  publicKey _ _ hs := by cases hs
  signature _ _ hs := by cases hs
  commitment _ _ hs := by cases hs
  blindingFactor _ _ hs := by cases hs
  rangeProof _ _ hs := by cases hs

/-- A slate with one message. -/
def greeting (message : String) : Slate :=
  { World.emptySlate with participantData := [⟨0, ⟨1⟩, ⟨2⟩, none, some message, none⟩] }

theorem decode_encode_iff_hello :
    SlateCodecs.numbers.Ascii ∧ Survives KeepsProof.emojiMap SlateCodecs.numbers (greeting "hello") :=
  ⟨numbers_ascii, (decode_encode_iff _ _ numbers_ascii _).2 (by decide)⟩

theorem survives_not : ¬Survives KeepsProof.emojiMap SlateCodecs.numbers (greeting "grüß dich") := by
  rw [survives_v2 numbers_ascii (by decide)]
  decide

/-! ## Panics -/

/-- There is a first emoji, every character is one, and the bits after the header come out even. -/
def Decodable (E : EmojiMap) (emojiString : List Char) : Prop :=
  (∀ c ∈ emojiString, (position E c).isSome) ∧ ∃ first rest numExtraBits, emojiString = first :: rest ∧
    position E first = some numExtraBits ∧ (10 * rest.length - numExtraBits) % 8 = 0

theorem length_index2bitvec (idxs : List Nat) : (idxs.flatMap index2bitvec).length = 10 * idxs.length := by
  induction idxs with
  | nil => rfl
  | cons i idxs ih =>
    rw [List.flatMap_cons, List.length_append, ih, List.length_cons]
    show 10 + _ = _
    omega

/-- A text is decoded, to a slate or an error, exactly if it is whole emoji of the map. -/
theorem decode_isSome_iff (E : EmojiMap) (C : SlateCodecs) (emojiString : List Char) :
    decode E C emojiString ≠ none ↔ Decodable E emojiString := by
  have hbits {idxs : List Nat} {rest : List Char} {n : Nat} (hlen : idxs.length = rest.length + 1) :
      ((idxs.flatMap index2bitvec).drop (10 + n)).length = 10 * rest.length - n := by
    rw [List.length_drop, length_index2bitvec, hlen]
    omega
  have hcut (l : List Bool) : (groups 8 l.length l).isSome ↔ l.length % 8 = 0 :=
    groups_isSome (by decide) (Nat.le_refl l.length)
  unfold decode translate2string
  rw [← Option.isSome_iff_ne_none, Option.isSome_map]
  constructor
  · intro h
    obtain ⟨text, h⟩ := Option.isSome_iff_exists.1 h
    obtain ⟨idxs, hidxs, h⟩ := Option.bind_eq_some_iff.1 h
    obtain ⟨numExtraBits, hhead, h⟩ := Option.bind_eq_some_iff.1 h
    obtain ⟨gs, hgs, -⟩ := Option.bind_eq_some_iff.1 h
    obtain ⟨hlen, hfirst⟩ := mapM_some hidxs
    rw [hhead] at hfirst
    obtain ⟨first, hc, hpos⟩ := Option.bind_eq_some_iff.1 hfirst.symm
    obtain ⟨rest, rfl⟩ := List.head?_eq_some_iff.1 hc
    refine ⟨mapM_isSome_iff.1 (Option.isSome_of_eq_some hidxs), first, rest, numExtraBits, rfl, hpos, ?_⟩
    rw [← hbits hlen]
    exact (hcut _).1 (Option.isSome_of_eq_some hgs)
  · rintro ⟨hall, first, rest, numExtraBits, rfl, hpos, heven⟩
    obtain ⟨idxs, hidxs⟩ := Option.isSome_iff_exists.1 (mapM_isSome_iff.2 hall)
    obtain ⟨hlen, hfirst⟩ := mapM_some hidxs
    rw [List.head?_cons, Option.bind_some, hpos] at hfirst
    rw [← hbits hlen] at heven
    obtain ⟨gs, hgs⟩ := Option.isSome_iff_exists.1 ((hcut _).2 heven)
    rw [hidxs, Option.bind_eq_bind, Option.bind_some, hfirst, Option.bind_eq_bind, Option.bind_some]
    show ((groups 8 _ ((idxs.flatMap index2bitvec).drop (10 + numExtraBits))).bind _).isSome
    rw [hgs]
    rfl

/-- An empty text and a letter panic. -/
theorem decode_empty :
    decode KeepsProof.emojiMap SlateCodecs.numbers [] = none ∧
      decode KeepsProof.emojiMap SlateCodecs.numbers ['a'] = none := by
  have hletter : position KeepsProof.emojiMap 'a' = none := by
    decide +kernel
  refine ⟨rfl, ?_⟩
  unfold decode translate2string
  rw [List.mapM_cons, hletter]
  rfl

end EmojiSlate

end EpicWallet
