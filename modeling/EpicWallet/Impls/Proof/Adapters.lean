import EpicWallet.Impls.Adapters
import EpicWallet.Libwallet.Proof.SlateVersions
import EpicWallet.Libwallet.Owner

/-!
# What a text of a slate carries

* `roundTrips_iff`: a slate as text is read back where the version in it is the version of its body. The
  body follows the original version and the reader the version.
* `keepsProof_iff`: a requested payment proof is in what a transport hands over, and in the slate that is
  locked, for a file and emoji always, for http and keybase if the other side keeps it, for epicbox never.
-/

namespace EpicWallet

open Lib

/-! ## Round trips -/

section
variable (C : SlateCodecs)

/-- The slate as text is read back, with every field its body carries. -/
def RoundTrips (s : Slate) : Prop :=
  ∃ j, s.toJson C = some j ∧ ∃ s', Slate.deserializeUpgrade C j.render = .ok s' ∧
    if s.versionInfo.origVersion = 3 then s' = s else s'.withoutV3 = s.withoutV3

/-- A slate without its two version numbers. -/
def withoutVersions (s : Slate) : Slate :=
  { s with versionInfo := { s.versionInfo with version := 0, origVersion := 0 } }

/-- A slate put into a file is got from it, but for its version numbers. -/
def FileRoundTrips (s : Slate) : Prop :=
  ∀ (F : Faults SendError) (path : String) (d d' : Disk Unit),
    PathToSlate.putTx C F path s d = (.ok (), d') → F.error d'.ops = none →
      F.error (d'.ops + 1) = none →
      ∃ s' d'', PathToSlate.getTx C F path d' = (.ok s', d'') ∧ withoutVersions s' = withoutVersions s

/-- The slates the wallet makes, some of them from a slate it read. -/
inductive Produced (W : World) : Slate → Prop where
  | sent {mask : Option SecretKey} {args : InitTxArgs} {w w' : Wallet} {s : Slate} :
      args.targetSlateVersion ∈ [none, some 2, some 3] →
      Owner.initSendTx W mask args w = (.ok s, w') → Produced W s
  | issued {mask : Option SecretKey} {args : IssueInvoiceTxArgs} {w w' : Wallet} {s : Slate} :
      args.targetSlateVersion ∈ [none, some 2, some 3] →
      Owner.issueInvoiceTx W mask args w = (.ok s, w') → Produced W s
  | paid {text : List Char} {slate : Slate} {mask : Option SecretKey} {args : InitTxArgs}
      {w w' : Wallet} {s : Slate} : args.targetSlateVersion ∈ [none, some 2, some 3] →
      Slate.deserializeUpgrade C text = .ok slate →
      Owner.processInvoiceTx W mask slate args w = (.ok s, w') → Produced W s

variable {C}

theorem toJson_of_3 {s : Slate} (h : s.versionInfo.origVersion = 3) :
    s.toJson C = some ((SlateV3.ofSlate s).toJson C) := by
  unfold Slate.toJson
  rw [h]
  rfl

theorem toJson_of_2 {s : Slate} (h : s.versionInfo.origVersion = 2) :
    s.toJson C = some ((SlateV2.ofV3 (SlateV3.ofSlate s)).toJson C) := by
  unfold Slate.toJson
  rw [h]
  rfl

theorem toJson_of_other {s : Slate} (h3 : s.versionInfo.origVersion ≠ 3)
    (h2 : s.versionInfo.origVersion ≠ 2) : s.toJson C = none := by
  unfold Slate.toJson
  split
  · exact absurd ‹_› h3
  · exact absurd ‹_› h2
  · rfl

theorem withoutV3_eq_self {s : Slate} :
    s.withoutV3 = s ↔ s.ttlCutoffHeight = none ∧ s.paymentProof = none := by
  constructor
  · intro h
    rw [← h]
    exact ⟨rfl, rfl⟩
  · rintro ⟨ht, hp⟩
    rcases s with ⟨_, _, _, _, _, _, _, _, _, _, _⟩
    cases ht
    cases hp
    rfl

/-- The text of version 3 is read back under version 3, and under version 2 what version 2 knows. -/
theorem readV3_eq_ok {s s' : Slate} :
    s.readV3 = .ok s' ↔ s.versionInfo.version = 3 ∧ s' = s ∨
      s.versionInfo.version = 2 ∧ s' = s.withoutV3 := by
  unfold Slate.readV3
  split
  · rename_i hv
    simp [hv, eq_comm]
  · rename_i hv
    simp [hv, eq_comm]
  · rename_i h3 h2
    constructor
    · nofun
    · rintro (⟨h, -⟩ | ⟨h, -⟩)
      · exact (h3 h).elim
      · exact (h2 h).elim

theorem readV2_eq_ok {s s' : Slate} :
    s.readV2 = .ok s' ↔ s.versionInfo.version = 2 ∧ s' = s.withoutV3 := by
  unfold Slate.readV2
  split
  · rename_i hv
    simp [hv]
  · rename_i hv
    simp [hv, eq_comm]
  · rename_i h3 h2
    constructor
    · nofun
    · rintro ⟨h, -⟩
      exact (h2 h).elim

theorem textRoundTrips_iff {s : Slate} :
    RoundTrips C s ↔ s.versionInfo.origVersion = 3 ∧ s.versionInfo.version = 3 ∨
      s.versionInfo.origVersion = 2 ∧ s.versionInfo.version = 2 ∨
      s.versionInfo.origVersion = 3 ∧ s.versionInfo.version = 2 ∧ s.ttlCutoffHeight = none ∧
        s.paymentProof = none := by
  by_cases h3 : s.versionInfo.origVersion = 3
  · constructor
    · rintro ⟨j, hj, s', hs', heq⟩
      rw [toJson_of_3 h3, Option.some.injEq] at hj
      rw [← hj, Slate.deserializeUpgrade_v3, readV3_eq_ok] at hs'
      rw [if_pos h3] at heq
      rcases hs' with ⟨hv, -⟩ | ⟨hv, hs⟩
      · exact .inl ⟨h3, hv⟩
      · exact .inr (.inr ⟨h3, hv, withoutV3_eq_self.1 (hs.symm.trans heq)⟩)
    · rintro (⟨-, hv⟩ | ⟨hcon, -⟩ | ⟨-, hv, hs⟩)
      · refine ⟨_, toJson_of_3 h3, s, ?_, if_pos h3 ▸ rfl⟩
        rw [Slate.deserializeUpgrade_v3, readV3_eq_ok]
        exact .inl ⟨hv, rfl⟩
      · rw [hcon] at h3
        cases h3
      · refine ⟨_, toJson_of_3 h3, s, ?_, if_pos h3 ▸ rfl⟩
        rw [Slate.deserializeUpgrade_v3, readV3_eq_ok]
        exact .inr ⟨hv, (withoutV3_eq_self.2 hs).symm⟩
  by_cases h2 : s.versionInfo.origVersion = 2
  · constructor
    · rintro ⟨j, hj, s', hs', -⟩
      rw [toJson_of_2 h2, Option.some.injEq] at hj
      rw [← hj, Slate.deserializeUpgrade_v2, readV2_eq_ok] at hs'
      exact .inr (.inl ⟨h2, hs'.1⟩)
    · rintro (⟨hcon, -⟩ | ⟨-, hv⟩ | ⟨hcon, -⟩)
      · exact absurd hcon h3
      · refine ⟨_, toJson_of_2 h2, s.withoutV3, ?_, ?_⟩
        · rw [Slate.deserializeUpgrade_v2, readV2_eq_ok]
          exact ⟨hv, rfl⟩
        · rw [if_neg h3]
          rfl
      · exact absurd hcon h3
  · constructor
    · rintro ⟨j, hj, -⟩
      rw [toJson_of_other h3 h2] at hj
      cases hj
    · rintro (⟨hcon, -⟩ | ⟨hcon, -⟩ | ⟨hcon, -⟩)
      · exact absurd hcon h3
      · exact absurd hcon h2
      · exact absurd hcon h3

/-- A text of the version that a slate needs is read back if the slate needs version 2 or says 3. -/
theorem readFeature {s : Slate} (h : s.ttlCutoffHeight = none ∧ s.paymentProof = none ∨
      s.versionInfo.version = 3) :
    ∃ s', Slate.deserializeUpgrade C ((featureVersion s).toText C) = .ok s' ∧
      withoutVersions s' = withoutVersions s := by
  unfold featureVersion
  split_ifs with hneeds
  · rcases h with ⟨ht, hp⟩ | hv
    · rw [ht, hp] at hneeds
      exact absurd hneeds (by decide)
    · exact ⟨s, (Slate.deserializeUpgrade_v3 s).trans (readV3_eq_ok.2 (.inl ⟨hv, rfl⟩)), rfl⟩
  · have hnone : s.ttlCutoffHeight = none ∧ s.paymentProof = none := by
      rw [not_or, Option.not_isSome_iff_eq_none, Option.not_isSome_iff_eq_none] at hneeds
      exact ⟨hneeds.2, hneeds.1⟩
    refine ⟨_, (Slate.deserializeUpgrade_v2 _).trans (readV2_eq_ok.2 ⟨rfl, rfl⟩), ?_⟩
    show withoutVersions s.withoutV3 = _
    rw [withoutV3_eq_self.2 hnone]

/-- A slate that needs version 3 and does not say 3 is not read back. -/
theorem readFeature_ne {s s' : Slate} (hneeds : ¬(s.ttlCutoffHeight = none ∧ s.paymentProof = none))
    (hv : s.versionInfo.version ≠ 3)
    (h : Slate.deserializeUpgrade C ((featureVersion s).toText C) = .ok s') :
    withoutVersions s' ≠ withoutVersions s := by
  have hsome : s.paymentProof.isSome = true ∨ s.ttlCutoffHeight.isSome = true := by
    rw [Option.isSome_iff_ne_none, Option.isSome_iff_ne_none]
    by_cases hp : s.paymentProof = none
    · exact .inr fun ht => hneeds ⟨ht, hp⟩
    · exact .inl hp
  unfold featureVersion at h
  rw [if_pos hsome] at h
  rcases readV3_eq_ok.1 ((Slate.deserializeUpgrade_v3 s).symm.trans h) with ⟨h3, -⟩ | ⟨-, rfl⟩
  · exact absurd h3 hv
  · intro heq
    have ht : none = s.ttlCutoffHeight := congrArg Slate.ttlCutoffHeight heq
    have hp : none = s.paymentProof := congrArg Slate.paymentProof heq
    exact hneeds ⟨ht.symm, hp.symm⟩

variable {F : Faults SendError} {path : String}

/-- After `put_tx` the file holds the text. -/
theorem putTx_total (s : Slate) :
    Prog.Total (fun _ => True) (PathToSlate.putTx C F path s) fun _ d =>
      d.files.get path = some (String.ofList ((featureVersion s).toText C)) := by
  have hwrite : Prog.Total (fun _ => True)
      (Disk.writeAll F path (String.ofList ((featureVersion s).toText C))) fun _ (d : Disk Unit) =>
        d.files.get path = some (String.ofList ((featureVersion s).toText C)) :=
    Disk.op_total fun _ _ => Rows.get_put_self ..
  exact (Disk.create_total path).bind fun _ => hwrite.bind fun _ => Disk.op_total fun _ hd => hd

theorem getTx_eq {text : List Char} {d : Disk Unit} (hfile : d.files.get path = some (String.ofList text))
    (ho : F.error d.ops = none) (hr : F.error (d.ops + 1) = none) :
    (PathToSlate.getTx C F path d).1 =
      (Slate.deserializeUpgrade C text).mapError fun e => .err (.slate e) := by
  have hopen : Disk.openFile F path d = (.ok (), { d with ops := d.ops + 1 }) :=
    (Disk.openFile_eq hfile).trans (Disk.op_runs ho)
  have hread : Disk.readToString F path { d with ops := d.ops + 1 } =
      (.ok (String.ofList text), { d with ops := d.ops + 1 + 1 }) := by
    have hop : Disk.op F id id { d with ops := d.ops + 1 } = (.ok (), { d with ops := d.ops + 1 + 1 }) :=
      Disk.op_runs hr
    unfold Disk.readToString
    rw [Prog.bind_of_ok hop, Prog.bind_of_ok (Prog.get_apply _)]
    show (Except.ok ((d.files.get path).getD ""), _) = _
    rw [hfile]
    rfl
  unfold PathToSlate.getTx
  rw [Prog.bind_of_ok hopen, Prog.bind_of_ok hread, String.toList_ofList]
  rcases Slate.deserializeUpgrade C text with e | s
  · rfl
  · rfl

/-- A directory that never fails, with nothing in it. -/
def SendError.noFaults : Faults SendError := ⟨fun _ => none, fun _ => 0, .io 0⟩

def emptyDir : Disk Unit := ⟨true, .empty, (), 0⟩

theorem fileRoundTrips_iff {s : Slate} :
    FileRoundTrips C s ↔ s.ttlCutoffHeight = none ∧ s.paymentProof = none ∨ s.versionInfo.version = 3 := by
  constructor
  · intro h
    by_contra hcon
    rw [not_or] at hcon
    -- without faults the file is written and read
    have hput : PathToSlate.putTx C SendError.noFaults "" s emptyDir =
      (.ok (), (PathToSlate.putTx C SendError.noFaults "" s emptyDir).2) := rfl
    obtain ⟨s', d'', hget, heq⟩ := h SendError.noFaults "" emptyDir _ hput rfl rfl
    have hread := getTx_eq (C := C) (F := SendError.noFaults) ((putTx_total s).ok trivial hput) rfl rfl
    rw [hget] at hread
    rcases hd : Slate.deserializeUpgrade C ((featureVersion s).toText C) with e | t
    · rw [hd] at hread
      cases hread
    · rw [hd] at hread
      cases hread
      exact readFeature_ne hcon.1 hcon.2 hd heq
  · intro h F path d d' hput ho hr
    obtain ⟨s', hs', heq⟩ := readFeature (C := C) h
    have hget := getTx_eq (C := C) ((putTx_total s).ok trivial hput) ho hr
    rw [hs'] at hget
    exact ⟨s', _, Prod.ext hget rfl, heq⟩

theorem roundTrips_iff (s : Slate) :
    RoundTrips C s ∧ FileRoundTrips C s ↔
      s.versionInfo.origVersion = 3 ∧ s.versionInfo.version = 3 ∨
        (s.versionInfo.origVersion = 2 ∨ s.versionInfo.origVersion = 3) ∧ s.versionInfo.version = 2 ∧
          s.ttlCutoffHeight = none ∧ s.paymentProof = none := by
  rw [textRoundTrips_iff, fileRoundTrips_iff]
  constructor
  · rintro ⟨⟨ho, hv⟩ | ⟨ho, hv⟩ | ⟨ho, hv, hnone⟩, hfile⟩
    · exact .inl ⟨ho, hv⟩
    · rcases hfile with hnone | hv3
      · exact .inr ⟨.inl ho, hv, hnone⟩
      · omega
    · exact .inr ⟨.inr ho, hv, hnone⟩
  · rintro (⟨ho, hv⟩ | ⟨ho | ho, hv, hnone⟩)
    · exact ⟨.inl ⟨ho, hv⟩, .inr hv⟩
    · exact ⟨.inr (.inl ⟨ho, hv⟩), .inl hnone⟩
    · exact ⟨.inr (.inr ⟨ho, hv, hnone⟩), .inl hnone⟩

/-! A send for a wallet that knows version 2 only: its slate says version 3 and has the body of 2. -/

namespace RoundTrips

def args : InitTxArgs := { World.payFive with targetSlateVersion := some 2 }

def sent : Except (Fault Error) Slate × Wallet := Owner.initSendTx World.small none args World.funded

def slate : Slate := World.slateOr World.emptySlate sent

theorem sent_not_read :
    ∃ s, ∀ C : SlateCodecs, Produced C World.small s ∧ ¬(RoundTrips C s ∧ FileRoundTrips C s) := by
  have hversions : slate.versionInfo.origVersion = 2 ∧ slate.versionInfo.version = 3 := by
    decide +kernel
  have hsent : sent.1 = .ok slate := by decide +kernel
  have htarget : args.targetSlateVersion ∈ [none, some 2, some 3] := by decide
  refine ⟨slate, fun C => ⟨.sent htarget (Prog.run_eq hsent), ?_⟩⟩
  rw [textRoundTrips_iff, hversions.1, hversions.2]
  rintro ⟨⟨ho, -⟩ | ⟨-, hv⟩ | ⟨ho, -⟩, -⟩
  · cases ho
  · cases hv
  · cases ho

end RoundTrips

end

/-! ## Payment proofs -/

section
variable (C : SlateCodecs)

/-- A text in which the receiver finds a payment proof. -/
def CarriesProof (text : List Char) (p : PaymentInfo) : Prop :=
  ∃ l, Json.read text = some (.obj l) ∧
    (l.lookup "payment_proof").bind (PaymentInfoV3.fromJson C) = some (PaymentInfoV3.ofSlate p)

def Delivery.Carries (E : EmojiMap) (p : PaymentInfo) : Delivery → Prop
  | .json text => CarriesProof C text p
  | .emoji text => ∃ t, EmojiSlate.translate2string E text = some t ∧ CarriesProof C t p

/-- The slate asks for the proof that was requested; the receiver may have signed it. -/
def KeepsRequest (p : PaymentInfo) (s : Slate) : Prop :=
  ∃ p', s.paymentProof = some p' ∧ p'.senderAddress = p.senderAddress ∧
    p'.receiverAddress = p.receiverAddress

/-- Sending a slate drops a requested proof neither in what is handed over nor in what it returns. -/
def KeepsProof (X : Transports) (slate : Slate) (m : Method) (p : PaymentInfo) : Prop :=
  ∀ d : Disk Unit,
    ((∀ h ∈ (exchange C X slate m ⟨[], d⟩).2.handed, h.Carries C X.emoji p) ∨
      ∃ e, (exchange C X slate m ⟨[], d⟩).1 = .error (.err e)) ∧
    ∀ s', (exchange C X slate m ⟨[], d⟩).1 = .ok s' → KeepsRequest p s'

variable {C}

theorem carries_v3 {s : Slate} {p : PaymentInfo} (h : s.paymentProof = some p) :
    CarriesProof C ((SlateV3.ofSlate s).toJson C).render p := by
  refine ⟨_, Json.read_render _, ?_⟩
  have hp : (SlateV3.ofSlate s).paymentProof = some (PaymentInfoV3.ofSlate p) := by
    unfold SlateV3.ofSlate
    rw [h]
  simp only [List.lookup_cons, String.reduceBEq, hp]
  exact PaymentInfoV3.fromJson_toJson _

theorem ascii_proof (p : PaymentInfoV3) : (p.toJson C).Ascii := by
  have hopt : (optJson C.dalekSignature.enc p.receiverSignature).Ascii := by
    rcases p.receiverSignature with _ | sig
    · exact fun _ h => by cases h
    · exact C.dalekSignature_ascii sig
  intro s hs
  simp only [PaymentInfoV3.toJson, Json.strs, Json.fieldStrs, List.append_nil, List.mem_cons,
    List.mem_append] at hs
  rcases hs with rfl | hs | rfl | hs | rfl | hs
  · exact isAscii_of_all (by decide)
  · exact C.dalekPublicKey_ascii _ s hs
  · exact isAscii_of_all (by decide)
  · exact C.dalekPublicKey_ascii _ s hs
  · exact isAscii_of_all (by decide)
  · exact hopt s hs

/-- The receiver of emoji reads other characters than the sender wrote, but not in the proof. -/
theorem carries_latin1 {s : Slate} {p : PaymentInfo} (h : s.paymentProof = some p) :
    CarriesProof C (EmojiSlate.latin1.apply ((SlateV3.ofSlate s).toJson C).render) p := by
  have hp : (SlateV3.ofSlate s).paymentProof = some (PaymentInfoV3.ofSlate p) := by
    unfold SlateV3.ofSlate
    rw [h]
  refine ⟨_, CharMap.read_apply _ _, ?_⟩
  rw [CharMap.lookup_replaceFields]
  · simp only [List.lookup_cons, String.reduceBEq, hp, optJson, Option.map_some, Option.bind_some]
    rw [CharMap.replace_ascii _ _ (ascii_proof _)]
    exact PaymentInfoV3.fromJson_toJson _
  · have hnames : (List.all ["version_info", "num_participants", "id", "tx", "amount", "fee", "height",
        "lock_height", "ttl_cutoff_height", "participant_data", "payment_proof"]
          fun k => k.toList.all fun c => decide (IsAscii c)) = true := by decide +kernel
    intro e he
    exact isAscii_of_all (List.all_eq_true.1 hnames e.1 (List.mem_map_of_mem he))

theorem not_carries_v2 (s : SlateV2) (p : PaymentInfo) : ¬CarriesProof C (s.toJson C).render p := by
  rintro ⟨l, hl, hp⟩
  rw [Json.read_render, Option.some.injEq] at hl
  cases hl
  simp only [List.lookup_cons, List.lookup_nil, String.reduceBEq, Option.bind_none] at hp
  cases hp

end

/-! ## When a transport keeps the request -/

section
variable (C : SlateCodecs) (slate : Slate) (p : PaymentInfo)

/-- The other wallet says that it knows version 3. -/
def HttpPeer.KnowsV3 (H : HttpPeer) : Prop :=
  ∃ res n vs, H.post (jsonRpc "check_version" []) = .ok (some res) ∧ isNull (jsonAt "error" res) = true ∧
    readU16 (jsonAt "foreign_api_version" (jsonAt "Ok" (jsonAt "result" res))) = some n ∧
    readList readString (jsonAt "supported_slate_versions" (jsonAt "Ok" (jsonAt "result" res))) =
      some vs ∧ 2 ≤ n ∧ vs.contains "V3" = true

/-- If the other wallet answers with a slate, it has the request. -/
def HttpPeer.Keeps (H : HttpPeer) : Prop :=
  H.isNodeSynced = true → H.KnowsV3 → ∀ res s',
    H.post (jsonRpc "receive_tx" [(SlateV3.ofSlate slate).toJson C, .null, .null, .null]) = .ok (some res) →
      isNull (jsonAt "error" res) = true →
        Slate.deserializeUpgrade C (jsonAt "Ok" (jsonAt "result" res)).render = .ok s' →
          KeepsRequest p s'

/-- A message of version 3 was not sent, or not answered, or the first slate that came has the request. A
message of version 2 was refused or not answered in time. -/
def KeybasePeer.Keeps (K : KeybasePeer) : Prop :=
  (slate.versionInfo.origVersion = 3 → ∀ s',
    K.send ((SlateV3.ofSlate slate).toJson C).render = some true →
      KeybaseChannel.poll C K.rounds = some (some s') → KeepsRequest p s') ∧
  (slate.versionInfo.origVersion = 2 →
    K.send ((SlateV2.ofV3 (SlateV3.ofSlate slate)).toJson C).render = some false ∨
      K.send ((SlateV2.ofV3 (SlateV3.ofSlate slate)).toJson C).render = some true ∧
        KeybaseChannel.poll C K.rounds = some none)

/-- The slate does not get as far as the socket. -/
def EpicboxPeer.Refuses (B : EpicboxPeer) : Prop :=
  ¬(B.start = .ok () ∧ B.address = .ok () ∧ B.encrypt = .ok () ∧ B.sends = true)

def Transports.Keeps (X : Transports) : Method → Prop
  | .emoji => True
  | .file _ => True
  | .epicbox => X.epicbox.Refuses
  | .http => X.http.Keeps C slate p
  | .keybase => X.keybase.Keeps C slate p

end

section
variable {C : SlateCodecs} {X : Transports} {slate : Slate} {p : PaymentInfo} {x : Sending}

theorem KeepsRequest.self (h : slate.paymentProof = some p) : KeepsRequest p slate := ⟨p, h, rfl, rfl⟩

theorem featureVersion_proof (h : slate.paymentProof = some p) :
    featureVersion slate = .v3 (SlateV3.ofSlate slate) := by
  unfold featureVersion
  rw [h]
  rfl

theorem keepsProof_emoji (h : slate.paymentProof = some p) : KeepsProof C X slate .emoji p := by
  intro d
  have hread := EmojiSlate.translate2string_encode (E := X.emoji) C slate
  rcases henc : EmojiSlate.encode X.emoji C slate with _ | text
  · rw [henc] at hread
    cases hread
  rw [henc, Option.bind_some, featureVersion_proof h] at hread
  have hrun : exchange C X slate .emoji ⟨[], d⟩ = (.ok slate, ⟨[.emoji text], d⟩) := by
    unfold exchange
    rw [henc]
    rfl
  rw [hrun]
  refine ⟨.inl fun m hm => ?_, fun s' hs' => ?_⟩
  · cases List.mem_singleton.1 hm
    exact ⟨_, hread, carries_latin1 h⟩
  · cases hs'
    exact .self h

theorem keepsProof_file (h : slate.paymentProof = some p) (path : String) :
    KeepsProof C X slate (.file path) p := by
  intro d
  rcases hput : PathToSlate.putTx C X.files path slate d with ⟨r, d'⟩
  have hhand : PathToSlate.hand C X.files path slate ⟨[], d⟩ =
      (r, ⟨((d'.files.get path).map fun t => Delivery.json t.toList).toList, d'⟩) := by
    unfold PathToSlate.hand
    rw [hput]
    rfl
  rcases r with f | ⟨⟩
  · have hrun := Prog.bind_of_error (f := fun _ => (pure slate : SendingM Slate)) hhand
    rw [show exchange C X slate (.file path) ⟨[], d⟩ = _ from hrun]
    rcases f with e | _
    · exact ⟨.inr ⟨e, rfl⟩, nofun⟩
    · exact absurd hput ((putTx_total slate).ne_panic trivial)
  · have hrun := Prog.bind_of_ok (f := fun _ => (pure slate : SendingM Slate)) hhand
    rw [show exchange C X slate (.file path) ⟨[], d⟩ = _ from hrun,
      (putTx_total slate).ok trivial hput, featureVersion_proof h]
    refine ⟨.inl fun m hm => ?_, fun s' hs' => ?_⟩
    · cases List.mem_singleton.1 hm
      show CarriesProof C _ p
      rw [String.toList_ofList]
      exact carries_v3 h
    · cases hs'
      exact .self h

/-- Nothing was handed over and nothing returned. -/
theorem keepsProof_of_error {m : Method}
    (h : ∀ d : Disk Unit, ∃ f, exchange C X slate m ⟨[], d⟩ = (.error f, ⟨[], d⟩)) :
    KeepsProof C X slate m p := by
  intro d
  obtain ⟨f, hrun⟩ := h d
  rw [hrun]
  exact ⟨.inl nofun, nofun⟩

theorem not_carries_withoutV3 (E : EmojiMap) :
    ¬(Delivery.json ((VersionedSlate.intoVersion slate .v2).toText C)).Carries C E p := not_carries_v2 _ _

/-- What epicbox hands over has no proof, and it hands over all that it can. -/
theorem keepsProof_epicbox : KeepsProof C X slate .epicbox p ↔ X.epicbox.Refuses := by
  have hsend (d : Disk Unit) : exchange C X slate .epicbox ⟨[], d⟩ =
      EpicboxChannel.send C X.epicbox slate ⟨[], d⟩ := rfl
  unfold EpicboxPeer.Refuses
  constructor
  · rintro h ⟨hstart, haddress, hencrypt, hsends⟩
    have hrun : (exchange C X slate .epicbox ⟨[], emptyDir⟩).2.handed =
          [.json ((VersionedSlate.intoVersion slate .v2).toText C)] ∧
        ∀ e, (exchange C X slate .epicbox ⟨[], emptyDir⟩).1 ≠ .error (.err e) := by
      rw [hsend]
      unfold EpicboxChannel.send
      rw [hstart, haddress, hencrypt, hsends]
      rcases X.epicbox.closes with _ | _
      · exact ⟨rfl, nofun⟩
      · exact ⟨rfl, nofun⟩
    rcases (h emptyDir).1 with hcarries | ⟨e, he⟩
    · rw [hrun.1] at hcarries
      exact not_carries_withoutV3 _ (hcarries _ List.mem_cons_self)
    · exact hrun.2 e he
  · intro h
    refine keepsProof_of_error fun d => ?_
    rw [hsend]
    unfold EpicboxChannel.send
    rcases hstart : X.epicbox.start with f | ⟨⟩
    · exact ⟨f, rfl⟩
    rcases haddress : X.epicbox.address with f | ⟨⟩
    · exact ⟨f, rfl⟩
    rcases hencrypt : X.epicbox.encrypt with f | ⟨⟩
    · exact ⟨f, rfl⟩
    rcases hsends : X.epicbox.sends with _ | _
    · exact ⟨.panic, rfl⟩
    · exact absurd ⟨hstart, haddress, hencrypt, hsends⟩ h

theorem checkOtherVersion_reads (H : HttpPeer) : Prog.Reads (HttpSlateSender.checkOtherVersion H) := by
  unfold HttpSlateSender.checkOtherVersion
  rcases H.post (jsonRpc "check_version" []) with e | _ | res
  · exact .throw _
  · exact .panic
  refine .ite (fun _ => .throw _) fun _ => .bind (.unwrap _) fun n => .bind (.unwrap _) fun vs => ?_
  refine .ite (fun _ => .throw _) fun _ => .ite (fun _ => .pure _) fun _ => ?_
  exact .ite (fun _ => .pure _) fun _ => .throw _

theorem checkOtherVersion_v3 {H : HttpPeer} :
    HttpSlateSender.checkOtherVersion H x = (.ok .v3, x) ↔ H.KnowsV3 := by
  unfold HttpSlateSender.checkOtherVersion HttpPeer.KnowsV3
  rcases hpost : H.post (jsonRpc "check_version" []) with e | _ | res
  · constructor
    · nofun
    · rintro ⟨_, _, _, hcon, -⟩
      cases hcon
  · constructor
    · nofun
    · rintro ⟨_, _, _, hcon, -⟩
      cases hcon
  dsimp only
  constructor
  · intro h
    split_ifs at h with herror
    · obtain ⟨n, y, hn, h⟩ := Prog.bind_ok.1 h
      obtain ⟨hread, rfl⟩ := Prog.unwrap_eq_ok.1 hn
      obtain ⟨vs, y', hvs, h⟩ := Prog.bind_ok.1 h
      obtain ⟨hlist, rfl⟩ := Prog.unwrap_eq_ok.1 hvs
      split_ifs at h with hlt hv3 hv2
      · cases (Prod.mk.inj h).1
      · exact ⟨res, n, vs, rfl, herror, hread, hlist, Nat.not_lt.1 hlt, hv3⟩
      · cases (Prod.mk.inj h).1
      · cases (Prod.mk.inj h).1
    · cases (Prod.mk.inj h).1
  · rintro ⟨res', n, vs, hres, herror, hn, hvs, hle, hv3⟩
    cases hres
    rw [if_neg (not_not.2 herror), hn, hvs, Prog.bind_of_ok (Prog.unwrap_some n x),
      Prog.bind_of_ok (Prog.unwrap_some vs x), if_neg (Nat.not_lt.2 hle), if_pos hv3]
    rfl

/-- What the answer to `receive_tx` is made into. -/
theorem reply_ok {r : Except String (Option Json)} {s' : Slate} :
    (HttpSlateSender.reply C r x).1 = .ok s' ↔ ∃ res, r = .ok (some res) ∧
      isNull (jsonAt "error" res) = true ∧
        Slate.deserializeUpgrade C (jsonAt "Ok" (jsonAt "result" res)).render = .ok s' := by
  unfold HttpSlateSender.reply
  rcases r with e | _ | res
  · exact iff_of_false nofun (by rintro ⟨_, hcon, -⟩; cases hcon)
  · exact iff_of_false nofun (by rintro ⟨_, hcon, -⟩; cases hcon)
  dsimp only
  by_cases herror : isNull (jsonAt "error" res) = true
  · rw [if_neg (not_not.2 herror)]
    constructor
    · intro h
      refine ⟨res, rfl, herror, ?_⟩
      rcases hd : Slate.deserializeUpgrade C (jsonAt "Ok" (jsonAt "result" res)).render with e | s
      · rw [hd] at h
        cases h
      · rw [hd] at h
        cases h
        rfl
    · rintro ⟨res', hres, -, hd⟩
      cases hres
      rw [hd]
      rfl
  · rw [if_pos herror]
    refine iff_of_false nofun ?_
    rintro ⟨res', hres, hcon, -⟩
    cases hres
    exact herror hcon

theorem reply_reads (r : Except String (Option Json)) : Prog.Reads (HttpSlateSender.reply C r) := by
  unfold HttpSlateSender.reply
  rcases r with e | _ | res
  · exact .throw _
  · exact .panic
  refine .ite (fun _ => .throw _) fun _ => ?_
  rcases Slate.deserializeUpgrade C (jsonAt "Ok" (jsonAt "result" res)).render with e | s
  · exact .throw _
  · exact .pure _

/-- A slate with a proof is sent to a wallet that knows version 3, and to no other. -/
theorem http_run (h : slate.paymentProof = some p) (d : Disk Unit) :
    (X.http.isNodeSynced = true ∧ X.http.KnowsV3 ∧ exchange C X slate .http ⟨[], d⟩ =
      HttpSlateSender.reply C
        (X.http.post (jsonRpc "receive_tx" [(SlateV3.ofSlate slate).toJson C, .null, .null, .null]))
        ⟨[.json ((SlateV3.ofSlate slate).toJson C).render], d⟩) ∨
    ¬(X.http.isNodeSynced = true ∧ X.http.KnowsV3) ∧
      ∃ f, exchange C X slate .http ⟨[], d⟩ = (.error f, ⟨[], d⟩) := by
  have hsend : exchange C X slate .http ⟨[], d⟩ = HttpSlateSender.sendTx C X.http slate ⟨[], d⟩ := rfl
  rw [hsend]
  unfold HttpSlateSender.sendTx
  by_cases hsync : X.http.isNodeSynced = true
  · rw [if_neg (not_not.2 hsync)]
    by_cases hv3 : X.http.KnowsV3
    · rw [Prog.bind_of_ok (checkOtherVersion_v3.2 hv3)]
      exact .inl ⟨hsync, hv3, rfl⟩
    · refine .inr ⟨fun hcon => hv3 hcon.2, ?_⟩
      rcases hcheck : HttpSlateSender.checkOtherVersion X.http ⟨[], d⟩ with ⟨f | (_ | _), y⟩
      · obtain rfl := (checkOtherVersion_reads X.http).eq hcheck
        exact ⟨f, Prog.bind_of_error hcheck⟩
      · obtain rfl := (checkOtherVersion_reads X.http).eq hcheck
        exact absurd (checkOtherVersion_v3.1 hcheck) hv3
      · obtain rfl := (checkOtherVersion_reads X.http).eq hcheck
        rw [Prog.bind_of_ok hcheck]
        unfold HttpSlateSender.slateSend
        rw [h]
        exact ⟨_, rfl⟩
  · rw [if_pos hsync]
    exact .inr ⟨fun hcon => hsync hcon.1, _, rfl⟩

/-- What the other wallet is sent has the proof; what it answers is for it to say. -/
theorem keepsProof_http (h : slate.paymentProof = some p) :
    KeepsProof C X slate .http p ↔ X.http.Keeps C slate p := by
  constructor
  · intro hkeeps hsync hv3 res s' hpost herror hread
    rcases http_run (C := C) (X := X) h emptyDir with ⟨-, -, hrun⟩ | ⟨hcon, -⟩
    · refine (hkeeps emptyDir).2 s' ?_
      rw [hrun]
      exact reply_ok.2 ⟨res, hpost, herror, hread⟩
    · exact absurd ⟨hsync, hv3⟩ hcon
  · intro hkeeps d
    rcases http_run (C := C) (X := X) h d with ⟨hsync, hv3, hrun⟩ | ⟨-, f, hrun⟩
    · refine ⟨.inl fun m hm => ?_, fun s' hs' => ?_⟩
      · rw [hrun, ← reply_reads] at hm
        cases List.mem_singleton.1 hm
        exact carries_v3 h
      · rw [hrun] at hs'
        obtain ⟨res, hpost, herror, hread⟩ := reply_ok.1 hs'
        exact hkeeps hsync hv3 res s' hpost herror hread
    · rw [hrun]
      exact ⟨.inl nofun, nofun⟩

section
variable {d : Disk Unit} {j : Json}

theorem keybase_eq (hj : slate.toJson C = some j) :
    exchange C X slate .keybase ⟨[], d⟩ = (do
      let sent ← Prog.unwrap (X.keybase.send j.render)
      if ¬sent then Prog.throw (.clientCallback "Posting transaction slate")
      else do
        match ← Prog.unwrap (KeybaseChannel.poll C X.keybase.rounds) with
        | some slate => pure slate
        | none => Prog.throw (.clientCallback "Receiving reply from recipient") : SendingM Slate)
          ⟨[.json j.render], d⟩ := by
  show KeybaseChannel.sendTx C X.keybase slate ⟨[], d⟩ = _
  unfold KeybaseChannel.sendTx
  rw [hj]
  rfl

theorem keybase_run (hj : slate.toJson C = some j) :
    (exchange C X slate .keybase ⟨[], d⟩).2.handed = [.json j.render] ∧
      (∀ s', (exchange C X slate .keybase ⟨[], d⟩).1 = .ok s' ↔ X.keybase.send j.render = some true ∧
        KeybaseChannel.poll C X.keybase.rounds = some (some s')) ∧
      ((∃ e, (exchange C X slate .keybase ⟨[], d⟩).1 = .error (.err e)) ↔
        X.keybase.send j.render = some false ∨ X.keybase.send j.render = some true ∧
          KeybaseChannel.poll C X.keybase.rounds = some none) := by
  rw [keybase_eq hj]
  rcases X.keybase.send j.render with _ | _ | _
  · exact ⟨rfl, fun s' => iff_of_false nofun nofun, iff_of_false nofun nofun⟩
  · exact ⟨rfl, fun s' => iff_of_false nofun nofun, iff_of_true ⟨_, rfl⟩ (.inl rfl)⟩
  rcases KeybaseChannel.poll C X.keybase.rounds with _ | _ | s
  · exact ⟨rfl, fun s' => iff_of_false nofun nofun, iff_of_false nofun nofun⟩
  · exact ⟨rfl, fun s' => iff_of_false nofun nofun, iff_of_true ⟨_, rfl⟩ (.inr ⟨rfl, rfl⟩)⟩
  · refine ⟨rfl, fun s' => ?_, iff_of_false nofun nofun⟩
    constructor
    · intro hs
      cases hs
      exact ⟨rfl, rfl⟩
    · rintro ⟨-, hs⟩
      cases hs
      rfl

end

/-- The body of version 3 has the proof, that of version 2 has not, and there is no other. -/
theorem keepsProof_keybase (h : slate.paymentProof = some p) :
    KeepsProof C X slate .keybase p ↔ X.keybase.Keeps C slate p := by
  unfold KeepsProof KeybasePeer.Keeps
  by_cases h3 : slate.versionInfo.origVersion = 3
  · have h2 : slate.versionInfo.origVersion ≠ 2 := by omega
    constructor
    · intro hkeeps
      refine ⟨fun _ s' hsend hpoll => ?_, fun hcon => absurd hcon h2⟩
      exact (hkeeps emptyDir).2 s' (((keybase_run (toJson_of_3 h3)).2.1 s').2 ⟨hsend, hpoll⟩)
    · rintro ⟨hkeeps, -⟩ d
      obtain ⟨hhanded, hok, -⟩ := keybase_run (X := X) (d := d) (toJson_of_3 (C := C) h3)
      refine ⟨.inl fun m hm => ?_, fun s' hs' => ?_⟩
      · rw [hhanded] at hm
        cases List.mem_singleton.1 hm
        exact carries_v3 h
      · obtain ⟨hsend, hpoll⟩ := (hok s').1 hs'
        exact hkeeps h3 s' hsend hpoll
  by_cases h2 : slate.versionInfo.origVersion = 2
  · constructor
    · intro hkeeps
      refine ⟨fun hcon => absurd hcon h3, fun _ => ?_⟩
      obtain ⟨hhanded, -, herr⟩ := keybase_run (X := X) (d := emptyDir) (toJson_of_2 (C := C) h2)
      rcases (hkeeps emptyDir).1 with hcarries | herror
      · rw [hhanded] at hcarries
        exact absurd (hcarries _ List.mem_cons_self) (not_carries_v2 _ _)
      · exact herr.1 herror
    · rintro ⟨-, hkeeps⟩ d
      obtain ⟨-, -, herr⟩ := keybase_run (X := X) (d := d) (toJson_of_2 (C := C) h2)
      obtain ⟨e, he⟩ := herr.2 (hkeeps h2)
      rw [he]
      exact ⟨.inr ⟨e, rfl⟩, nofun⟩
  · refine iff_of_true (keepsProof_of_error fun d => ⟨.panic, ?_⟩)
      ⟨fun hcon => absurd hcon h3, fun hcon => absurd hcon h2⟩
    show KeybaseChannel.sendTx C X.keybase slate ⟨[], d⟩ = _
    unfold KeybaseChannel.sendTx
    rw [toJson_of_other h3 h2]
    rfl

theorem keepsProof_iff (C : SlateCodecs) (X : Transports) (slate : Slate) (m : Method) (p : PaymentInfo)
    (h : slate.paymentProof = some p) : KeepsProof C X slate m p ↔ X.Keeps C slate p m := by
  rcases m with _ | path | _ | _ | _
  · exact iff_of_true (keepsProof_emoji h) trivial
  · exact iff_of_true (keepsProof_file h path) trivial
  · exact keepsProof_epicbox
  · exact keepsProof_http h
  · exact keepsProof_keybase h

end

/-! A slate with a request for a proof, and transports that all work. -/

namespace KeepsProof

def emojiMap : EmojiMap where
  glyph i := Char.ofNat (0x1F300 + i)
  distinct i hi j hj h := by
    have hvalid : ∀ n < 1024, (Char.ofNat (0x1F300 + n)).toNat = 0x1F300 + n := by decide +kernel
    have := congrArg Char.toNat h
    rw [hvalid i hi, hvalid j hj] at this
    omega

def transports : Transports where
  emoji := emojiMap
  files := SendError.noFaults
  http := ⟨true, fun _ => .ok none⟩
  keybase := ⟨fun _ => some true, []⟩
  epicbox := ⟨.ok (), .ok (), .ok (), true, true⟩

def request : PaymentInfo := ⟨⟨1⟩, ⟨2⟩, none⟩

def slate : Slate := { World.emptySlate with paymentProof := some request }

theorem keepsProof_iff_file :
    slate.paymentProof = some request ∧
      (KeepsProof SlateCodecs.numbers transports slate (.file "tx") request ↔
        transports.Keeps SlateCodecs.numbers slate request (.file "tx")) :=
  ⟨rfl, keepsProof_iff _ _ _ _ _ rfl⟩

theorem epicbox_drops_proof :
    slate.paymentProof = some request ∧
      ¬KeepsProof SlateCodecs.numbers transports slate .epicbox request :=
  ⟨rfl, fun h => keepsProof_epicbox.1 h ⟨rfl, rfl, rfl, rfl⟩⟩

end KeepsProof

end EpicWallet
