import AppVechain.Device.Apdu

/-!
# What a command may do

Every command ends with success, with an error or with a review. The commands
other than `INS_SIGN` leave the contexts of the parser alone; `INS_SIGN` is
inverted into its ways to end.
-/

namespace AppVechain

open Reactive

/-- The answer is an error of the application. -/
def Answer.isError : Answer → Bool
  | .status _ sw => sw &&& ERROR_TYPE_MASK = ERROR_TYPE_HW
  | .review _ => false

/-- The answer shows a transaction. -/
def Answer.showsTransaction : Answer → Bool
  | .review (.transaction _ _) => true
  | _ => false

/-- The answer of a handler with the variables it leaves, before exceptions are handled. -/
def Ending.answer? : Ending → Option (Answer × Device)
  | .throw data sw d => some (.status data sw, d)
  | .review flow d => some (.review flow, d)
  | .stuck _ => none

/-- A status word that is success or an error. -/
def Ending.Regular : Ending → Prop
  | .throw _ sw _ => sw = HW_OK ∨ sw &&& ERROR_TYPE_MASK = ERROR_TYPE_HW
  | .review _ _ => True
  | .stuck _ => True

/-- The error words of the handlers. -/
theorem regular_throw {data : List UInt8} {sw : UInt16} {d : Device}
    (h : sw ∈ [HW_OK, HW_SW_TRANSACTION_CANCELLED, HW_INCORRECT_DATA, HW_INCORRECT_P1_P2,
      HW_NOT_ENOUGH_MEMORY_SPACE, HW_CLA_NOT_SUPPORTED, HW_INS_NOT_SUPPORTED]) :
    (Ending.throw data sw d).Regular := by
  have hall : [HW_OK, HW_SW_TRANSACTION_CANCELLED, HW_INCORRECT_DATA, HW_INCORRECT_P1_P2,
      HW_NOT_ENOUGH_MEMORY_SPACE, HW_CLA_NOT_SUPPORTED, HW_INS_NOT_SUPPORTED].all
      (fun sw => sw = HW_OK ∨ sw &&& ERROR_TYPE_MASK = ERROR_TYPE_HW) = true := by decide
  have hsw : sw = HW_OK ∨ sw &&& ERROR_TYPE_MASK = ERROR_TYPE_HW :=
    of_decide_eq_true (List.all_eq_true.mp hall sw h)
  exact hsw

/-- A path is refused with an error. -/
theorem beginPath_inl {G : ApduBuffer} {d : Device} {ending : Ending}
    (h : beginPath G d = .inl ending) :
    ¬G.HasPath ∧ ending = .throw [] HW_INCORRECT_DATA
      { d with tmpCtx := { d.tmpCtx with pathLength := G.byte OFFSET_CDATA } } := by
  by_cases hpath : G.HasPath
  · obtain ⟨a, ha, -⟩ := beginPath_of_hasPath hpath d
    rw [ha] at h
    cases h
  · rw [beginPath_of_not_hasPath hpath] at h
    cases h
    exact ⟨hpath, rfl⟩

/-- A path that is read is stored, and nothing else. -/
theorem beginPath_inr {G : ApduBuffer} {d : Device} {w : Work} (h : beginPath G d = .inr w) :
    G.HasPath ∧ w.workBuffer = G.behindPath ∧
      w.dataLength.toNat = G.lc.toNat - (1 + 4 * G.pathLength) ∧ w.device.tmpCtx.path = G.path ∧
      w.device = { d with tmpCtx := { d.tmpCtx with
        pathLength := w.device.tmpCtx.pathLength, bip32Path := w.device.tmpCtx.bip32Path } } := by
  by_cases hpath : G.HasPath
  · obtain ⟨a, ha, hwords, hwork, hdata⟩ := beginPath_of_hasPath hpath d
    rw [ha] at h
    cases h
    exact ⟨hpath, hwork, hdata, hwords, rfl⟩
  · rw [beginPath_of_not_hasPath hpath] at h
    cases h

/-- The data behind the length, when it is complete. -/
theorem readLength_dataLength {G : ApduBuffer} {d : Device} {w : Work}
    (hpath : beginPath G d = .inr w) (h : 1 + 4 * G.pathLength + 4 ≤ G.lc.toNat) :
    (w.readLength G).dataLength.toNat = G.lc.toNat - (1 + 4 * G.pathLength + 4) := by
  obtain ⟨-, -, hdata, -⟩ := beginPath_inr hpath
  have hsub : (w.dataLength - 4).toNat = w.dataLength.toNat - 4 :=
    UInt16.toNat_sub_of_le _ _ (UInt16.le_iff_toNat_le.mpr (show 4 ≤ _ by omega))
  show (w.dataLength - 4).toNat = _
  omega

/-- The variables that only `INS_SIGN` changes are the same. -/
def Device.KeepsParser (d d' : Device) : Prop :=
  d' = { d.setBlake2b d'.blake2b with
    tmpCtx := d'.tmpCtx
    publicKeyContext := d'.publicKeyContext
    fullAddress := d'.fullAddress }

theorem Device.KeepsParser.refl (d : Device) : d.KeepsParser d := rfl

theorem Device.KeepsParser.trans {d d' d'' : Device} (h : d.KeepsParser d')
    (h' : d'.KeepsParser d'') : d.KeepsParser d'' := by
  unfold KeepsParser at h h' ⊢
  rw [h] at h'
  exact h'

/-- The device after the data of a command were hashed. -/
def Work.hash (G : ApduBuffer) (w : Work) : Device :=
  { w.device.setBlake2b (w.device.blake2b ++ G.bytes w.workBuffer w.dataLength.toNat) with
    tmpCtx := { w.device.tmpCtx with
      remainingLength := w.device.tmpCtx.remainingLength - w.dataLength.toUInt32 } }

/-- The device when a hash is shown. -/
def Device.showHash (platform : Platform) (d : Device) : Device :=
  { d with
    tmpCtx := { d.tmpCtx with hash := platform.blake2b256 d.blake2b }
    fullAddress := hashSummary (platform.blake2b256 d.blake2b) }

/-- The last of the data of a command. -/
def Work.lastByte (G : ApduBuffer) (w : Work) : UInt8 :=
  G.byte (w.workBuffer + w.dataLength.toNat - 1)

/-- What is different in signing messages and certificates: the flow, the bytes hashed in front
of a stream of a length, and the tests of the first and of the last byte. -/
structure Stream where
  flow : Flow
  start : UInt32 → Option (List UInt8)
  opened : UInt8 → Bool
  closed : UInt8 → Bool

/-- Messages are hashed behind a prefix with their length. -/
def messageStream : Stream where
  flow := .message
  start := fun length => (lengthText length).map (SIGN_MAGIC ++ ·)
  opened := fun _ => true
  closed := fun _ => true

/-- Certificates begin and end with braces. -/
def certificateStream : Stream where
  flow := .certificate
  start := fun _ => some []
  opened := fun b => b == 123
  closed := fun b => b == 125

/-- The ways in which the first part of signing a stream ends. -/
inductive Begun (k : Stream) (G : ApduBuffer) (d : Device) : Ending ⊕ Work → Prop where
  | noPath (hp1 : G.p1 = P1_FIRST) (hpath : ¬G.HasPath) :
      Begun k G d (.inl (.throw [] HW_INCORRECT_DATA
        { d with tmpCtx := { d.tmpCtx with pathLength := G.byte OFFSET_CDATA } }))
  | notOpened {w : Work} (hp1 : G.p1 = P1_FIRST) (hpath : beginPath G d = .inr w)
      (hopened : k.opened (G.byte (w.workBuffer + 4)) = false) :
      Begun k G d (.inl (.throw [] HW_INCORRECT_DATA (w.readLength G).device))
  | diverges {w : Work} (hp1 : G.p1 = P1_FIRST) (hpath : beginPath G d = .inr w)
      (htext : k.start (G.word w.workBuffer) = none) : Begun k G d (.inl (.stuck .diverges))
  | first {w : Work} {text : List UInt8} (hp1 : G.p1 = P1_FIRST) (hpath : beginPath G d = .inr w)
      (hopened : k.opened (G.byte (w.workBuffer + 4)) = true)
      (htext : k.start (G.word w.workBuffer) = some text) :
      Begun k G d (.inr { w.readLength G with
        device := (w.readLength G).device.setBlake2b text })
  | wrongP1 (hp1 : G.p1 ≠ P1_FIRST) (hmore : G.p1 ≠ P1_MORE) :
      Begun k G d (.inl (.throw [] HW_INCORRECT_P1_P2 d))
  | more (hp1 : G.p1 = P1_MORE) : Begun k G d (.inr ⟨d, OFFSET_CDATA, G.lc.toUInt16⟩)

/-- The first part of signing a stream, with what it does once the path and the length are read. -/
def streamBegin (rest : Work → Ending ⊕ Work) (G : ApduBuffer) (d : Device) : Ending ⊕ Work :=
  if G.p1 = P1_FIRST then
    match beginPath G d with
    | .inl ending => .inl ending
    | .inr w => rest (w.readLength G)
  else if G.p1 ≠ P1_MORE then .inl (.throw [] HW_INCORRECT_P1_P2 d)
  else .inr ⟨d, OFFSET_CDATA, G.lc.toUInt16⟩

/-- The hash of a message is started with its prefix. -/
def messageRest (w : Work) : Ending ⊕ Work :=
  match lengthText w.device.tmpCtx.remainingLength with
  | none => .inl (.stuck .diverges)
  | some text => .inr { w with device := w.device.setBlake2b (SIGN_MAGIC ++ text) }

/-- The hash of a certificate is started behind the test of its first byte. -/
def certificateRest (G : ApduBuffer) (w : Work) : Ending ⊕ Work :=
  if G.byte w.workBuffer ≠ 123 then .inl (.throw [] HW_INCORRECT_DATA w.device)
  else .inr { w with device := w.device.setBlake2b [] }

theorem messageBegin_eq (G : ApduBuffer) (d : Device) :
    messageBegin G d = streamBegin messageRest G d := rfl

theorem certificateBegin_eq (G : ApduBuffer) (d : Device) :
    certificateBegin G d = streamBegin (certificateRest G) G d := rfl

/-- The first part of signing a stream ends in one of these ways, when it does so behind the
length. -/
theorem streamBegin_begun {k : Stream} {rest : Work → Ending ⊕ Work} {G : ApduBuffer} {d : Device}
    (hrest : G.p1 = P1_FIRST → ∀ w, beginPath G d = .inr w → Begun k G d (rest (w.readLength G))) :
    Begun k G d (streamBegin rest G d) := by
  unfold streamBegin
  by_cases hfirst : G.p1 = P1_FIRST
  · rw [if_pos hfirst]
    cases hpath : beginPath G d with
    | inl ending =>
      obtain ⟨hnone, rfl⟩ := beginPath_inl hpath
      exact .noPath hfirst hnone
    | inr w => exact hrest hfirst w hpath
  · rw [if_neg hfirst]
    by_cases hmore : G.p1 = P1_MORE
    · rw [if_neg (not_not.mpr hmore)]
      exact .more hmore
    · rw [if_pos hmore]
      exact .wrongP1 hfirst hmore

/-- The first part of signing a message ends in one of these ways. -/
theorem messageBegin_begun (G : ApduBuffer) (d : Device) :
    Begun messageStream G d (messageBegin G d) := by
  rw [messageBegin_eq]
  apply streamBegin_begun
  intro hfirst w hpath
  have hlength : (w.readLength G).device.tmpCtx.remainingLength = G.word w.workBuffer := rfl
  have hstart : messageStream.start (G.word w.workBuffer) =
      (lengthText (G.word w.workBuffer)).map (SIGN_MAGIC ++ ·) := rfl
  unfold messageRest
  rw [hlength]
  cases htext : lengthText (G.word w.workBuffer) with
  | none =>
    rw [htext] at hstart
    exact .diverges hfirst hpath hstart
  | some text =>
    rw [htext] at hstart
    exact .first hfirst hpath rfl hstart

/-- The first part of signing a certificate ends in one of these ways. -/
theorem certificateBegin_begun (G : ApduBuffer) (d : Device) :
    Begun certificateStream G d (certificateBegin G d) := by
  rw [certificateBegin_eq]
  apply streamBegin_begun
  intro hfirst w hpath
  unfold certificateRest
  by_cases hopened : G.byte (w.readLength G).workBuffer = 123
  · rw [if_neg (not_not.mpr hopened)]
    exact .first hfirst hpath (beq_iff_eq.mpr hopened) rfl
  · rw [if_pos hopened]
    exact .notOpened hfirst hpath (beq_eq_false_iff_ne.mpr hopened)

/-- What the first part of signing a stream leaves of the data. -/
theorem Begun.data_eq {k : Stream} {G : ApduBuffer} {d : Device} {w : Work}
    (h : Begun k G d (.inr w))
    (hlength : G.p1 = P1_FIRST → G.HasPath → 1 + 4 * G.pathLength + 4 ≤ G.lc.toNat) :
    OFFSET_CDATA ≤ w.workBuffer ∧
      w.workBuffer + w.dataLength.toNat = OFFSET_CDATA + G.lc.toNat := by
  cases h with
  | first hp1 hpath hopened htext =>
    obtain ⟨hG, hwork, -⟩ := beginPath_inr hpath
    have hdata := readLength_dataLength hpath (hlength hp1 hG)
    have hle := hlength hp1 hG
    have hbehind : G.behindPath = OFFSET_CDATA + 1 + 4 * G.pathLength := rfl
    simp only at hdata ⊢
    constructor
    · show OFFSET_CDATA ≤ _ + 4
      omega
    · show _ + 4 + _ = _
      rw [hdata, hwork]
      omega
  | more hp1 =>
    refine ⟨le_rfl, ?_⟩
    show OFFSET_CDATA + G.lc.toUInt16.toNat = _
    rw [UInt8.toNat_toUInt16]

/-- The ways in which the second part of signing a stream ends. -/
inductive Hashed (platform : Platform) (k : Stream) (G : ApduBuffer) (w : Work) :
    Ending → Prop where
  | wrongP2 (hp2 : G.p2 ≠ 0) :
      Hashed platform k G w (.throw [] HW_INCORRECT_P1_P2 w.device)
  | tooLong (hp2 : G.p2 = 0) (hlong : w.device.tmpCtx.remainingLength < w.dataLength.toUInt32) :
      Hashed platform k G w (.throw [] HW_NOT_ENOUGH_MEMORY_SPACE w.device)
  | outOfBounds (hp2 : G.p2 = 0) (hbound : 260 < w.workBuffer + w.dataLength.toNat) :
      Hashed platform k G w (.stuck .outOfBounds)
  | notClosed (hp2 : G.p2 = 0) (hlast : w.dataLength.toUInt32 = w.device.tmpCtx.remainingLength)
      (hbound : w.workBuffer + w.dataLength.toNat ≤ 260)
      (hclosed : k.closed (w.lastByte G) = false) :
      Hashed platform k G w (.throw [] HW_INCORRECT_DATA (w.hash G))
  | complete (hp2 : G.p2 = 0) (hlast : w.dataLength.toUInt32 = w.device.tmpCtx.remainingLength)
      (hbound : w.workBuffer + w.dataLength.toNat ≤ 260)
      (hclosed : k.closed (w.lastByte G) = true) :
      Hashed platform k G w (.review k.flow ((w.hash G).showHash platform))
  | incomplete (hp2 : G.p2 = 0) (hmore : w.dataLength.toUInt32 < w.device.tmpCtx.remainingLength)
      (hbound : w.workBuffer + w.dataLength.toNat ≤ 260) :
      Hashed platform k G w (.throw [] HW_OK (w.hash G))

/-- The second part ends in one of these ways. -/
theorem hashPayload_hashed (platform : Platform) (k : Stream) (G : ApduBuffer) (w : Work) :
    Hashed platform k G w (hashPayload platform k.flow k.closed G w) := by
  have hremaining : w.device.tmpCtx.remainingLength - w.dataLength.toUInt32 = 0 ↔
      w.dataLength.toUInt32 = w.device.tmpCtx.remainingLength := by
    rw [UInt32.sub_eq_iff_eq_add, UInt32.zero_add, eq_comm]
  unfold hashPayload
  dsimp only
  by_cases hp2 : G.p2 = 0
  · rw [if_neg (not_not.mpr hp2)]
    by_cases hlong : w.device.tmpCtx.remainingLength < w.dataLength.toUInt32
    · rw [if_pos hlong]
      exact .tooLong hp2 hlong
    · rw [if_neg hlong]
      by_cases hbound : 260 < w.workBuffer + w.dataLength.toNat
      · rw [if_pos hbound]
        exact .outOfBounds hp2 hbound
      · rw [if_neg hbound]
        have hin := Nat.le_of_not_lt hbound
        by_cases hlast : w.dataLength.toUInt32 = w.device.tmpCtx.remainingLength
        · rw [if_pos (hremaining.mpr hlast)]
          cases hclosed : k.closed (w.lastByte G) with
          | false =>
            rw [if_pos (by rw [Work.lastByte] at hclosed; rw [hclosed]; rfl)]
            exact .notClosed hp2 hlast hin hclosed
          | true =>
            rw [if_neg (by rw [Work.lastByte] at hclosed; rw [hclosed]; decide)]
            exact .complete hp2 hlast hin hclosed
        · rw [if_neg (mt hremaining.mp hlast)]
          exact .incomplete hp2 (UInt32.lt_iff_le_and_ne.mpr ⟨UInt32.not_lt.mp hlong, hlast⟩) hin
  · rw [if_pos hp2]
    exact .wrongP2 hp2

/-- It ends regularly. -/
theorem Hashed.regular {platform : Platform} {k : Stream} {G : ApduBuffer} {w : Work}
    {ending : Ending} (h : Hashed platform k G w ending) : ending.Regular := by
  cases h
  case outOfBounds => trivial
  case complete => trivial
  all_goals exact regular_throw (by decide)

/-- It leaves the parser alone. -/
theorem Hashed.keepsParser {platform : Platform} {k : Stream} {G : ApduBuffer} {w : Work}
    {ending : Ending} (h : Hashed platform k G w ending) {a : Answer} {d' : Device}
    (ha : ending.answer? = some (a, d')) : w.device.KeepsParser d' := by
  cases h <;> cases ha <;> rfl

/-- Hashing no data changes nothing. -/
theorem Work.hash_nil (G : ApduBuffer) {w : Work} (h : w.dataLength = 0) :
    (w.hash G).blake2b = w.device.blake2b ∧
      (w.hash G).tmpCtx.remainingLength = w.device.tmpCtx.remainingLength := by
  constructor
  · show w.device.blake2b ++ G.bytes w.workBuffer w.dataLength.toNat = w.device.blake2b
    rw [h]
    exact List.append_nil _
  · show w.device.tmpCtx.remainingLength - w.dataLength.toUInt32 = _
    rw [h]
    exact UInt32.sub_zero _

/-- The second part changes neither the hash nor the remaining length, unless it is given data
that are not too many. -/
theorem Hashed.nothing {platform : Platform} {k : Stream} {G : ApduBuffer} {d : Device}
    {ending : Ending} (h : Hashed platform k G ⟨d, OFFSET_CDATA, G.lc.toUInt16⟩ ending)
    (hnot : ¬(G.p2 = 0 ∧ 0 < G.lc ∧ G.lc.toUInt32 ≤ d.tmpCtx.remainingLength)) {a : Answer}
    {d' : Device} (ha : ending.answer? = some (a, d')) :
    d'.blake2b = d.blake2b ∧ d'.tmpCtx.remainingLength = d.tmpCtx.remainingLength := by
  have hhash (hp2 : G.p2 = 0) (hle : G.lc.toUInt16.toUInt32 ≤ d.tmpCtx.remainingLength) :=
    Work.hash_nil G (w := ⟨d, OFFSET_CDATA, G.lc.toUInt16⟩) <| ApduBuffer.lc_eq_zero fun hlc =>
      hnot ⟨hp2, hlc, G.lc_toUInt32 ▸ hle⟩
  cases h with
  | wrongP2 =>
    cases ha
    exact ⟨rfl, rfl⟩
  | tooLong =>
    cases ha
    exact ⟨rfl, rfl⟩
  | outOfBounds => cases ha
  | notClosed hp2 hlast =>
    cases ha
    exact hhash hp2 (UInt32.le_of_eq hlast)
  | complete hp2 hlast =>
    cases ha
    exact hhash hp2 (UInt32.le_of_eq hlast)
  | incomplete hp2 hmore =>
    cases ha
    exact hhash hp2 (UInt32.le_of_lt hmore)

/-- The ways in which signing a stream ends. -/
inductive StreamEnds (platform : Platform) (k : Stream) (G : ApduBuffer) (d : Device) :
    Ending → Prop where
  | notBegun {ending : Ending} : Begun k G d (.inl ending) → StreamEnds platform k G d ending
  | begun {w : Work} {ending : Ending} : Begun k G d (.inr w) → Hashed platform k G w ending →
      StreamEnds platform k G d ending

/-- Signing a message. -/
theorem handleSignPersonalMessage_ends (platform : Platform) (G : ApduBuffer) (d : Device) :
    StreamEnds platform messageStream G d (handleSignPersonalMessage platform G d) := by
  have hbegun := messageBegin_begun G d
  unfold handleSignPersonalMessage
  cases hbegin : messageBegin G d with
  | inl ending => exact .notBegun (hbegin ▸ hbegun)
  | inr w => exact .begun (hbegin ▸ hbegun) (hashPayload_hashed platform messageStream G w)

/-- Signing a certificate. -/
theorem handleSignCertificate_ends (platform : Platform) (G : ApduBuffer) (d : Device) :
    StreamEnds platform certificateStream G d (handleSignCertificate platform G d) := by
  have hbegun := certificateBegin_begun G d
  unfold handleSignCertificate
  cases hbegin : certificateBegin G d with
  | inl ending => exact .notBegun (hbegin ▸ hbegun)
  | inr w => exact .begun (hbegin ▸ hbegun) (hashPayload_hashed platform certificateStream G w)

/-- It ends regularly. -/
theorem StreamEnds.regular {platform : Platform} {k : Stream} {G : ApduBuffer} {d : Device}
    {ending : Ending} (h : StreamEnds platform k G d ending) : ending.Regular := by
  cases h with
  | notBegun hbegun =>
    cases hbegun
    case diverges => trivial
    all_goals exact regular_throw (by decide)
  | begun _ hhashed => exact hhashed.regular

/-- The first part leaves the parser alone when it goes on. -/
theorem Begun.keepsParser {k : Stream} {G : ApduBuffer} {d : Device} {w : Work}
    (h : Begun k G d (.inr w)) : d.KeepsParser w.device := by
  cases h with
  | first hp1 hpath hopened htext =>
    have hdevice := (beginPath_inr hpath).2.2.2.2
    simp only [Work.readLength, Device.KeepsParser]
    rw [hdevice]
    rfl
  | more hp1 => rfl

/-- Signing a stream leaves the parser alone. -/
theorem StreamEnds.keepsParser {platform : Platform} {k : Stream} {G : ApduBuffer} {d : Device}
    {ending : Ending} (h : StreamEnds platform k G d ending) {a : Answer} {d' : Device}
    (ha : ending.answer? = some (a, d')) : d.KeepsParser d' := by
  cases h with
  | notBegun hbegun =>
    cases hbegun with
    | noPath => cases ha; rfl
    | notOpened hp1 hpath hopened =>
      have hdevice := (beginPath_inr hpath).2.2.2.2
      cases ha
      simp only [Work.readLength, Device.KeepsParser]
      rw [hdevice]
      rfl
    | diverges => cases ha
    | wrongP1 => cases ha; rfl
  | begun hbegun hhashed => exact hbegun.keepsParser.trans (hhashed.keepsParser ha)

/-- `P1_FIRST` initialises the parser, and nothing of it is computed before. -/
theorem signBegin_first {G : ApduBuffer} {d : Device} {w : Work} (hp1 : G.p1 = P1_FIRST)
    (h : signBegin G d = .inr w) :
    G.HasPath ∧ w.workBuffer = G.behindPath ∧
      w.dataLength.toNat = G.lc.toNat - (1 + 4 * G.pathLength) ∧ w.device.tmpCtx.path = G.path ∧
      w.device.tx = initTx (d.setClauses ⟨0, false⟩ .zero).tx.env ∧
      w.device.feeComputationContext = none ∧ w.device.session = d.session + 1 := by
  unfold signBegin at h
  rw [if_pos hp1] at h
  cases hpath : beginPath G (d.setClauses ⟨0, false⟩ .zero) with
  | inl ending =>
    rw [hpath] at h
    cases h
  | inr w' =>
    obtain ⟨hG, hwork, hdata, hwords, hdevice⟩ := beginPath_inr hpath
    rw [hpath] at h
    cases h
    refine ⟨hG, hwork, hdata, hwords, ?_, rfl, ?_⟩
    · show initTx w'.device.tx.env = _
      rw [hdevice]
    · show w'.device.session + 1 = _
      rw [hdevice]
      rfl

/-- `P1_MORE` goes on with what is there. -/
theorem signBegin_more {G : ApduBuffer} (hp1 : G.p1 = P1_MORE) (d : Device) :
    signBegin G d = .inr ⟨d, OFFSET_CDATA, G.lc.toUInt16⟩ := by
  unfold signBegin
  rw [if_neg (by rw [hp1]; decide), if_neg (not_not.mpr hp1)]

/-- There is no other way to begin. -/
theorem signBegin_p1 {G : ApduBuffer} {d : Device} {w : Work} (h : signBegin G d = .inr w) :
    G.p1 = P1_FIRST ∨ G.p1 = P1_MORE := by
  unfold signBegin at h
  by_cases hfirst : G.p1 = P1_FIRST
  · exact .inl hfirst
  · rw [if_neg hfirst] at h
    by_cases hmore : G.p1 = P1_MORE
    · exact .inr hmore
    · rw [if_pos hmore] at h
      cases h

/-- Without a beginning there is an error. -/
theorem signBegin_inl {G : ApduBuffer} {d : Device} {ending : Ending}
    (h : signBegin G d = .inl ending) :
    ∃ sw d', sw &&& ERROR_TYPE_MASK = ERROR_TYPE_HW ∧ ending = .throw [] sw d' := by
  unfold signBegin at h
  split_ifs at h
  · cases hpath : beginPath G (d.setClauses ⟨0, false⟩ .zero) with
    | inl ending' =>
      obtain ⟨-, hending⟩ := beginPath_inl hpath
      rw [hpath] at h
      cases h
      exact ⟨_, _, by decide, hending⟩
    | inr w =>
      rw [hpath] at h
      cases h
  · cases h
    exact ⟨_, _, by decide, rfl⟩

/-- The handler calls the parser on a device. -/
structure CallsParser (G : ApduBuffer) (d : Device) (w : Work) : Prop where
  begun : signBegin G d = .inr w
  initialized : signInitialized G w.device = none

/-- The checks in front of the parser find a session, fail with an error or get stuck. -/
theorem signInitialized_cases (G : ApduBuffer) (d : Device) :
    (signInitialized G d = none ∧ G.p2 = 0 ∧ d.feeComputationContext = none ∧
        d.tx.currentField ≠ .none) ∨
      (∃ sw, sw &&& ERROR_TYPE_MASK = ERROR_TYPE_HW ∧
        signInitialized G d = some (.throw [] sw d)) ∨
      ∃ e, signInitialized G d = some (.stuck e) := by
  unfold signInitialized
  by_cases hp2 : G.p2 = 0
  · rw [if_neg (not_not.mpr hp2)]
    cases hfee : d.feeComputationContext with
    | some fee =>
      dsimp only
      split_ifs
      · exact .inr (.inl ⟨_, by decide, rfl⟩)
      · exact .inr (.inr ⟨_, rfl⟩)
    | none =>
      dsimp only
      split_ifs with hfield
      · exact .inr (.inl ⟨_, by decide, rfl⟩)
      · exact .inr (.inl ⟨_, by decide, rfl⟩)
      · exact .inl ⟨rfl, hp2, rfl, hfield⟩
  · rw [if_pos hp2]
    exact .inr (.inl ⟨_, by decide, rfl⟩)

/-- What is checked before the parser is called. -/
theorem signInitialized_none {G : ApduBuffer} {d : Device} (h : signInitialized G d = none) :
    G.p2 = 0 ∧ d.feeComputationContext = none ∧ d.tx.currentField ≠ .none := by
  rcases signInitialized_cases G d with ⟨-, hpassed⟩ | ⟨sw, -, hsome⟩ | ⟨e, hsome⟩
  · exact hpassed
  · rw [hsome] at h
    cases h
  · rw [hsome] at h
    cases h

/-- The checks fail with an error. -/
theorem signInitialized_some {G : ApduBuffer} {d : Device} {ending : Ending}
    (h : signInitialized G d = some ending) :
    (∃ sw, sw &&& ERROR_TYPE_MASK = ERROR_TYPE_HW ∧ ending = .throw [] sw d) ∨
      ∃ e, ending = .stuck e := by
  rcases signInitialized_cases G d with ⟨hnone, -⟩ | ⟨sw, hsw, hsome⟩ | ⟨e, hsome⟩
  · rw [hnone] at h
    cases h
  · rw [hsome, Option.some.injEq] at h
    exact .inl ⟨sw, hsw, h.symm⟩
  · rw [hsome, Option.some.injEq] at h
    exact .inr ⟨e, h.symm⟩

/-- The device when a transaction is shown. -/
def Shown.display (shown : Shown) (fee : FeeComputationContext) (fullAddress : CharArray 43)
    (fullAmount : CharArray 50) (maxFee : CharArray 60) : Device :=
  { shown.device with
    fullAddress := fullAddress
    fullAmount := fullAmount
    maxFee := maxFee
    feeComputationContext := some fee }

/-- The ways in which signing a transaction ends. -/
inductive SignEnds (platform : Platform) (settings : Settings) (G : ApduBuffer) (d : Device) :
    Ending → Prop where
  | error {sw : UInt16} {d' : Device} (hsw : sw &&& ERROR_TYPE_MASK = ERROR_TYPE_HW) :
      SignEnds platform settings G d (.throw [] sw d')
  | stuck {e : Stuck} : SignEnds platform settings G d (.stuck e)
  | processing {w : Work} {tx : TxState} (hcall : CallsParser G d w)
      (hprocess : processTx (platform.scratch w.device.session) w.device.tx
        (G.bytes w.workBuffer w.dataLength.toNat) = .returned .processing tx) :
      SignEnds platform settings G d (.throw [] HW_OK { w.device with tx := tx })
  | review {shown : Shown} {strings : TxStrings} {fullAddress : CharArray 43}
      {fullAmount : CharArray 50} {maxFee : CharArray 60}
      (haccept : signAccept platform settings G d = .inr shown)
      (hstrings : shown.strings platform = some strings)
      (haddress : CharArray.write? 43 strings.fullAddress = some fullAddress)
      (hamount : CharArray.write? 50 strings.fullAmount = some fullAmount)
      (hfee : CharArray.write? 60 strings.maxFee = some maxFee) :
      SignEnds platform settings G d
        (.review (.transaction shown.device.dataPresent shown.device.multipleClauses)
          (shown.display strings.feeComputationContext fullAddress fullAmount maxFee))

/-- The device when the checks of a transaction are passed. -/
def Device.checked (platform : Platform) (d : Device) : Device :=
  { d with
    tmpCtx := { d.tmpCtx with hash := platform.blake2b256 d.blake2b }
    dataPresent := d.clausesContent.dataPresent
    multipleClauses := d.hasMultipleClauses }

/-- The settings refuse the transaction that was parsed. -/
def Device.refused (settings : Settings) (d : Device) : Bool :=
  d.clausesContent.dataPresent && !settings.dataAllowed ||
    d.hasMultipleClauses && !settings.multiClauseAllowed

/-- The checks refuse a transaction or pass it on. -/
theorem signChecks_cases (platform : Platform) (settings : Settings) (d : Device) :
    (d.refused settings = true ∧
      ∃ d', signChecks platform settings d = .inl (.throw [] HW_INCORRECT_DATA d')) ∨
    d.refused settings = false ∧ signChecks platform settings d = .inr (d.checked platform) := by
  by_cases hdata : (d.clausesContent.dataPresent && !settings.dataAllowed) = true
  · exact .inl ⟨Bool.or_eq_true_iff.mpr (.inl hdata), _, if_pos hdata⟩
  · by_cases hmany : (d.hasMultipleClauses && !settings.multiClauseAllowed) = true
    · exact .inl ⟨Bool.or_eq_true_iff.mpr (.inr hmany), _, (if_neg hdata).trans (if_pos hmany)⟩
    · refine .inr ⟨?_, (if_neg hdata).trans (if_neg hmany)⟩
      rw [Device.refused, Bool.or_eq_false_iff]
      exact ⟨Bool.eq_false_iff.mpr hdata, Bool.eq_false_iff.mpr hmany⟩

/-- The checks pass the device on with its hash and its flags. -/
theorem signChecks_passed {platform : Platform} {settings : Settings} {parsed checked : Device}
    (h : signChecks platform settings parsed = .inr checked) :
    checked = parsed.checked platform := by
  rcases signChecks_cases platform settings parsed with ⟨-, d', hd'⟩ | ⟨-, hpassed⟩
  · rw [hd'] at h
    cases h
  · rw [hpassed, Sum.inr.injEq] at h
    exact h.symm

/-- The parser does not come to an end of the transaction, or it does. -/
theorem signParse_cases (platform : Platform) (settings : Settings) (G : ApduBuffer) (d : Device) :
    (∃ ending, signParse platform G d = .inl ending ∧ SignEnds platform settings G d ending) ∨
    ∃ w tx, CallsParser G d w ∧
      processTx (platform.scratch w.device.session) w.device.tx
        (G.bytes w.workBuffer w.dataLength.toNat) = .returned .finished tx ∧
      signParse platform G d = .inr { w.device with tx := tx } := by
  rw [signParse]
  cases hbegin : signBegin G d with
  | inl ending =>
    obtain ⟨sw, d', hsw, rfl⟩ := signBegin_inl hbegin
    exact .inl ⟨_, rfl, .error hsw⟩
  | inr w =>
    dsimp only
    cases hinit : signInitialized G w.device with
    | some ending =>
      rcases signInitialized_some hinit with ⟨sw, hsw, rfl⟩ | ⟨e, rfl⟩
      · exact .inl ⟨_, rfl, .error hsw⟩
      · exact .inl ⟨_, rfl, .stuck⟩
    | none =>
      dsimp only
      cases hprocess : processTx (platform.scratch w.device.session) w.device.tx
          (G.bytes w.workBuffer w.dataLength.toNat) with
      | stuck e => exact .inl ⟨_, rfl, .stuck⟩
      | returned status tx =>
        cases status with
        | processing => exact .inl ⟨_, rfl, .processing ⟨hbegin, hinit⟩ hprocess⟩
        | fault => exact .inl ⟨_, rfl, .error (by decide)⟩
        | finished => exact .inr ⟨w, tx, ⟨hbegin, hinit⟩, hprocess, rfl⟩

/-- A complete transaction was parsed, checked and looked up. -/
theorem signAccept_inr {platform : Platform} {settings : Settings} {G : ApduBuffer} {d : Device}
    {shown : Shown} (h : signAccept platform settings G d = .inr shown) :
    ∃ w tx, CallsParser G d w ∧
      processTx (platform.scratch w.device.session) w.device.tx
        (G.bytes w.workBuffer w.dataLength.toNat) = .returned .finished tx ∧
      signParse platform G d = .inr { w.device with tx := tx } ∧
      shown = recognizeToken (Device.checked platform { w.device with tx := tx }) := by
  rw [signAccept] at h
  rcases signParse_cases platform settings G d with
    ⟨ending, hparse, -⟩ | ⟨w, tx, hcall, hprocess, hparse⟩
  · rw [hparse] at h
    cases h
  · refine ⟨w, tx, hcall, hprocess, hparse, ?_⟩
    rw [hparse] at h
    rcases signChecks_cases platform settings { w.device with tx := tx } with
      ⟨-, d', hrefused⟩ | ⟨-, hpassed⟩
    · simp only [hrefused] at h
      cases h
    · simp only [hpassed, Sum.inr.injEq] at h
      exact h.symm

/-- A transaction that is not accepted ends with an error, or waits for more. -/
theorem signAccept_inl {platform : Platform} {settings : Settings} {G : ApduBuffer} {d : Device}
    {ending : Ending} (h : signAccept platform settings G d = .inl ending) :
    SignEnds platform settings G d ending := by
  rw [signAccept] at h
  rcases signParse_cases platform settings G d with
    ⟨ending', hparse, hends⟩ | ⟨w, tx, -, -, hparse⟩
  · rw [hparse] at h
    cases h
    exact hends
  · rw [hparse] at h
    rcases signChecks_cases platform settings { w.device with tx := tx } with
      ⟨-, d', hrefused⟩ | ⟨-, hpassed⟩
    · simp only [hrefused, Sum.inl.injEq] at h
      rw [← h]
      exact .error (by decide)
    · simp only [hpassed] at h
      cases h

/-- Signing a transaction. -/
theorem handleSign_ends (platform : Platform) (settings : Settings) (G : ApduBuffer) (d : Device) :
    SignEnds platform settings G d (handleSign platform settings G d) := by
  unfold handleSign
  cases haccept : signAccept platform settings G d with
  | inl ending => exact signAccept_inl haccept
  | inr shown =>
    show SignEnds platform settings G d (signDisplay platform shown)
    unfold signDisplay
    cases hstrings : shown.strings platform with
    | none => exact .stuck
    | some strings =>
      cases haddress : CharArray.write? 43 strings.fullAddress with
      | none =>
        simp only [haddress]
        exact .stuck
      | some fullAddress =>
        cases hamount : CharArray.write? 50 strings.fullAmount with
        | none =>
          simp only [haddress, hamount]
          exact .stuck
        | some fullAmount =>
          cases hfee : CharArray.write? 60 strings.maxFee with
          | none =>
            simp only [haddress, hamount, hfee]
            exact .stuck
          | some maxFee =>
            simp only [haddress, hamount, hfee]
            exact .review haccept hstrings haddress hamount hfee

/-- It ends regularly. -/
theorem SignEnds.regular {platform : Platform} {settings : Settings} {G : ApduBuffer} {d : Device}
    {ending : Ending} (h : SignEnds platform settings G d ending) : ending.Regular := by
  cases h with
  | error hsw => exact .inr hsw
  | stuck => trivial
  | processing => exact .inl rfl
  | review => trivial

/-- The ways in which deriving a key ends: an error leaves everything as it was, and a key is
written over the members of `tmpCtx`. -/
inductive PublicKeyEnds (platform : Platform) (d : Device) : Ending → Prop where
  | error {sw : UInt16} (hsw : sw &&& ERROR_TYPE_MASK = ERROR_TYPE_HW) :
      PublicKeyEnds platform d (.throw [] sw d)
  | stuck {e : Stuck} : PublicKeyEnds platform d (.stuck e)
  | reply {data : List UInt8} (context : PublicKeyContext) : PublicKeyEnds platform d
      (.throw data HW_OK { d with
        tmpCtx := platform.overlay context d.tmpCtx
        publicKeyContext := context })
  | review (context : PublicKeyContext) : PublicKeyEnds platform d
      (.review .publicKey { d with
        tmpCtx := platform.overlay context d.tmpCtx
        publicKeyContext := context
        fullAddress := publicKeyAddress context.address })

/-- Deriving a key. -/
theorem handleGetPublicKey_ends (platform : Platform) (G : ApduBuffer) (d : Device) :
    PublicKeyEnds platform d (handleGetPublicKey platform G d) := by
  unfold handleGetPublicKey
  by_cases hp1 : G.p1 ≠ P1_CONFIRM ∧ G.p1 ≠ P1_NON_CONFIRM
  · rw [if_pos hp1]
    exact .error (by decide)
  · rw [if_neg hp1]
    by_cases hp2 : G.p2 ≠ P2_CHAINCODE ∧ G.p2 ≠ P2_NO_CHAINCODE
    · rw [if_pos hp2]
      exact .error (by decide)
    · rw [if_neg hp2]
      cases parseBip32Path G ⟨OFFSET_CDATA, G.lc.toUInt16, 0, Vector.replicate 10 0⟩ with
      | throw a => exact .error (by decide)
      | stuck e => exact .stuck
      | ok a =>
        dsimp only
        by_cases hconfirm : G.p1 = P1_NON_CONFIRM
        · rw [if_pos hconfirm]
          exact .reply _
        · rw [if_neg hconfirm]
          exact .review _

/-- Signing a stream shows its own flow. -/
theorem StreamEnds.flow {platform : Platform} {k : Stream} {G : ApduBuffer} {d : Device}
    {ending : Ending} (h : StreamEnds platform k G d ending) {flow : Flow} {d' : Device}
    (ha : ending.answer? = some (.review flow, d')) : flow = k.flow := by
  cases h with
  | notBegun hbegun => cases hbegun <;> cases ha
  | begun _ hhashed =>
    cases hhashed <;> cases ha
    rfl

/-- A stream that is not a transaction. -/
theorem StreamEnds.other {platform : Platform} {k : Stream} {G : ApduBuffer} {d : Device}
    {ending : Ending} (h : StreamEnds platform k G d ending)
    (hk : (Answer.review k.flow).showsTransaction = false) :
    ending.Regular ∧ ∀ a d', ending.answer? = some (a, d') →
      d.KeepsParser d' ∧ a.showsTransaction = false := by
  refine ⟨h.regular, fun a d' ha => ⟨h.keepsParser ha, ?_⟩⟩
  cases a with
  | status data sw => rfl
  | review flow => rw [h.flow ha, hk]

/-- The handler that takes a command; other commands leave the device as it is. -/
inductive Dispatched (platform : Platform) (settings : Settings) (G : ApduBuffer) (d : Device) :
    Ending → Prop where
  | publicKey (hcla : G.cla = CLA) (hins : G.ins = INS_GET_PUBLIC_KEY) :
      Dispatched platform settings G d (handleGetPublicKey platform G d)
  | transaction (hcla : G.cla = CLA) (hins : G.ins = INS_SIGN) :
      Dispatched platform settings G d (handleSign platform settings G d)
  | message (hcla : G.cla = CLA) (hins : G.ins = INS_SIGN_PERSONAL_MESSAGE) :
      Dispatched platform settings G d (handleSignPersonalMessage platform G d)
  | certificate (hcla : G.cla = CLA) (hins : G.ins = INS_SIGN_CERTIFICATE) :
      Dispatched platform settings G d (handleSignCertificate platform G d)
  | status {data : List UInt8} {sw : UInt16} (hregular : (Ending.throw data sw d).Regular)
      (hother : G.cla = CLA → G.ins ≠ INS_SIGN ∧ G.ins ≠ INS_SIGN_PERSONAL_MESSAGE ∧
        G.ins ≠ INS_SIGN_CERTIFICATE) :
      Dispatched platform settings G d (.throw data sw d)

/-- Every command is taken by one of the handlers, or by none. -/
theorem dispatch_dispatched (platform : Platform) (settings : Settings) (G : ApduBuffer)
    (d : Device) : Dispatched platform settings G d (dispatch platform settings G d) := by
  unfold dispatch
  by_cases hcla : G.cla = CLA
  · rw [if_neg (not_not.mpr hcla)]
    split_ifs with hkey hsign hconfiguration hmessage hcertificate
    · exact .publicKey hcla hkey
    · exact .transaction hcla hsign
    · refine .status (regular_throw (by decide)) fun _ => ?_
      rw [hconfiguration]
      decide
    · exact .message hcla hmessage
    · exact .certificate hcla hcertificate
    · exact .status (regular_throw (by decide)) fun _ => ⟨hsign, hmessage, hcertificate⟩
  · rw [if_pos hcla]
    exact .status (regular_throw (by decide)) fun h => absurd h hcla

/-- The commands other than `INS_SIGN` end regularly and leave the parser alone. -/
theorem dispatch_other (platform : Platform) (settings : Settings) {G : ApduBuffer}
    (hsign : ¬(G.cla = CLA ∧ G.ins = INS_SIGN)) (d : Device) :
    (dispatch platform settings G d).Regular ∧
      ∀ a d', (dispatch platform settings G d).answer? = some (a, d') →
        d.KeepsParser d' ∧ a.showsTransaction = false := by
  have hdispatched := dispatch_dispatched platform settings G d
  generalize dispatch platform settings G d = ending at hdispatched ⊢
  cases hdispatched with
  | publicKey =>
    have hends := handleGetPublicKey_ends platform G d
    generalize handleGetPublicKey platform G d = ending at hends ⊢
    cases hends with
    | error hsw => exact ⟨.inr hsw, by rintro a d' ⟨⟩; exact ⟨rfl, rfl⟩⟩
    | stuck => exact ⟨trivial, by rintro a d' ⟨⟩⟩
    | reply context => exact ⟨.inl rfl, by rintro a d' ⟨⟩; exact ⟨rfl, rfl⟩⟩
    | review context => exact ⟨trivial, by rintro a d' ⟨⟩; exact ⟨rfl, rfl⟩⟩
  | transaction hcla hins => exact absurd ⟨hcla, hins⟩ hsign
  | message => exact (handleSignPersonalMessage_ends platform G d).other rfl
  | certificate => exact (handleSignCertificate_ends platform G d).other rfl
  | status hregular => exact ⟨hregular, by rintro a d' ⟨⟩; exact ⟨rfl, rfl⟩⟩

/-- The dispatch to the handler of transactions. -/
theorem dispatch_sign (platform : Platform) (settings : Settings) {G : ApduBuffer}
    (hcla : G.cla = CLA) (hins : G.ins = INS_SIGN) (d : Device) :
    dispatch platform settings G d = handleSign platform settings G d := by
  unfold dispatch
  rw [if_neg (not_not.mpr hcla), if_neg (by rw [hins]; decide), if_pos hins]

/-- Every command ends regularly. -/
theorem dispatch_regular (platform : Platform) (settings : Settings) (G : ApduBuffer) (d : Device) :
    (dispatch platform settings G d).Regular := by
  by_cases hsign : G.cla = CLA ∧ G.ins = INS_SIGN
  · rw [dispatch_sign platform settings hsign.1 hsign.2]
    exact (handleSign_ends platform settings G d).regular
  · exact (dispatch_other platform settings hsign d).1

/-- **What `handleApdu` adds to the handlers**: an error wipes the contexts of the parser, and
there are no internal errors. -/
theorem handleApdu_eq (platform : Platform) (settings : Settings) (G : ApduBuffer) (d : Device) :
    handleApdu platform settings G d = (dispatch platform settings G d).answer?.map fun r =>
      (r.1, if r.1.isError then r.2.wipe else r.2) := by
  have hregular := dispatch_regular platform settings G d
  unfold handleApdu
  generalize dispatch platform settings G d = ending at hregular ⊢
  cases ending with
  | stuck e => rfl
  | review flow d' => rfl
  | throw data sw d' =>
    rcases (hregular : sw = HW_OK ∨ _) with rfl | herror
    · rfl
    · have hanswer : (Answer.status data sw).isError = true := decide_eq_true herror
      simp only [herror, if_true, Ending.answer?, Option.map_some, hanswer]

end AppVechain
