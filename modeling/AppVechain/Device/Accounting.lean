import AppVechain.Device.Certificate
import AppVechain.Device.StaleInput

/-!
# Accounting for the payload

The signing handlers take `dataLength` down in stages: `parseBip32Path` for the
path, `handleSignPersonalMessage` and `handleSignCertificate` for the length of
the stream. The handlers are repeated here with a record of each subtraction and of
each range of bytes that they read. They account for the payload unless the data end
before what is read of them without a check.
-/

namespace AppVechain

/-- What is done with the payload: `dataLength -= amount`, or bytes of the buffer are read. -/
inductive PayloadUse
  | decrement (dataLength amount : UInt16)
  | read (start length : ℕ)
  deriving DecidableEq

/-- The subtraction does not wrap, and the bytes are data of the command. -/
def PayloadUse.Accounted (G : ApduBuffer) : PayloadUse → Prop
  | .decrement dataLength amount => amount ≤ dataLength
  | .read start length => OFFSET_CDATA ≤ start ∧ start + length ≤ OFFSET_CDATA + G.lc.toNat

/-- The result of some statements, and the uses of the payload in them. -/
structure Logged (α : Type) where
  uses : List PayloadUse
  result : α

variable {α β : Type}

/-- Statements that do not use the payload. -/
def Logged.pure (result : α) : Logged α := ⟨[], result⟩

/-- A use of the payload before other statements. -/
def Logged.after (payloadUse : PayloadUse) (x : Logged α) : Logged α :=
  ⟨payloadUse :: x.uses, x.result⟩

/-- Statements one after the other. -/
def Logged.bind (x : Logged α) (f : α → Logged β) : Logged β :=
  ⟨x.uses ++ (f x.result).uses, (f x.result).result⟩

/-- All uses are accounted for. -/
def Logged.Accounted (G : ApduBuffer) (x : Logged α) : Prop := ∀ u ∈ x.uses, u.Accounted G

/-- The loop of `parseBip32Path`. -/
def readPathLogged (G : ApduBuffer) : ℕ → ℕ → PathArgs → Logged PathArgs
  | 0, _, a => .pure a
  | n + 1, i, a =>
    .after (.read a.workBuffer 4) <| .after (.decrement a.dataLength 4) <|
      readPathLogged G n (i + 1) { a with
        bip32Path := a.bip32Path.setIfInBounds i (G.word a.workBuffer)
        workBuffer := a.workBuffer + 4
        dataLength := a.dataLength - 4 }

/-- `parseBip32Path` -/
def parseBip32PathLogged (G : ApduBuffer) (a : PathArgs) : Logged (Exec PathArgs) :=
  .after (.read a.workBuffer 1) <|
    let a := { a with pathLength := G.byte a.workBuffer }
    if a.pathLength < 1 ∨ a.pathLength.toNat > MAX_BIP32_PATH ∨
        a.dataLength.toNat < 1 + a.pathLength.toNat * 4 then .pure (.throw a)
    else
      .after (.decrement a.dataLength 1) <|
        let a := { a with workBuffer := a.workBuffer + 1, dataLength := a.dataLength - 1 }
        if a.dataLength.toNat < a.pathLength.toNat then .pure (.throw a)
        else (readPathLogged G a.pathLength.toNat 0 a).bind fun a => .pure (.ok a)

/-- The call of `parseBip32Path` for `P1_FIRST`. -/
def beginPathLogged (G : ApduBuffer) (d : Device) : Logged (Ending ⊕ Work) :=
  (parseBip32PathLogged G
    ⟨OFFSET_CDATA, G.lc.toUInt16, d.tmpCtx.pathLength, d.tmpCtx.bip32Path⟩).bind fun
  | .ok a => .pure (.inr ⟨d.setPath a, a.workBuffer, a.dataLength⟩)
  | .throw a => .pure (.inl (.throw [] HW_INCORRECT_DATA (d.setPath a)))
  | .stuck e => .pure (.inl (.stuck e))

/-- The first part of `handleSignPersonalMessage`. -/
def messageBeginLogged (G : ApduBuffer) (d : Device) : Logged (Ending ⊕ Work) :=
  if G.p1 = P1_FIRST then
    (beginPathLogged G d).bind fun
    | .inl ending => .pure (.inl ending)
    | .inr w =>
      .after (.read w.workBuffer 4) <| .after (.decrement w.dataLength 4) <|
        let w := w.readLength G
        match lengthText w.device.tmpCtx.remainingLength with
        | none => .pure (.inl (.stuck .diverges))
        | some text => .pure (.inr { w with device := w.device.setBlake2b (SIGN_MAGIC ++ text) })
  else if G.p1 ≠ P1_MORE then .pure (.inl (.throw [] HW_INCORRECT_P1_P2 d))
  else .pure (.inr ⟨d, OFFSET_CDATA, G.lc.toUInt16⟩)

/-- The first part of `handleSignCertificate`. -/
def certificateBeginLogged (G : ApduBuffer) (d : Device) : Logged (Ending ⊕ Work) :=
  if G.p1 = P1_FIRST then
    (beginPathLogged G d).bind fun
    | .inl ending => .pure (.inl ending)
    | .inr w =>
      .after (.read w.workBuffer 4) <| .after (.decrement w.dataLength 4) <|
        let w := w.readLength G
        .after (.read w.workBuffer 1) <|
          if G.byte w.workBuffer ≠ 123 then .pure (.inl (.throw [] HW_INCORRECT_DATA w.device))
          else .pure (.inr { w with device := w.device.setBlake2b [] })
  else if G.p1 ≠ P1_MORE then .pure (.inl (.throw [] HW_INCORRECT_P1_P2 d))
  else .pure (.inr ⟨d, OFFSET_CDATA, G.lc.toUInt16⟩)

/-- The second part of both handlers. Only that of certificates tests the last byte. -/
def hashPayloadLogged (platform : Platform) (flow : Flow) (tests : Bool) (closed : UInt8 → Bool)
    (G : ApduBuffer) (w : Work) : Logged Ending :=
  let remainingLength := w.device.tmpCtx.remainingLength
  if G.p2 ≠ 0 then .pure (.throw [] HW_INCORRECT_P1_P2 w.device)
  else if w.dataLength.toUInt32 > remainingLength then
    .pure (.throw [] HW_NOT_ENOUGH_MEMORY_SPACE w.device)
  else
    .after (.read w.workBuffer w.dataLength.toNat) <|
      if w.workBuffer + w.dataLength.toNat > 260 then .pure (.stuck .outOfBounds)
      else if remainingLength - w.dataLength.toUInt32 = 0 ∧ tests then
        .after (.read (w.workBuffer + w.dataLength.toNat - 1) 1) <|
          .pure (hashPayload platform flow closed G w)
      else .pure (hashPayload platform flow closed G w)

/-- `handleSignPersonalMessage` -/
def handleSignPersonalMessageLogged (platform : Platform) (G : ApduBuffer) (d : Device) :
    Logged Ending :=
  (messageBeginLogged G d).bind fun
  | .inl ending => .pure ending
  | .inr w => hashPayloadLogged platform .message false (fun _ => true) G w

/-- `handleSignCertificate` -/
def handleSignCertificateLogged (platform : Platform) (G : ApduBuffer) (d : Device) :
    Logged Ending :=
  (certificateBeginLogged G d).bind fun
  | .inl ending => .pure ending
  | .inr w => hashPayloadLogged platform .certificate true (· == 125) G w

/-- The first part of `handleSign`. -/
def signBeginLogged (G : ApduBuffer) (d : Device) : Logged (Ending ⊕ Work) :=
  if G.p1 = P1_FIRST then
    (beginPathLogged G (d.setClauses ⟨0, false⟩ .zero)).bind fun
    | .inl ending => .pure (.inl ending)
    | .inr w => .pure (.inr { w with device := { w.device with
        dataPresent := false
        tx := initTx w.device.tx.env
        feeComputationContext := none
        session := w.device.session + 1 } })
  else if G.p1 ≠ P1_MORE then .pure (.inl (.throw [] HW_INCORRECT_P1_P2 d))
  else .pure (.inr ⟨d, OFFSET_CDATA, G.lc.toUInt16⟩)

/-- `handleSign`, which reads the payload when it calls the parser. -/
def handleSignLogged (platform : Platform) (settings : Settings) (G : ApduBuffer) (d : Device) :
    Logged Ending :=
  (signBeginLogged G d).bind fun
  | .inl ending => .pure ending
  | .inr w =>
    match signInitialized G w.device with
    | some ending => .pure ending
    | none => .after (.read w.workBuffer w.dataLength.toNat) <|
      .pure (handleSign platform settings G d)

/-- The three signing instructions. -/
def dispatchLogged (platform : Platform) (settings : Settings) (G : ApduBuffer) (d : Device) :
    Logged Ending :=
  if G.ins = INS_SIGN then handleSignLogged platform settings G d
  else if G.ins = INS_SIGN_PERSONAL_MESSAGE then handleSignPersonalMessageLogged platform G d
  else if G.ins = INS_SIGN_CERTIFICATE then handleSignCertificateLogged platform G d
  else .pure (dispatch platform settings G d)

/-- The record is only added: the loop computes the same. -/
theorem readPathLogged_result (G : ApduBuffer) (n i : ℕ) (a : PathArgs) :
    (readPathLogged G n i a).result = readPath G n i a := by
  induction n generalizing i a with
  | zero => rfl
  | succ n ih => exact ih _ _

theorem parseBip32PathLogged_result (G : ApduBuffer) (a : PathArgs) :
    (parseBip32PathLogged G a).result = parseBip32Path G a := by
  simp only [parseBip32PathLogged, parseBip32Path, Logged.after]
  split
  · rfl
  · simp only
    split
    · rfl
    · exact congrArg Exec.ok (readPathLogged_result _ _ _ _)

theorem beginPathLogged_result (G : ApduBuffer) (d : Device) :
    (beginPathLogged G d).result = beginPath G d := by
  simp only [beginPathLogged, beginPath, Logged.bind, parseBip32PathLogged_result]
  cases parseBip32Path G _ <;> rfl

theorem messageBeginLogged_result (G : ApduBuffer) (d : Device) :
    (messageBeginLogged G d).result = messageBegin G d := by
  unfold messageBeginLogged messageBegin
  split
  · simp only [Logged.bind, beginPathLogged_result]
    cases beginPath G d with
    | inl ending => rfl
    | inr w =>
      simp only [Logged.after]
      cases lengthText (w.readLength G).device.tmpCtx.remainingLength <;> rfl
  · split <;> rfl

theorem certificateBeginLogged_result (G : ApduBuffer) (d : Device) :
    (certificateBeginLogged G d).result = certificateBegin G d := by
  unfold certificateBeginLogged certificateBegin
  split
  · simp only [Logged.bind, beginPathLogged_result]
    cases beginPath G d with
    | inl ending => rfl
    | inr w =>
      simp only [Logged.after]
      split <;> rfl
  · split <;> rfl

theorem signBeginLogged_result (G : ApduBuffer) (d : Device) :
    (signBeginLogged G d).result = signBegin G d := by
  unfold signBeginLogged signBegin
  split
  · simp only [Logged.bind, beginPathLogged_result]
    cases beginPath G (d.setClauses ⟨0, false⟩ .zero) <;> rfl
  · split <;> rfl

theorem hashPayloadLogged_result (platform : Platform) (flow : Flow) (tests : Bool)
    (closed : UInt8 → Bool) (G : ApduBuffer) (w : Work) :
    (hashPayloadLogged platform flow tests closed G w).result =
      hashPayload platform flow closed G w := by
  unfold hashPayloadLogged
  by_cases hp2 : G.p2 ≠ 0
  · rw [if_pos hp2, hashPayload, if_pos hp2]
    rfl
  · by_cases hlong : w.dataLength.toUInt32 > w.device.tmpCtx.remainingLength
    · rw [if_neg hp2, if_pos hlong, hashPayload, if_neg hp2, if_pos hlong]
      rfl
    · rw [if_neg hp2, if_neg hlong]
      by_cases hbound : w.workBuffer + w.dataLength.toNat > 260
      · rw [if_pos hbound, hashPayload, if_neg hp2, if_neg hlong, if_pos hbound]
        rfl
      · rw [if_neg hbound]
        simp only [Logged.after]
        split <;> rfl

theorem handleSignPersonalMessageLogged_result (platform : Platform) (G : ApduBuffer) (d : Device) :
    (handleSignPersonalMessageLogged platform G d).result =
      handleSignPersonalMessage platform G d := by
  simp only [handleSignPersonalMessageLogged, handleSignPersonalMessage, Logged.bind,
    messageBeginLogged_result]
  cases messageBegin G d with
  | inl ending => rfl
  | inr w => exact hashPayloadLogged_result _ _ _ _ _ _

theorem handleSignCertificateLogged_result (platform : Platform) (G : ApduBuffer) (d : Device) :
    (handleSignCertificateLogged platform G d).result = handleSignCertificate platform G d := by
  simp only [handleSignCertificateLogged, handleSignCertificate, Logged.bind,
    certificateBeginLogged_result]
  cases certificateBegin G d with
  | inl ending => rfl
  | inr w => exact hashPayloadLogged_result _ _ _ _ _ _

theorem handleSignLogged_result (platform : Platform) (settings : Settings) (G : ApduBuffer)
    (d : Device) : (handleSignLogged platform settings G d).result =
      handleSign platform settings G d := by
  simp only [handleSignLogged, Logged.bind, signBeginLogged_result]
  cases hbegin : signBegin G d with
  | inl ending =>
    simp only [handleSign, signAccept, signParse, hbegin]
    rfl
  | inr w =>
    cases hinit : signInitialized G w.device with
    | none => simp only [hinit]; rfl
    | some ending =>
      simp only [handleSign, signAccept, signParse, hbegin, hinit]
      rfl

/-- **The record is only added**: the handlers end as they do without it. -/
theorem dispatchLogged_result (platform : Platform) (settings : Settings) {G : ApduBuffer}
    (hcla : G.cla = CLA) (d : Device) :
    (dispatchLogged platform settings G d).result = dispatch platform settings G d := by
  unfold dispatchLogged
  by_cases hsign : G.ins = INS_SIGN
  · rw [if_pos hsign, dispatch_sign platform settings hcla hsign, handleSignLogged_result]
  by_cases hmessage : G.ins = INS_SIGN_PERSONAL_MESSAGE
  · rw [if_neg hsign, if_pos hmessage, dispatch_message platform settings hcla hmessage,
      handleSignPersonalMessageLogged_result]
  by_cases hcertificate : G.ins = INS_SIGN_CERTIFICATE
  · rw [if_neg hsign, if_neg hmessage, if_pos hcertificate,
      dispatch_certificate platform settings hcla hcertificate, handleSignCertificateLogged_result]
  · rw [if_neg hsign, if_neg hmessage, if_neg hcertificate]
    rfl

variable {G : ApduBuffer}

@[simp] theorem Logged.accounted_pure (result : α) : (Logged.pure result).Accounted G := nofun

@[simp] theorem Logged.accounted_after {u : PayloadUse} {x : Logged α} :
    (x.after u).Accounted G ↔ u.Accounted G ∧ x.Accounted G := List.forall_mem_cons

@[simp] theorem Logged.accounted_bind {x : Logged α} {f : α → Logged β} :
    (x.bind f).Accounted G ↔ x.Accounted G ∧ (f x.result).Accounted G := List.forall_mem_append

/-- Reading the words of a path stays within the data that are left. -/
theorem readPathLogged_accounted (n i : ℕ) {a : PathArgs} (hdata : 4 * n ≤ a.dataLength.toNat)
    (hstart : OFFSET_CDATA ≤ a.workBuffer)
    (hend : a.workBuffer + a.dataLength.toNat ≤ OFFSET_CDATA + G.lc.toNat) :
    (readPathLogged G n i a).Accounted G := by
  induction n generalizing i a with
  | zero => exact Logged.accounted_pure a
  | succ n ih =>
    have hle : (4 : UInt16) ≤ a.dataLength := UInt16.le_iff_toNat_le.mpr (show 4 ≤ _ by omega)
    have hsub : (a.dataLength - 4).toNat = a.dataLength.toNat - 4 := UInt16.toNat_sub_of_le _ _ hle
    rw [readPathLogged, Logged.accounted_after, Logged.accounted_after]
    refine ⟨⟨hstart, by omega⟩, hle, ih (i + 1) ?_ ?_ ?_⟩
    · rw [hsub]
      omega
    · exact hstart.trans (Nat.le_add_right _ 4)
    · show a.workBuffer + 4 + (a.dataLength - 4).toNat ≤ _
      rw [hsub]
      omega

/-- Reading a path accounts for the payload when there is a byte that gives its length. -/
theorem beginPathLogged_accounted (d : Device) :
    (beginPathLogged G d).Accounted G ↔ 1 ≤ G.lc.toNat := by
  have hlc : G.lc.toUInt16.toNat = G.lc.toNat := UInt8.toNat_toUInt16 G.lc
  have hfirst : (PayloadUse.read OFFSET_CDATA 1).Accounted G ↔ 1 ≤ G.lc.toNat := by
    show OFFSET_CDATA ≤ OFFSET_CDATA ∧ OFFSET_CDATA + 1 ≤ OFFSET_CDATA + G.lc.toNat ↔ _
    omega
  rw [beginPathLogged, Logged.accounted_bind, parseBip32PathLogged, Logged.accounted_after, hfirst]
  constructor
  · rintro ⟨⟨hpos, -⟩, -⟩
    exact hpos
  · intro hpos
    have hle : (1 : UInt16) ≤ G.lc.toUInt16 := UInt16.le_iff_toNat_le.mpr (show 1 ≤ _ by omega)
    have hsub : (G.lc.toUInt16 - 1).toNat = G.lc.toNat - 1 := by
      rw [UInt16.toNat_sub_of_le _ _ hle, hlc]
      rfl
    refine ⟨⟨hpos, ?_⟩, ?_⟩
    · dsimp only
      split
      · exact Logged.accounted_pure _
      case isFalse hpath =>
        rw [not_or, not_or, hlc] at hpath
        rw [Logged.accounted_after]
        refine ⟨hle, ?_⟩
        split
        · exact Logged.accounted_pure _
        · rw [Logged.accounted_bind]
          refine ⟨readPathLogged_accounted _ _ ?_ (Nat.le_succ _) ?_, Logged.accounted_pure _⟩
          · show 4 * (G.byte OFFSET_CDATA).toNat ≤ (G.lc.toUInt16 - 1).toNat
            have hlength : ¬G.lc.toNat < 1 + (G.byte OFFSET_CDATA).toNat * 4 := hpath.2.2
            omega
          · show OFFSET_CDATA + 1 + (G.lc.toUInt16 - 1).toNat ≤ _
            omega
    · split <;> exact Logged.accounted_pure _

/-- Reading the length of a stream accounts for the payload when there is room for it. -/
theorem lengthUses_accounted {d : Device} {w : Work} (hpath : beginPath G d = .inr w) :
    (PayloadUse.read w.workBuffer 4).Accounted G ∧
        (PayloadUse.decrement w.dataLength 4).Accounted G ↔
      1 + 4 * G.pathLength + 4 ≤ G.lc.toNat := by
  obtain ⟨hG, hwork, hdata, -⟩ := beginPath_inr hpath
  have hbehind : w.workBuffer = OFFSET_CDATA + 1 + 4 * G.pathLength := hwork
  have hle := hG.2.2
  constructor
  · rintro ⟨⟨-, hread⟩, -⟩
    omega
  · intro hroom
    refine ⟨⟨by omega, by omega⟩, UInt16.le_iff_toNat_le.mpr (show 4 ≤ _ by omega)⟩

/-- The first part of a handler accounts for the payload when the byte that gives the length of the
path is there, and `P` holds that makes up for what is read behind a path. -/
theorem beginUses_accounted {d : Device} {first : Ending ⊕ Work → Logged α} {more : Logged α}
    {P : Prop} (hmore : more.Accounted G) (hrefused : ∀ ending, (first (.inl ending)).Accounted G)
    (hread : ∀ w, beginPath G d = .inr w → ((first (.inr w)).Accounted G ↔ P)) :
    (if G.p1 = P1_FIRST then (beginPathLogged G d).bind first else more).Accounted G ↔
      (G.p1 = P1_FIRST → 1 ≤ G.lc.toNat ∧ (G.HasPath → P)) := by
  by_cases hp1 : G.p1 = P1_FIRST
  · rw [if_pos hp1, Logged.accounted_bind, beginPathLogged_accounted, beginPathLogged_result]
    simp only [hp1, true_imp_iff]
    refine and_congr_right fun _ => ?_
    by_cases hG : G.HasPath
    · obtain ⟨a, hpath, -⟩ := beginPath_of_hasPath hG d
      rw [hpath, hread _ hpath]
      exact ⟨fun h _ => h, fun h => h hG⟩
    · rw [beginPath_of_not_hasPath hG]
      exact iff_of_true (hrefused _) fun h => absurd h hG
  · rw [if_neg hp1]
    exact iff_of_true hmore fun h => absurd h hp1

/-- Where a handler goes on without a path. -/
theorem otherP1_accounted {ending : Ending} {w : Work} :
    (if G.p1 ≠ P1_MORE then Logged.pure (.inl ending) else .pure (.inr w) :
      Logged (Ending ⊕ Work)).Accounted G := by
  split
  · exact Logged.accounted_pure _
  · exact Logged.accounted_pure _

theorem messageBeginLogged_accounted (d : Device) :
    (messageBeginLogged G d).Accounted G ↔ (G.p1 = P1_FIRST → 1 ≤ G.lc.toNat ∧
      (G.HasPath → 1 + 4 * G.pathLength + 4 ≤ G.lc.toNat)) := by
  apply beginUses_accounted otherP1_accounted
  · intro ending
    exact Logged.accounted_pure _
  · intro w hpath
    rw [Logged.accounted_after, Logged.accounted_after, ← and_assoc, lengthUses_accounted hpath]
    refine and_iff_left ?_
    dsimp only
    split
    · exact Logged.accounted_pure _
    · exact Logged.accounted_pure _

theorem certificateBeginLogged_accounted (d : Device) :
    (certificateBeginLogged G d).Accounted G ↔ (G.p1 = P1_FIRST → 1 ≤ G.lc.toNat ∧
      (G.HasPath → 1 + 4 * G.pathLength + 4 < G.lc.toNat)) := by
  apply beginUses_accounted otherP1_accounted
  · intro ending
    exact Logged.accounted_pure _
  · intro w hpath
    have hwork : (w.readLength G).workBuffer = OFFSET_CDATA + 1 + 4 * G.pathLength + 4 :=
      congrArg (· + 4) (beginPath_inr hpath).2.1
    -- the byte that is tested lies behind the length
    have hbrace : (PayloadUse.read (w.readLength G).workBuffer 1).Accounted G ↔
        1 + 4 * G.pathLength + 4 < G.lc.toNat := by
      rw [hwork]
      show OFFSET_CDATA ≤ _ ∧ _ ↔ _
      omega
    rw [Logged.accounted_after, Logged.accounted_after, ← and_assoc, lengthUses_accounted hpath,
      Logged.accounted_after, hbrace]
    constructor
    · rintro ⟨-, htested, -⟩
      exact htested
    · intro hroom
      refine ⟨hroom.le, hroom, ?_⟩
      split
      · exact Logged.accounted_pure _
      · exact Logged.accounted_pure _

theorem signBeginLogged_accounted (d : Device) :
    (signBeginLogged G d).Accounted G ↔ (G.p1 = P1_FIRST → 1 ≤ G.lc.toNat) := by
  have huses : (signBeginLogged G d).Accounted G ↔
      (G.p1 = P1_FIRST → 1 ≤ G.lc.toNat ∧ (G.HasPath → True)) := by
    apply beginUses_accounted otherP1_accounted
    · intro ending
      exact Logged.accounted_pure _
    · intro w _
      exact iff_true_intro (Logged.accounted_pure _)
  simpa using huses

/-- The second part accounts for the payload, unless it tests a byte in front of the data. -/
theorem hashPayloadLogged_accounted {platform : Platform} {flow : Flow} {tests : Bool}
    {closed : UInt8 → Bool} {w : Work} (hstart : OFFSET_CDATA ≤ w.workBuffer)
    (hend : w.workBuffer + w.dataLength.toNat ≤ OFFSET_CDATA + G.lc.toNat) :
    (hashPayloadLogged platform flow tests closed G w).Accounted G ↔
      (tests = true → G.p2 = 0 → w.dataLength.toUInt32 = w.device.tmpCtx.remainingLength →
        OFFSET_CDATA < w.workBuffer + w.dataLength.toNat) := by
  have hlc := G.lc.toNat_lt
  have hoffset : OFFSET_CDATA = 5 := rfl
  have hremaining : w.device.tmpCtx.remainingLength - w.dataLength.toUInt32 = 0 ↔
      w.dataLength.toUInt32 = w.device.tmpCtx.remainingLength := by
    rw [UInt32.sub_eq_iff_eq_add, UInt32.zero_add, eq_comm]
  unfold hashPayloadLogged
  by_cases hp2 : G.p2 = 0
  · rw [if_neg (not_not.mpr hp2)]
    by_cases hlong : w.dataLength.toUInt32 > w.device.tmpCtx.remainingLength
    · rw [if_pos hlong]
      refine iff_of_true (Logged.accounted_pure _) fun _ _ hlast => ?_
      rw [hlast] at hlong
      exact absurd hlong (UInt32.lt_irrefl _)
    · have hread : (PayloadUse.read w.workBuffer w.dataLength.toNat).Accounted G := ⟨hstart, hend⟩
      rw [if_neg hlong, Logged.accounted_after, if_neg (by omega), and_iff_right hread]
      by_cases htest : w.device.tmpCtx.remainingLength - w.dataLength.toUInt32 = 0 ∧ tests = true
      · rw [if_pos htest, Logged.accounted_after, and_iff_left (Logged.accounted_pure _)]
        have hlast := hremaining.mp htest.1
        show OFFSET_CDATA ≤ _ ∧ _ ↔ _
        constructor
        · rintro ⟨hlow, -⟩ _ _ _
          omega
        · intro h
          have hpos := h htest.2 hp2 hlast
          omega
      · rw [if_neg htest]
        refine iff_of_true (Logged.accounted_pure _) fun htests _ hlast => ?_
        exact absurd ⟨hremaining.mpr hlast, htests⟩ htest
  · rw [if_pos hp2]
    exact iff_of_true (Logged.accounted_pure _) fun _ h => absurd h hp2

/-- The data of a beginning hold what is read of them, and a certificate is not ended by a
command without data. -/
structure ApduBuffer.PayloadHeld (G : ApduBuffer) (d : Device) : Prop where
  beginning : G.p1 = P1_FIRST → G.Supplied
  ending : G.ins = INS_SIGN_CERTIFICATE → G.p1 = P1_MORE → G.p2 = 0 → G.lc = 0 →
    d.tmpCtx.remainingLength ≠ 0

theorem handleSignPersonalMessageLogged_accounted (platform : Platform) (d : Device) :
    (handleSignPersonalMessageLogged platform G d).Accounted G ↔
      (G.p1 = P1_FIRST → 1 ≤ G.lc.toNat ∧
        (G.HasPath → 1 + 4 * G.pathLength + 4 ≤ G.lc.toNat)) := by
  rw [handleSignPersonalMessageLogged, Logged.accounted_bind, messageBeginLogged_accounted,
    messageBeginLogged_result, and_iff_left_iff_imp]
  intro hheld
  have hbegun := messageBegin_begun G d
  cases hbegin : messageBegin G d with
  | inl ending => exact Logged.accounted_pure _
  | inr w =>
    rw [hbegin] at hbegun
    obtain ⟨hstart, hend⟩ := hbegun.data_eq fun hp1 => (hheld hp1).2
    exact (hashPayloadLogged_accounted hstart hend.le).mpr nofun

theorem handleSignCertificateLogged_accounted (platform : Platform) (d : Device) :
    (handleSignCertificateLogged platform G d).Accounted G ↔
      (G.p1 = P1_FIRST → 1 ≤ G.lc.toNat ∧
        (G.HasPath → 1 + 4 * G.pathLength + 4 < G.lc.toNat)) ∧
      (G.p1 = P1_MORE → G.p2 = 0 → G.lc = 0 → d.tmpCtx.remainingLength ≠ 0) := by
  rw [handleSignCertificateLogged, Logged.accounted_bind, certificateBeginLogged_accounted,
    certificateBeginLogged_result]
  refine and_congr_right fun hheld => ?_
  have hbegun := certificateBegin_begun G d
  cases hbegin : certificateBegin G d with
  | inl ending =>
    rw [hbegin] at hbegun
    refine iff_of_true (Logged.accounted_pure _) fun hp1 => ?_
    cases hbegun with
    | noPath hfirst => rw [hp1] at hfirst; cases hfirst
    | notOpened hfirst => rw [hp1] at hfirst; cases hfirst
    | diverges hfirst => rw [hp1] at hfirst; cases hfirst
    | wrongP1 _ hmore => exact absurd hp1 hmore
  | inr w =>
    rw [hbegin] at hbegun
    obtain ⟨hstart, hend⟩ := hbegun.data_eq fun hp1 hG => ((hheld hp1).2 hG).le
    rw [hashPayloadLogged_accounted hstart hend.le, hend]
    cases hbegun with
    | @first w text hp1 hpath =>
      -- the beginning holds a byte of the certificate
      have hpos := (hheld hp1).1
      refine iff_of_true (fun _ _ _ => by omega) fun hmore => ?_
      rw [hp1] at hmore
      cases hmore
    | more hp1 =>
      have hzero : G.lc = 0 ↔ ¬OFFSET_CDATA < OFFSET_CDATA + G.lc.toNat := by
        rw [← UInt8.toNat_inj, UInt8.toNat_zero]
        omega
      have hlast : G.lc = 0 → G.lc.toUInt16.toUInt32 = 0 := fun h => by rw [h]; rfl
      constructor
      · intro h _ hp2 hlc hremaining
        exact hzero.mp hlc (h rfl hp2 ((hlast hlc).trans hremaining.symm))
      · intro h _ hp2 hsame
        by_contra hnot
        have hlc := hzero.mpr hnot
        exact h hp1 hp2 hlc (hsame.symm.trans (hlast hlc))

theorem handleSignLogged_accounted (platform : Platform) (settings : Settings) (d : Device) :
    (handleSignLogged platform settings G d).Accounted G ↔ (G.p1 = P1_FIRST → 1 ≤ G.lc.toNat) := by
  rw [handleSignLogged, Logged.accounted_bind, signBeginLogged_accounted, signBeginLogged_result,
    and_iff_left_iff_imp]
  intro hpos
  cases hresult : signBegin G d with
  | inl ending => exact Logged.accounted_pure _
  | inr w =>
    have hdata : OFFSET_CDATA ≤ w.workBuffer ∧
        w.workBuffer + w.dataLength.toNat ≤ OFFSET_CDATA + G.lc.toNat := by
      obtain hp1 | hp1 := signBegin_p1 hresult
      · obtain ⟨hG, hwork, hlength, -⟩ := signBegin_first hp1 hresult
        have hbehind : w.workBuffer = OFFSET_CDATA + 1 + 4 * G.pathLength := hwork
        have hle := hG.2.2
        omega
      · rw [signBegin_more hp1] at hresult
        cases hresult
        refine ⟨le_rfl, ?_⟩
        show OFFSET_CDATA + G.lc.toUInt16.toNat ≤ _
        rw [UInt8.toNat_toUInt16]
    simp only
    split
    · exact Logged.accounted_pure _
    · rw [Logged.accounted_after]
      exact ⟨hdata, Logged.accounted_pure _⟩

/-- A command accounts for its payload: no subtraction wraps, only its data are read, and a
beginning that is too short for its path and the length of its stream is refused. -/
structure PayloadAccounted (platform : Platform) (settings : Settings) (G : ApduBuffer)
    (d : Device) : Prop where
  accounted : (dispatchLogged platform settings G d).Accounted G
  refused : G.p1 = P1_FIRST →
    G.lc.toNat < 1 + 4 * G.pathLength + (if G.ins = INS_SIGN then 0 else 4) →
    ∃ a d', (dispatch platform settings G d).answer? = some (a, d') ∧ a.isError = true

/-- The uses of the payload that the signing instructions do not account for. -/
theorem dispatchLogged_accounted (platform : Platform) (settings : Settings) (d : Device)
    (hins : G.ins ∈ [INS_SIGN, INS_SIGN_PERSONAL_MESSAGE, INS_SIGN_CERTIFICATE]) :
    (dispatchLogged platform settings G d).Accounted G ↔ G.PayloadHeld d := by
  unfold dispatchLogged
  by_cases hsign : G.ins = INS_SIGN
  · have hmessage : G.ins ≠ INS_SIGN_PERSONAL_MESSAGE := by rw [hsign]; decide
    have hcertificate : G.ins ≠ INS_SIGN_CERTIFICATE := by rw [hsign]; decide
    rw [if_pos hsign, handleSignLogged_accounted]
    constructor
    · intro h
      exact ⟨fun hp1 => ⟨h hp1, fun _ hi => absurd hi hmessage, fun _ hi => absurd hi hcertificate⟩,
        fun hi => absurd hi hcertificate⟩
    · intro h hp1
      exact (h.beginning hp1).pathLength
  by_cases hmessage : G.ins = INS_SIGN_PERSONAL_MESSAGE
  · have hcertificate : G.ins ≠ INS_SIGN_CERTIFICATE := by rw [hmessage]; decide
    rw [if_neg hsign, if_pos hmessage, handleSignPersonalMessageLogged_accounted]
    constructor
    · intro h
      exact ⟨fun hp1 => ⟨(h hp1).1, fun hG _ => (h hp1).2 hG, fun _ hi => absurd hi hcertificate⟩,
        fun hi => absurd hi hcertificate⟩
    · intro h hp1
      exact ⟨(h.beginning hp1).pathLength, fun hG => (h.beginning hp1).message hG hmessage⟩
  · have hcertificate : G.ins = INS_SIGN_CERTIFICATE := by simpa [hsign, hmessage] using hins
    rw [if_neg hsign, if_neg hmessage, if_pos hcertificate, handleSignCertificateLogged_accounted]
    constructor
    · rintro ⟨hfirst, hmore⟩
      exact ⟨fun hp1 => ⟨(hfirst hp1).1, fun _ hi => absurd hi hmessage,
        fun hG _ => (hfirst hp1).2 hG⟩, fun _ => hmore⟩
    · intro h
      exact ⟨fun hp1 => ⟨(h.beginning hp1).pathLength,
        fun hG => (h.beginning hp1).certificate hG hcertificate⟩, h.ending hcertificate⟩

/-- A beginning without a complete path is refused. -/
theorem dispatch_of_not_hasPath (platform : Platform) (settings : Settings) (d : Device)
    (hcla : G.cla = CLA)
    (hins : G.ins ∈ [INS_SIGN, INS_SIGN_PERSONAL_MESSAGE, INS_SIGN_CERTIFICATE])
    (hp1 : G.p1 = P1_FIRST) (hpath : ¬G.HasPath) :
    ∃ d', dispatch platform settings G d = .throw [] HW_INCORRECT_DATA d' := by
  simp only [List.mem_cons, List.not_mem_nil, or_false] at hins
  obtain hsign | hmessage | hcertificate := hins
  · rw [dispatch_sign platform settings hcla hsign, handleSign, signAccept, signParse, signBegin,
      if_pos hp1, beginPath_of_not_hasPath hpath]
    exact ⟨_, rfl⟩
  · rw [dispatch_message platform settings hcla hmessage, handleSignPersonalMessage, messageBegin,
      if_pos hp1, beginPath_of_not_hasPath hpath]
    exact ⟨_, rfl⟩
  · rw [dispatch_certificate platform settings hcla hcertificate, handleSignCertificate,
      certificateBegin, if_pos hp1, beginPath_of_not_hasPath hpath]
    exact ⟨_, rfl⟩

/-- **When a command accounts for its payload**: exactly when its data hold what is read of
them without a check. -/
theorem payloadAccounted_iff {platform : Platform} {settings : Settings} {d : Device}
    (hcla : G.cla = CLA)
    (hins : G.ins ∈ [INS_SIGN, INS_SIGN_PERSONAL_MESSAGE, INS_SIGN_CERTIFICATE]) :
    PayloadAccounted platform settings G d ↔ G.PayloadHeld d := by
  have haccounted := dispatchLogged_accounted platform settings d hins
  constructor
  · intro h
    exact haccounted.mp h.accounted
  · intro h
    refine ⟨haccounted.mpr h, fun hp1 hshort => ?_⟩
    have hpath : ¬G.HasPath := by
      intro hG
      obtain ⟨-, hmessage, hcertificate⟩ := h.beginning hp1
      have hle := hG.2.2
      simp only [List.mem_cons, List.not_mem_nil, or_false] at hins
      obtain hi | hi | hi := hins
      · rw [if_pos hi] at hshort
        omega
      · rw [if_neg (by rw [hi]; decide)] at hshort
        exact absurd (hmessage hG hi) (Nat.not_le.mpr hshort)
      · rw [if_neg (by rw [hi]; decide)] at hshort
        exact absurd (hcertificate hG hi).le (Nat.not_le.mpr hshort)
    obtain ⟨d', hthrow⟩ := dispatch_of_not_hasPath platform settings d hcla hins hp1 hpath
    rw [hthrow]
    exact ⟨_, _, rfl, by decide⟩

theorem payloadAccounted_iff_whole :
    PayloadAccounted (.recorded certificateDigests) wholeCertificate.settings wholeCertificate.G
      .boot ↔ wholeCertificate.G.PayloadHeld .boot :=
  payloadAccounted_iff (by decide) (by decide)

/-- The beginning of a message whose length is cut off after three of its four bytes. -/
def cutLength : Command :=
  .received [0xe0, 0x08, 0x00, 0x00, 0x08, 0x01, 0x80, 0x00, 0x00, 0x00, 0x00, 0x01, 0x00]

/-- Four is subtracted from the three bytes that are left, and the buffer is read for the
65535 bytes that the result announces. -/
theorem not_payloadAccounted_cutLength :
    .decrement 3 4 ∈ (dispatchLogged (.recorded []) cutLength.settings cutLength.G .boot).uses ∧
      .read 14 65535 ∈ (dispatchLogged (.recorded []) cutLength.settings cutLength.G .boot).uses ∧
      (dispatch (.recorded []) cutLength.settings cutLength.G .boot).answer? = none ∧
      ¬PayloadAccounted (.recorded []) cutLength.settings cutLength.G .boot := by
  have hdecrement : PayloadUse.decrement 3 4 ∈
      (dispatchLogged (.recorded []) cutLength.settings cutLength.G .boot).uses := by
    decide +kernel
  refine ⟨hdecrement, by decide +kernel, ?_, fun h => ?_⟩
  · have hnone : (dispatch (.recorded []) cutLength.settings cutLength.G .boot).answer?.isNone =
        true := by
      decide +kernel
    exact Option.isNone_iff_eq_none.mp hnone
  · have hle : (4 : UInt16) ≤ 3 := h.accounted _ hdecrement
    exact absurd hle (by decide)

end AppVechain
