import AppVechain.Device.Abort

/-!
# Bytes that were not received

The handlers trust the length byte of a command and read behind it what it
announces. When all of that was received, older bytes of the buffer play no part.
-/

namespace AppVechain

open Reactive

/-- Two buffers agree on their first bytes. -/
def ApduBuffer.Agree (rx : ℕ) (G G' : ApduBuffer) : Prop := G.toList.take rx = G'.toList.take rx

instance (rx : ℕ) (G G' : ApduBuffer) : Decidable (G.Agree rx G') := by
  unfold ApduBuffer.Agree
  infer_instance

/-- All the data that the length byte announces were received. -/
def ApduBuffer.Complete (G : ApduBuffer) (rx : ℕ) : Prop := 5 + G.lc.toNat ≤ rx

/-- The data of a command that begins to sign hold what is read of them: the number of words
of the path, and behind a complete path the length of a message or certificate and the
first byte of a certificate. -/
structure ApduBuffer.Supplied (G : ApduBuffer) : Prop where
  pathLength : 1 ≤ G.lc.toNat
  message : G.HasPath → G.ins = INS_SIGN_PERSONAL_MESSAGE → 1 + 4 * G.pathLength + 4 ≤ G.lc.toNat
  certificate : G.HasPath → G.ins = INS_SIGN_CERTIFICATE → 1 + 4 * G.pathLength + 4 < G.lc.toNat

variable {G G' : ApduBuffer} {rx : ℕ}

/-- A byte that was received. -/
theorem ApduBuffer.Agree.byte (h : G.Agree rx G') {i : ℕ} (hi : i < rx) : G.byte i = G'.byte i := by
  have hget : (G.toList.take rx)[i]? = (G'.toList.take rx)[i]? := by rw [h]
  rw [List.getElem?_take_of_lt hi, List.getElem?_take_of_lt hi] at hget
  rw [ApduBuffer.byte, ApduBuffer.byte, List.getD_eq_getElem?_getD, List.getD_eq_getElem?_getD,
    hget]

/-- Four bytes that were received. -/
theorem ApduBuffer.Agree.word (h : G.Agree rx G') {i : ℕ} (hi : i + 4 ≤ rx) :
    G.word i = G'.word i := by
  rw [ApduBuffer.word, ApduBuffer.word, h.byte (by omega), h.byte (by omega), h.byte (by omega),
    h.byte (by omega)]

/-- Data that were received. -/
theorem ApduBuffer.Agree.bytes (h : G.Agree rx G') {offset length : ℕ}
    (hlength : offset + length ≤ rx) : G.bytes offset length = G'.bytes offset length := by
  have hdrop : (G.toList.take rx).drop offset = (G'.toList.take rx).drop offset := by rw [h]
  rw [List.drop_take, List.drop_take] at hdrop
  have htake := congrArg (List.take length) hdrop
  rwa [List.take_take, List.take_take, Nat.min_eq_left (by omega)] at htake

/-- The loop over the words of a path that was received. -/
theorem readPath_agree (h : G.Agree rx G') (n i : ℕ) (a : PathArgs)
    (hn : a.workBuffer + 4 * n ≤ rx) : readPath G n i a = readPath G' n i a := by
  induction n generalizing i a with
  | zero => rfl
  | succ n ih =>
    rw [readPath, readPath, h.word (by omega)]
    exact ih _ _ (show a.workBuffer + 4 + 4 * n ≤ rx by omega)

/-- The path of a complete command. -/
theorem parseBip32Path_agree (h : G.Agree rx G') {a : PathArgs} (hwork : a.workBuffer = 5)
    (hlength : 5 + a.dataLength.toNat ≤ rx) (hpos : 1 ≤ a.dataLength.toNat) :
    parseBip32Path G a = parseBip32Path G' a := by
  have hbyte : G.byte a.workBuffer = G'.byte a.workBuffer := h.byte (by omega)
  have hiff : a.Complete G ↔ a.Complete G' := by rw [PathArgs.Complete, PathArgs.Complete, hbyte]
  by_cases hcomplete : a.Complete G'
  · rw [parseBip32Path_of_complete (hiff.mpr hcomplete), parseBip32Path_of_complete hcomplete,
      PathArgs.start, PathArgs.start, hbyte]
    obtain ⟨-, -, hpath⟩ := hcomplete
    rw [readPath_agree h _ _ _ (show a.workBuffer + 1 + 4 * _ ≤ rx by omega)]
  · rw [parseBip32Path_of_not_complete (mt hiff.mp hcomplete),
      parseBip32Path_of_not_complete hcomplete, hbyte]

variable {d : Device}

/-- Reading the path, when its length byte was received. -/
theorem beginPath_agree (h : G.Agree rx G') (hcomplete : G.Complete rx) (hpos : 1 ≤ G.lc.toNat)
    (hlc : G.lc = G'.lc) (d : Device) : beginPath G d = beginPath G' d := by
  have hnat : G.lc.toUInt16.toNat = G.lc.toNat := UInt8.toNat_toUInt16 _
  unfold ApduBuffer.Complete at hcomplete
  unfold beginPath
  rw [parseBip32Path_agree h rfl (show 5 + G.lc.toUInt16.toNat ≤ rx by omega)
    (show 1 ≤ G.lc.toUInt16.toNat by omega), hlc]

/-- The second part of signing a stream reads the received data. -/
theorem hashPayload_agree (h : G.Agree rx G') (hp2 : G.p2 = G'.p2) (platform : Platform)
    (flow : Flow) (closed : UInt8 → Bool) {w : Work} (hpos : 0 < w.workBuffer)
    (hdata : w.workBuffer + w.dataLength.toNat ≤ rx) :
    hashPayload platform flow closed G w = hashPayload platform flow closed G' w := by
  unfold hashPayload
  rw [hp2, h.bytes hdata, h.byte (show w.workBuffer + w.dataLength.toNat - 1 < rx by omega)]

/-- The first part of signing a stream reads the received data, when it does so behind the
length. -/
theorem streamBegin_agree (h : G.Agree rx G') (hcomplete : G.Complete rx) (hlc : G.lc = G'.lc)
    (hp1 : G.p1 = G'.p1) (hpos : G.p1 = P1_FIRST → 1 ≤ G.lc.toNat)
    (hlength : G.p1 = P1_FIRST → G.HasPath → 1 + 4 * G.pathLength + 4 ≤ G.lc.toNat)
    {rest rest' : Work → Ending ⊕ Work}
    (hrest : G.p1 = P1_FIRST → ∀ w, beginPath G d = .inr w →
      rest (w.readLength G) = rest' (w.readLength G)) :
    streamBegin rest G d = streamBegin rest' G' d := by
  unfold streamBegin
  rw [← hp1, ← hlc]
  by_cases hfirst : G.p1 = P1_FIRST
  · rw [if_pos hfirst, if_pos hfirst, ← beginPath_agree h hcomplete (hpos hfirst) hlc]
    cases hpath : beginPath G d with
    | inl ending => rfl
    | inr w =>
      obtain ⟨hG, hwork, -⟩ := beginPath_inr hpath
      have hle := hlength hfirst hG
      have hbehind : G.behindPath = 5 + 1 + 4 * G.pathLength := rfl
      unfold ApduBuffer.Complete at hcomplete
      have hread : w.readLength G = w.readLength G' := by
        unfold Work.readLength
        rw [h.word (by omega)]
      dsimp only
      rw [hrest hfirst w hpath, hread]
  · rw [if_neg hfirst, if_neg hfirst]

/-- The first part of signing a message reads the received data. -/
theorem messageBegin_agree (h : G.Agree rx G') (hcomplete : G.Complete rx) (hlc : G.lc = G'.lc)
    (hp1 : G.p1 = G'.p1) (hpos : G.p1 = P1_FIRST → 1 ≤ G.lc.toNat)
    (hlength : G.p1 = P1_FIRST → G.HasPath → 1 + 4 * G.pathLength + 4 ≤ G.lc.toNat) (d : Device) :
    messageBegin G d = messageBegin G' d := by
  rw [messageBegin_eq, messageBegin_eq]
  exact streamBegin_agree h hcomplete hlc hp1 hpos hlength fun _ _ _ => rfl

/-- The first part of signing a certificate reads the received data. -/
theorem certificateBegin_agree (h : G.Agree rx G') (hcomplete : G.Complete rx)
    (hlc : G.lc = G'.lc) (hp1 : G.p1 = G'.p1) (hpos : G.p1 = P1_FIRST → 1 ≤ G.lc.toNat)
    (hlength : G.p1 = P1_FIRST → G.HasPath → 1 + 4 * G.pathLength + 4 < G.lc.toNat) (d : Device) :
    certificateBegin G d = certificateBegin G' d := by
  rw [certificateBegin_eq, certificateBegin_eq]
  apply streamBegin_agree h hcomplete hlc hp1 hpos fun hfirst hG => (hlength hfirst hG).le
  intro hfirst w hpath
  obtain ⟨hG, hwork, -⟩ := beginPath_inr hpath
  have hroom := hlength hfirst hG
  have hbehind : G.behindPath = 5 + 1 + 4 * G.pathLength := rfl
  have hbuffer : (w.readLength G).workBuffer = G.behindPath + 4 := congrArg (· + 4) hwork
  unfold ApduBuffer.Complete at hcomplete
  unfold certificateRest
  rw [h.byte (show (w.readLength G).workBuffer < rx by omega)]

/-- Signing a transaction reads the received data. -/
theorem handleSign_agree (h : G.Agree rx G') (hcomplete : G.Complete rx) (hlc : G.lc = G'.lc)
    (hp1 : G.p1 = G'.p1) (hp2 : G.p2 = G'.p2) (hpos : G.p1 = P1_FIRST → 1 ≤ G.lc.toNat)
    (platform : Platform) (settings : Settings) (d : Device) :
    handleSign platform settings G d = handleSign platform settings G' d := by
  have hbegin : signBegin G d = signBegin G' d := by
    unfold signBegin
    rw [hp1, hlc]
    rw [hp1] at hpos
    by_cases hfirst : G'.p1 = P1_FIRST
    · rw [if_pos hfirst, if_pos hfirst, beginPath_agree h hcomplete (hpos hfirst) hlc]
    · rw [if_neg hfirst, if_neg hfirst]
  have hinit (d : Device) : signInitialized G d = signInitialized G' d := by
    unfold signInitialized
    rw [hp2]
  have hparse : signParse platform G d = signParse platform G' d := by
    unfold signParse
    rw [← hbegin]
    cases hcase : signBegin G d with
    | inl ending => rfl
    | inr w =>
      have hdata : w.workBuffer + w.dataLength.toNat ≤ rx := by
        unfold ApduBuffer.Complete at hcomplete
        rcases signBegin_p1 hcase with hfirst | hmore
        · obtain ⟨hG, hwork, hlength, -⟩ := signBegin_first hfirst hcase
          have hbehind : G.behindPath = 5 + 1 + 4 * G.pathLength := rfl
          have hle := hG.2.2
          omega
        · rw [signBegin_more hmore, Sum.inr.injEq] at hcase
          subst hcase
          show 5 + G.lc.toUInt16.toNat ≤ rx
          rw [UInt8.toNat_toUInt16]
          exact hcomplete
      dsimp only
      rw [hinit, h.bytes hdata]
  unfold handleSign signAccept
  rw [hparse]

/-- Deriving a key reads the received data. -/
theorem handleGetPublicKey_agree (h : G.Agree rx G') (hcomplete : G.Complete rx)
    (hlc : G.lc = G'.lc) (hp1 : G.p1 = G'.p1) (hp2 : G.p2 = G'.p2) (platform : Platform)
    (d : Device) : handleGetPublicKey platform G d = handleGetPublicKey platform G' d := by
  unfold handleGetPublicKey
  rw [hp1, hp2, hlc]
  by_cases hpos : 1 ≤ G.lc.toNat
  · have hnat : G'.lc.toUInt16.toNat = G.lc.toNat := by rw [hlc]; exact UInt8.toNat_toUInt16 _
    unfold ApduBuffer.Complete at hcomplete
    rw [parseBip32Path_agree h rfl (show 5 + G'.lc.toUInt16.toNat ≤ rx by omega)
      (show 1 ≤ G'.lc.toUInt16.toNat by omega)]
  · -- without data the path is refused, whatever its length byte
    have hzero : G'.lc.toUInt16.toNat = 0 := by
      rw [← hlc, UInt8.toNat_toUInt16]
      omega
    have hrefused (H : ApduBuffer) := parseBip32Path_of_not_complete
      (G := H) (a := ⟨OFFSET_CDATA, G'.lc.toUInt16, 0, Vector.replicate 10 0⟩) (by
        rintro ⟨-, -, hlength⟩
        rw [hzero] at hlength
        omega)
    rw [hrefused G, hrefused G']

/-- Signing a message reads the received data. -/
theorem handleSignPersonalMessage_agree (h : G.Agree rx G') (hcomplete : G.Complete rx)
    (hlc : G.lc = G'.lc) (hp1 : G.p1 = G'.p1) (hp2 : G.p2 = G'.p2)
    (hpos : G.p1 = P1_FIRST → 1 ≤ G.lc.toNat)
    (hlength : G.p1 = P1_FIRST → G.HasPath → 1 + 4 * G.pathLength + 4 ≤ G.lc.toNat)
    (platform : Platform) (d : Device) :
    handleSignPersonalMessage platform G d = handleSignPersonalMessage platform G' d := by
  have hbegun := messageBegin_begun G d
  unfold handleSignPersonalMessage
  rw [← messageBegin_agree h hcomplete hlc hp1 hpos hlength]
  cases hcase : messageBegin G d with
  | inl ending => rfl
  | inr w =>
    rw [hcase] at hbegun
    obtain ⟨hstart, hend⟩ := hbegun.data_eq hlength
    exact hashPayload_agree h hp2 platform _ _ ((Nat.succ_pos 4).trans_le hstart)
      (hend.le.trans hcomplete)

/-- Signing a certificate reads the received data. -/
theorem handleSignCertificate_agree (h : G.Agree rx G') (hcomplete : G.Complete rx)
    (hlc : G.lc = G'.lc) (hp1 : G.p1 = G'.p1) (hp2 : G.p2 = G'.p2)
    (hpos : G.p1 = P1_FIRST → 1 ≤ G.lc.toNat)
    (hlength : G.p1 = P1_FIRST → G.HasPath → 1 + 4 * G.pathLength + 4 < G.lc.toNat)
    (platform : Platform) (d : Device) :
    handleSignCertificate platform G d = handleSignCertificate platform G' d := by
  have hbegun := certificateBegin_begun G d
  unfold handleSignCertificate
  rw [← certificateBegin_agree h hcomplete hlc hp1 hpos hlength]
  cases hcase : certificateBegin G d with
  | inl ending => rfl
  | inr w =>
    rw [hcase] at hbegun
    obtain ⟨hstart, hend⟩ := hbegun.data_eq fun hp hG => (hlength hp hG).le
    exact hashPayload_agree h hp2 platform _ _ ((Nat.succ_pos 4).trans_le hstart)
      (hend.le.trans hcomplete)

/-- The handlers read the received data. -/
theorem dispatch_agree (platform : Platform) (settings : Settings) (h : G.Agree rx G')
    (hcomplete : G.Complete rx)
    (hsupplied : G.ins ∈ signingInstructions → G.p1 = P1_FIRST → G.Supplied) (d : Device) :
    dispatch platform settings G d = dispatch platform settings G' d := by
  have hheader (i : ℕ) (hi : i < 5) : G.byte i = G'.byte i := by
    unfold ApduBuffer.Complete at hcomplete
    exact h.byte (by omega)
  have hcla : G.cla = G'.cla := hheader 0 (by omega)
  have hins : G.ins = G'.ins := hheader 1 (by omega)
  have hp1 : G.p1 = G'.p1 := hheader 2 (by omega)
  have hp2 : G.p2 = G'.p2 := hheader 3 (by omega)
  have hlc : G.lc = G'.lc := hheader 4 (by omega)
  unfold dispatch
  rw [← hcla, ← hins]
  by_cases hsign : G.ins ∈ signingInstructions
  · have hfirst := hsupplied hsign
    have hpos (hp : G.p1 = P1_FIRST) := (hfirst hp).pathLength
    simp only [signingInstructions, List.mem_cons, List.not_mem_nil, or_false] at hsign
    rcases hsign with hi | hi | hi
    · rw [handleSign_agree h hcomplete hlc hp1 hp2 hpos platform settings d, hi]
      simp [INS_SIGN, INS_GET_PUBLIC_KEY]
    · rw [handleSignPersonalMessage_agree h hcomplete hlc hp1 hp2 hpos
        (fun hp hG => (hfirst hp).message hG hi) platform d, hi]
      simp [INS_SIGN, INS_GET_PUBLIC_KEY, INS_GET_APP_CONFIGURATION, INS_SIGN_PERSONAL_MESSAGE]
    · rw [handleSignCertificate_agree h hcomplete hlc hp1 hp2 hpos
        (fun hp hG => (hfirst hp).certificate hG hi) platform d, hi]
      simp [INS_SIGN, INS_GET_PUBLIC_KEY, INS_GET_APP_CONFIGURATION, INS_SIGN_PERSONAL_MESSAGE,
        INS_SIGN_CERTIFICATE]
  · simp only [signingInstructions, List.mem_cons, List.not_mem_nil, or_false, not_or] at hsign
    obtain ⟨h₁, h₂, h₃⟩ := hsign
    rw [handleGetPublicKey_agree h hcomplete hlc hp1 hp2]
    simp only [h₁, h₂, h₃, if_false]

/-- **No stale input**: a command whose announced data were received, and hold what is read of
them, has the same effect whatever is behind them in the buffer. -/
theorem handleApdu_agree (platform : Platform) (settings : Settings) (h : G.Agree rx G')
    (hcomplete : G.Complete rx)
    (hsupplied : G.ins ∈ signingInstructions → G.p1 = P1_FIRST → G.Supplied) (d : Device) :
    handleApdu platform settings G d = handleApdu platform settings G' d := by
  unfold handleApdu
  rw [dispatch_agree platform settings h hcomplete hsupplied]

/-- The beginning of a message of two bytes, with an older byte behind it. -/
def messageBeginning (older : UInt8) : ApduBuffer :=
  .ofBytes [0xe0, 0x08, 0x00, 0x00, 0x09, 0x01,
    0x80, 0x00, 0x00, 0x00, 0x00, 0x00, 0x00, 0x02, older]

theorem handleApdu_agree_messageBeginning :
    handleApdu (.recorded []) ⟨true, true⟩ (messageBeginning 0) .boot =
      handleApdu (.recorded []) ⟨true, true⟩ (messageBeginning 1) .boot := by
  have hagree : (messageBeginning 0).Agree 14 (messageBeginning 1) := by decide +kernel
  have hcomplete : (messageBeginning 0).Complete 14 := by
    unfold ApduBuffer.Complete
    decide +kernel
  have hmessage : 1 + 4 * (messageBeginning 0).pathLength + 4 ≤ (messageBeginning 0).lc.toNat := by
    decide +kernel
  exact handleApdu_agree (.recorded []) ⟨true, true⟩ hagree hcomplete
    (fun _ _ => ⟨by decide +kernel, fun _ _ => hmessage,
      fun _ hins => absurd hins (by decide +kernel)⟩) .boot

/-- The status, the path and the remaining length after one command. -/
def observe (bytes : List UInt8) : Option (Answer × UInt8 × UInt32) :=
  (handleApdu (.recorded []) ⟨true, true⟩ (.ofBytes bytes) .boot).map fun r =>
    (r.1, r.2.tmpCtx.pathLength, r.2.tmpCtx.remainingLength)

/-- What was received, and two continuations: a command that is cut off behind its class, and
beginnings without the number of words, without the length of the message, and without any
byte of the certificate. -/
def staleCases : List (List UInt8 × List UInt8 × List UInt8) := [
  ([0xe0], [0x06, 0x00, 0x00, 0x00], [0x00, 0x00, 0x00, 0x00]),
  ([0xe0, 0x08, 0x00, 0x00, 0x00], [0x01], [0x02]),
  ([0xe0, 0x08, 0x00, 0x00, 0x05, 0x01, 0x80, 0x00, 0x00, 0x00], [0x00, 0x00, 0x00, 0x01],
    [0x00, 0x00, 0x00, 0x02]),
  ([0xe0, 0x09, 0x00, 0x00, 0x09, 0x01, 0x80, 0x00, 0x00, 0x00, 0x00, 0x00, 0x00, 0x02], [0x7b],
    [0x00])]

/-- Bytes that were not received change what a command does; the last three of the cases
are complete. -/
theorem handleApdu_not_agree :
    (¬∀ (platform : Platform) (settings : Settings) (rx : ℕ) (G G' : ApduBuffer) (d : Device),
      1 ≤ rx → G.Agree rx G' →
        handleApdu platform settings G d = handleApdu platform settings G' d) ∧
    ∀ c ∈ staleCases, (ApduBuffer.ofBytes (c.1 ++ c.2.1)).Agree c.1.length
        (.ofBytes (c.1 ++ c.2.2)) ∧ observe (c.1 ++ c.2.1) ≠ observe (c.1 ++ c.2.2) := by
  have hcases : ∀ c ∈ staleCases, (ApduBuffer.ofBytes (c.1 ++ c.2.1)).Agree c.1.length
      (.ofBytes (c.1 ++ c.2.2)) ∧ observe (c.1 ++ c.2.1) ≠ observe (c.1 ++ c.2.2) := by
    decide +kernel
  refine ⟨fun h => ?_, hcases⟩
  obtain ⟨hagree, hne⟩ := hcases _ List.mem_cons_self
  apply hne
  unfold observe
  rw [h _ _ 1 _ _ _ le_rfl hagree]

end AppVechain
