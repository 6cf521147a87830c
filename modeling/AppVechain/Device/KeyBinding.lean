import AppVechain.Device.Forget

/-!
# The path that signs

`tmpCtx` holds one path for all instructions. It is the path of the session that
is shown if no command stored another one since the session began: the beginning
of another session does, and so does the key that `INS_GET_PUBLIC_KEY` writes over it.
-/

namespace AppVechain

open Reactive

variable {platform : Platform} {path : List UInt32}

/-- The path that signing would use, and the length that it would read. -/
structure Device.SignsWith (d : Device) (path : List UInt32) : Prop where
  length : d.tmpCtx.pathLength.toNat = path.length
  words : d.tmpCtx.path = path

/-- Whatever a handler answers, the device signs with the path. -/
def Ending.SignsWith (ending : Ending) (path : List UInt32) : Prop :=
  ∀ a d, ending.answer? = some (a, d) → d.SignsWith path

/-- The beginning of a session leaves the path: it carries the same path, or it carries no
complete path and stores the same length. -/
def ApduBuffer.KeepsPath (G : ApduBuffer) (path : List UInt32) : Prop :=
  G.p1 = P1_FIRST → if G.HasPath then G.path = path else G.pathLength = path.length

/-- The command derives a key, which is written over the path. -/
def ApduBuffer.DerivesKey (G : ApduBuffer) : Prop :=
  G.ins = INS_GET_PUBLIC_KEY ∧ (G.p1 = P1_CONFIRM ∨ G.p1 = P1_NON_CONFIRM) ∧
    (G.p2 = P2_CHAINCODE ∨ G.p2 = P2_NO_CHAINCODE) ∧ G.HasPath

/-- The command leaves the path. -/
def Command.KeepsPath (c : Command) (path : List UInt32) : Prop :=
  c.G.cla = CLA → (c.G.ins ∈ signingInstructions → c.G.KeepsPath path) ∧ ¬c.G.DerivesKey

instance (G : ApduBuffer) : Decidable (G.KeepsPath path) := by
  unfold ApduBuffer.KeepsPath
  infer_instance

instance (G : ApduBuffer) : Decidable G.DerivesKey := by
  unfold ApduBuffer.DerivesKey
  infer_instance

instance (c : Command) : Decidable (c.KeepsPath path) := by
  unfold Command.KeepsPath
  infer_instance

/-- The path that a command carries has the length that it announces. -/
theorem ApduBuffer.path_length (G : ApduBuffer) : G.path.length = G.pathLength := by
  rw [path, List.length_map, List.length_range]

/-- What a status leaves. -/
theorem signsWith_throw {d : Device} (h : d.SignsWith path) (data : List UInt8) (sw : UInt16) :
    (Ending.throw data sw d).SignsWith path := by
  rintro a d' ⟨⟩
  exact h

/-- What a review leaves. -/
theorem signsWith_review {d : Device} (h : d.SignsWith path) (flow : Flow) :
    (Ending.review flow d).SignsWith path := by
  rintro a d' ⟨⟩
  exact h

/-- A handler that is stuck leaves nothing. -/
theorem signsWith_stuck (e : Stuck) : (Ending.stuck e).SignsWith path := by
  rintro a d ⟨⟩

/-- Other variables do not matter. -/
theorem Device.SignsWith.congr {d d' : Device} (h : d.SignsWith path)
    (hlength : d'.tmpCtx.pathLength = d.tmpCtx.pathLength)
    (hwords : d'.tmpCtx.bip32Path = d.tmpCtx.bip32Path) : d'.SignsWith path := by
  constructor
  · rw [hlength]
    exact h.length
  · rw [TmpCtx.path, hlength, hwords]
    exact h.words

/-- A complete path is stored with its length. -/
theorem beginPath_signsWith {G : ApduBuffer} {d : Device} {w : Work} (h : beginPath G d = .inr w) :
    w.device.SignsWith G.path := by
  constructor
  · rw [G.path_length]
    have hcomplete : PathArgs.Complete G
        ⟨OFFSET_CDATA, G.lc.toUInt16, d.tmpCtx.pathLength, d.tmpCtx.bip32Path⟩ :=
      G.hasPath_iff.mp (beginPath_inr h).1
    rw [beginPath, parseBip32Path_of_complete hcomplete] at h
    cases h
    exact congrArg UInt8.toNat hcomplete.parsed.pathLength
  · exact (beginPath_inr h).2.2.2.1

/-- A path that is not complete changes no more than the length. -/
theorem Device.SignsWith.pathLength {d : Device} (h : d.SignsWith path) {b : UInt8}
    (hb : b.toNat = path.length) :
    ({ d with tmpCtx := { d.tmpCtx with pathLength := b } } : Device).SignsWith path := by
  constructor
  · exact hb
  · rw [← h.words]
    show d.tmpCtx.bip32Path.toList.take b.toNat = d.tmpCtx.bip32Path.toList.take _
    rw [hb, h.length]

/-- The first part of a handler leaves the path, whether it goes on or not. -/
def PathKept (path : List UInt32) : Ending ⊕ Work → Prop
  | .inl ending => ending.SignsWith path
  | .inr w => w.device.SignsWith path

/-- The call of `parseBip32Path`. -/
theorem beginPath_pathKept {G : ApduBuffer} {d : Device} (hp1 : G.p1 = P1_FIRST)
    (hkeeps : G.KeepsPath path) (hd : ¬(G.p1 = P1_FIRST ∧ G.HasPath) → d.SignsWith path) :
    PathKept path (beginPath G d) := by
  have hG := hkeeps hp1
  cases h : beginPath G d with
  | inl ending =>
    obtain ⟨hpath, rfl⟩ := beginPath_inl h
    rw [if_neg hpath] at hG
    apply signsWith_throw
    exact (hd fun h => hpath h.2).pathLength hG
  | inr w =>
    rw [if_pos (beginPath_inr h).1] at hG
    rw [← hG]
    exact beginPath_signsWith h

/-- The first part of signing a stream. -/
theorem Begun.pathKept {k : Stream} {G : ApduBuffer} {d : Device} {r : Ending ⊕ Work}
    (h : Begun k G d r) (hkeeps : G.KeepsPath path)
    (hd : ¬(G.p1 = P1_FIRST ∧ G.HasPath) → d.SignsWith path) : PathKept path r := by
  have hbegin (hp1 : G.p1 = P1_FIRST) := beginPath_pathKept hp1 hkeeps hd
  cases h with
  | noPath hp1 hpath =>
    rw [← beginPath_of_not_hasPath hpath]
    exact hbegin hp1
  | @notOpened w hp1 hpath =>
    have hw : PathKept path (.inr w) := hpath ▸ hbegin hp1
    apply signsWith_throw
    exact hw.congr rfl rfl
  | diverges => exact signsWith_stuck _
  | @first w text hp1 hpath =>
    have hw : PathKept path (.inr w) := hpath ▸ hbegin hp1
    exact hw.congr rfl rfl
  | wrongP1 hp1 => exact signsWith_throw (hd fun h => hp1 h.1) _ _
  | more hp1 =>
    apply hd
    rintro ⟨hfirst, -⟩
    rw [hp1] at hfirst
    cases hfirst

/-- The second part of signing a stream. -/
theorem Hashed.keepsPath {k : Stream} {G : ApduBuffer} {w : Work} {ending : Ending}
    (h : Hashed platform k G w ending) (hw : w.device.SignsWith path) : ending.SignsWith path := by
  cases h with
  | wrongP2 => exact signsWith_throw hw _ _
  | tooLong => exact signsWith_throw hw _ _
  | outOfBounds => exact signsWith_stuck _
  | notClosed =>
    apply signsWith_throw
    exact hw.congr rfl rfl
  | complete =>
    apply signsWith_review
    exact hw.congr rfl rfl
  | incomplete =>
    apply signsWith_throw
    exact hw.congr rfl rfl

/-- Signing a stream. -/
theorem StreamEnds.keepsPath {k : Stream} {G : ApduBuffer} {d : Device} {ending : Ending}
    (h : StreamEnds platform k G d ending) (hkeeps : G.KeepsPath path)
    (hd : ¬(G.p1 = P1_FIRST ∧ G.HasPath) → d.SignsWith path) : ending.SignsWith path := by
  cases h with
  | notBegun hbegun => exact hbegun.pathKept hkeeps hd
  | begun hbegun hhashed => exact hhashed.keepsPath (hbegun.pathKept hkeeps hd)

/-- What the end of `handleSign` leaves: the path, and the hash and the length of a stream. -/
structure Device.SameSigning (d d' : Device) : Prop where
  pathLength : d'.tmpCtx.pathLength = d.tmpCtx.pathLength
  bip32Path : d'.tmpCtx.bip32Path = d.tmpCtx.bip32Path
  remainingLength : d'.tmpCtx.remainingLength = d.tmpCtx.remainingLength
  blake2b : d'.blake2b = d.blake2b

/-- The display of a transaction. -/
theorem signDisplay_same {shown : Shown} {a : Answer} {d' : Device}
    (h : (signDisplay platform shown).answer? = some (a, d')) : shown.device.SameSigning d' := by
  unfold signDisplay at h
  split at h
  · cases h
  · split at h
    · cases h
      exact ⟨rfl, rfl, rfl, rfl⟩
    · cases h

/-- The lookup of tokens. -/
theorem recognizeToken_same (d : Device) : d.SameSigning (recognizeToken d).device := by
  unfold recognizeToken
  split
  · exact ⟨rfl, rfl, rfl, rfl⟩
  · exact ⟨rfl, rfl, rfl, rfl⟩

/-- The statements of `handleSign` behind the parser. -/
theorem signFinish_same {settings : Settings} {d d' : Device} {a : Answer}
    (h : (signFinish platform settings d).answer? = some (a, d')) : d.SameSigning d' := by
  unfold signFinish at h
  cases hchecks : signChecks platform settings d with
  | inl ending =>
    rw [hchecks] at h
    unfold signChecks at hchecks
    dsimp only at hchecks
    split_ifs at hchecks
    · cases hchecks
      cases h
      exact ⟨rfl, rfl, rfl, rfl⟩
    · cases hchecks
      cases h
      exact ⟨rfl, rfl, rfl, rfl⟩
  | inr checked =>
    rw [hchecks] at h
    obtain ⟨-, e, hrefused⟩ | ⟨-, hpassed⟩ := signChecks_cases platform settings d
    · rw [hrefused] at hchecks
      cases hchecks
    · rw [hpassed] at hchecks
      cases hchecks
      have hdisplay := signDisplay_same h
      have htoken := recognizeToken_same (d.checked platform)
      exact ⟨hdisplay.pathLength.trans htoken.pathLength, hdisplay.bip32Path.trans htoken.bip32Path,
        hdisplay.remainingLength.trans htoken.remainingLength,
        hdisplay.blake2b.trans htoken.blake2b⟩

/-- The statements of `handleSign` from the call of the parser on. -/
theorem signRest_keepsPath (settings : Settings) (G : ApduBuffer) {w : Work}
    (h : w.device.SignsWith path) : (signRest platform settings G w).SignsWith path := by
  unfold signRest
  cases hinit : signInitialized G w.device with
  | some ending =>
    rcases signInitialized_some hinit with ⟨sw, -, rfl⟩ | ⟨e, rfl⟩
    · exact signsWith_throw h _ _
    · exact signsWith_stuck _
  | none =>
    dsimp only
    cases processTx (platform.scratch w.device.session) w.device.tx
        (G.bytes w.workBuffer w.dataLength.toNat) with
    | stuck e => exact signsWith_stuck _
    | returned status tx =>
      cases status with
      | processing =>
        apply signsWith_throw
        exact h.congr rfl rfl
      | fault =>
        apply signsWith_throw
        exact h.congr rfl rfl
      | finished =>
        intro a d' ha
        have hsame := signFinish_same ha
        exact h.congr hsame.pathLength hsame.bip32Path

/-- Signing a transaction. -/
theorem handleSign_keepsPath (settings : Settings) {G : ApduBuffer} {d : Device}
    (hkeeps : G.KeepsPath path) (hd : ¬(G.p1 = P1_FIRST ∧ G.HasPath) → d.SignsWith path) :
    (handleSign platform settings G d).SignsWith path := by
  rw [handleSign_eq]
  unfold signBegin
  by_cases hp1 : G.p1 = P1_FIRST
  · rw [if_pos hp1]
    have hcleared (h : ¬(G.p1 = P1_FIRST ∧ G.HasPath)) :
        (d.setClauses ⟨0, false⟩ .zero).SignsWith path := (hd h).congr rfl rfl
    have hbegin := beginPath_pathKept hp1 hkeeps hcleared
    cases hpath : beginPath G (d.setClauses ⟨0, false⟩ .zero) with
    | inl ending =>
      rw [hpath] at hbegin
      exact hbegin
    | inr w =>
      rw [hpath] at hbegin
      exact signRest_keepsPath settings G (hbegin.congr rfl rfl)
  · rw [if_neg hp1]
    have hsigns := hd fun h => hp1 h.1
    split_ifs
    · exact signsWith_throw hsigns _ _
    · exact signRest_keepsPath settings G hsigns

/-- A command that does not get as far as deriving a key is refused. -/
theorem handleGetPublicKey_of_not_derives (platform : Platform) {G : ApduBuffer} (d : Device)
    (hins : G.ins = INS_GET_PUBLIC_KEY) (hderives : ¬G.DerivesKey) :
    ∃ sw, handleGetPublicKey platform G d = .throw [] sw d := by
  unfold handleGetPublicKey
  by_cases hp1 : G.p1 ≠ P1_CONFIRM ∧ G.p1 ≠ P1_NON_CONFIRM
  · rw [if_pos hp1]
    exact ⟨_, rfl⟩
  · rw [if_neg hp1]
    by_cases hp2 : G.p2 ≠ P2_CHAINCODE ∧ G.p2 ≠ P2_NO_CHAINCODE
    · rw [if_pos hp2]
      exact ⟨_, rfl⟩
    · have hpath : ¬G.HasPath := by
        intro hpath
        apply hderives
        rw [not_and_or, not_not, not_not] at hp1 hp2
        exact ⟨hins, hp1, hp2, hpath⟩
      rw [if_neg hp2,
        parseBip32Path_of_not_complete fun hcomplete => hpath (G.hasPath_iff.mpr hcomplete)]
      exact ⟨_, rfl⟩

/-- **A command that leaves the path**, for every instruction. -/
theorem dispatch_keepsPath {c : Command} {d : Device} (hkeeps : c.KeepsPath path)
    (hd : ¬(c.G.cla = CLA ∧ c.G.ins ∈ signingInstructions ∧ c.G.p1 = P1_FIRST ∧ c.G.HasPath) →
      d.SignsWith path) : (dispatch platform c.settings c.G d).SignsWith path := by
  have hdispatched := dispatch_dispatched platform c.settings c.G d
  generalize dispatch platform c.settings c.G d = ending at hdispatched ⊢
  have hsigning (hcla : c.G.cla = CLA) (hins : c.G.ins ∈ signingInstructions) :
      c.G.KeepsPath path ∧ (¬(c.G.p1 = P1_FIRST ∧ c.G.HasPath) → d.SignsWith path) :=
    ⟨(hkeeps hcla).1 hins, fun h => hd fun hfirst => h hfirst.2.2⟩
  cases hdispatched with
  | publicKey hcla hins =>
    obtain ⟨sw, hrefused⟩ :=
      handleGetPublicKey_of_not_derives platform d hins (hkeeps hcla).2
    rw [hrefused]
    apply signsWith_throw
    apply hd
    rintro ⟨-, hmem, -⟩
    rw [hins] at hmem
    exact absurd hmem (by decide)
  | transaction hcla hins =>
    obtain ⟨hpath, hbegin⟩ := hsigning hcla (by rw [hins]; decide)
    exact handleSign_keepsPath c.settings hpath hbegin
  | message hcla hins =>
    obtain ⟨hpath, hbegin⟩ := hsigning hcla (by rw [hins]; decide)
    exact (handleSignPersonalMessage_ends platform c.G d).keepsPath hpath hbegin
  | certificate hcla hins =>
    obtain ⟨hpath, hbegin⟩ := hsigning hcla (by rw [hins]; decide)
    exact (handleSignCertificate_ends platform c.G d).keepsPath hpath hbegin
  | status hregular hother =>
    apply signsWith_throw
    apply hd
    rintro ⟨hcla, hmem, -⟩
    obtain ⟨hsign, hmessage, hcertificate⟩ := hother hcla
    simp [signingInstructions, hsign, hmessage, hcertificate] at hmem

/-- What a step leaves. -/
theorem step_keepsPath {c : Command} {d d' : Device} {a : Answer}
    (h : platform.device.step c d = some (a, d')) (hkeeps : c.KeepsPath path)
    (hd : ¬(c.G.cla = CLA ∧ c.G.ins ∈ signingInstructions ∧ c.G.p1 = P1_FIRST ∧ c.G.HasPath) →
      d.SignsWith path) : d'.SignsWith path := by
  obtain ⟨d₁, hanswer, -, hkept⟩ := handleApdu_answer h
  have hd₁ : d₁.SignsWith path := dispatch_keepsPath hkeeps hd _ _ hanswer
  exact hd₁.congr (by rw [hkept]) (by rw [hkept])

/-- A session of the instruction begins. -/
def beginsSessionOf (ins : UInt8) (step : Step Command Answer Device) : Bool :=
  beginsSession step && step.event.G.ins = ins

/-- A session begins with a complete path. -/
theorem hasPath_of_beginsSession {c : Command} {d d' : Device} {a : Answer}
    (h : platform.device.step c d = some (a, d')) (hbegins : beginsSession ⟨d, c, a, d'⟩ = true) :
    c.G.HasPath := by
  simp only [beginsSession, Bool.and_eq_true, decide_eq_true_eq, Bool.not_eq_true'] at hbegins
  obtain ⟨⟨⟨hcla, hins⟩, hp1⟩, herror⟩ := hbegins
  by_contra hpath
  obtain ⟨d₁, hanswer, -⟩ := handleApdu_some h
  have hrefused (e : Device) : Ending.answer? (.throw [] HW_INCORRECT_DATA e) ≠ some (a, d₁) := by
    intro h
    cases h
    cases herror
  have hstream {k : Stream} (hends : StreamEnds platform k c.G d
      (dispatch platform c.settings c.G d)) : False := by
    generalize dispatch platform c.settings c.G d = ending at hends hanswer
    cases hends with
    | notBegun hbegun =>
      cases hbegun with
      | noPath => exact hrefused _ hanswer
      | notOpened => exact hrefused _ hanswer
      | diverges => cases hanswer
      | wrongP1 hne => exact hne hp1
    | begun hbegun =>
      cases hbegun with
      | first _ hbegin => exact hpath (beginPath_inr hbegin).1
      | more hmore =>
        rw [hp1] at hmore
        cases hmore
  simp only [signingInstructions, List.mem_cons, List.not_mem_nil, or_false] at hins
  rcases hins with hsign | hmessage | hcertificate
  · rw [dispatch_sign platform c.settings hcla hsign, handleSign_eq, signBegin, if_pos hp1,
      beginPath_of_not_hasPath hpath] at hanswer
    exact hrefused _ hanswer
  · have hends := handleSignPersonalMessage_ends platform c.G d
    rw [← dispatch_message platform c.settings hcla hmessage d] at hends
    exact hstream hends
  · have hends := handleSignCertificate_ends platform c.G d
    rw [← dispatch_certificate platform c.settings hcla hcertificate d] at hends
    exact hstream hends

/-- The instruction that shows a flow. -/
def Flow.instruction : Flow → UInt8
  | .publicKey => INS_GET_PUBLIC_KEY
  | .transaction _ _ => INS_SIGN
  | .message => INS_SIGN_PERSONAL_MESSAGE
  | .certificate => INS_SIGN_CERTIFICATE

/-- A review is shown by its own instruction. -/
theorem instruction_of_review {c : Command} {d d' : Device} {flow : Flow}
    (h : platform.device.step c d = some (.review flow, d')) :
    c.G.cla = CLA ∧ c.G.ins = flow.instruction := by
  obtain ⟨d₁, hanswer, -⟩ := handleApdu_some h
  have hcla : c.G.cla = CLA := by
    by_contra hcla
    rw [dispatch, if_pos hcla] at hanswer
    cases hanswer
  refine ⟨hcla, ?_⟩
  by_cases hsign : c.G.ins = INS_SIGN
  · rw [dispatch_sign platform c.settings hcla hsign] at hanswer
    have hends := handleSign_ends platform c.settings c.G d
    generalize handleSign platform c.settings c.G d = ending at hanswer hends
    cases hends <;> cases hanswer
    exact hsign
  · by_cases hmessage : c.G.ins = INS_SIGN_PERSONAL_MESSAGE
    · rw [dispatch_message platform c.settings hcla hmessage] at hanswer
      rw [(handleSignPersonalMessage_ends platform c.G d).flow hanswer]
      exact hmessage
    · by_cases hcertificate : c.G.ins = INS_SIGN_CERTIFICATE
      · rw [dispatch_certificate platform c.settings hcla hcertificate] at hanswer
        rw [(handleSignCertificate_ends platform c.G d).flow hanswer]
        exact hcertificate
      · unfold dispatch at hanswer
        rw [if_neg (not_not.mpr hcla)] at hanswer
        by_cases hkey : c.G.ins = INS_GET_PUBLIC_KEY
        · rw [if_pos hkey] at hanswer
          have hends := handleGetPublicKey_ends platform c.G d
          generalize handleGetPublicKey platform c.G d = ending at hanswer hends
          cases hends <;> cases hanswer
          exact hkey
        · rw [if_neg hkey, if_neg hsign, if_neg hmessage, if_neg hcertificate] at hanswer
          split_ifs at hanswer <;> cases hanswer

/-- The path of a session, in every run: it stays the one of its beginning while every command
leaves it. -/
theorem signsWith_of_run {steps : List (Step Command Answer Device)} {d : Device}
    (h : Run platform.device steps d) {ins : UInt8} {first : Step Command Answer Device}
    (hfirst : steps.find? (beginsSessionOf ins) = some first)
    (hkeeps : ∀ step ∈ since (beginsSessionOf ins) steps,
      step.event.KeepsPath first.event.G.path) :
    first.event.G.HasPath ∧ d.SignsWith first.event.G.path := by
  revert hkeeps
  refine h.find_induction (P := fun first steps d =>
    (∀ step ∈ steps, step.event.KeepsPath first.event.G.path) →
      first.event.G.HasPath ∧ d.SignsWith first.event.G.path) ?_ ?_ hfirst
  · intro steps d c a d' _ hstep hbegins hkeeps
    rw [beginsSessionOf, Bool.and_eq_true] at hbegins
    have hpath := hasPath_of_beginsSession hstep hbegins.1
    refine ⟨hpath, step_keepsPath hstep (hkeeps _ List.mem_cons_self) fun hne => ?_⟩
    simp only [beginsSession, Bool.and_eq_true, decide_eq_true_eq] at hbegins
    obtain ⟨⟨⟨⟨hcla, hins⟩, hp1⟩, -⟩, -⟩ := hbegins
    exact absurd ⟨hcla, hins, hp1, hpath⟩ hne
  · intro first steps d c a d' _ hstep _ ih hkeeps
    obtain ⟨hpath, hd⟩ := ih fun step hmem => hkeeps step (List.mem_cons_of_mem _ hmem)
    exact ⟨hpath, step_keepsPath hstep (hkeeps _ List.mem_cons_self) fun _ => hd⟩

/-- **Key binding**, in every run: a review of signing is shown for the path of the session that
its own instruction began last, if every command since left the path. -/
theorem path_bound {step : Step Command Answer Device} {steps : List (Step Command Answer Device)}
    {d : Device} (h : Run platform.device (step :: steps) d) {flow : Flow}
    (hshown : step.answer = .review flow) (hsigns : flow ≠ .publicKey)
    {first : Step Command Answer Device}
    (hfirst : (step :: steps).find? (beginsSessionOf flow.instruction) = some first)
    (hkeeps : ∀ s ∈ since (beginsSessionOf flow.instruction) (step :: steps),
      s.event.KeepsPath first.event.G.path) :
    step.event.G.ins = flow.instruction ∧ flow.instruction ∈ signingInstructions ∧
      d.tmpCtx.path = first.event.G.path ∧ d.tmpCtx.pathLength.toNat = first.event.G.pathLength ∧
      1 ≤ d.tmpCtx.pathLength.toNat ∧ d.tmpCtx.pathLength.toNat ≤ 10 := by
  obtain ⟨-, hstep, -⟩ := h.after_head
  rw [hshown] at hstep
  obtain ⟨⟨hpos, hle, -⟩, hlength, hwords⟩ := signsWith_of_run h hfirst hkeeps
  rw [ApduBuffer.path_length] at hlength
  refine ⟨(instruction_of_review hstep).2, ?_, hwords, hlength, hlength ▸ hpos, hlength ▸ hle⟩
  cases flow with
  | publicKey => exact absurd rfl hsigns
  | transaction => exact List.mem_cons_self
  | message => decide
  | certificate => decide

theorem path_bound_completed : ∃ (steps : List (Step Command Answer Device)) (d : Device),
    Run (Platform.recorded messageDigests).device steps d ∧ d.tmpCtx.path = [0x80000000] ∧
      1 ≤ d.tmpCtx.pathLength.toNat ∧ d.tmpCtx.pathLength.toNat ≤ 10 := by
  have hreplay : ((Platform.recorded messageDigests).device.replay completedMessage
      ([], .boot)).map (fun run => (run.1.map Step.answer,
        (run.1.find? (beginsSessionOf INS_SIGN_PERSONAL_MESSAGE)).map fun first =>
          (first.event.G.path,
            decide (∀ s ∈ since (beginsSessionOf INS_SIGN_PERSONAL_MESSAGE) run.1,
            s.event.KeepsPath first.event.G.path)))) =
      some ([.review .message, .status [] HW_CLA_NOT_SUPPORTED, .status [] HW_OK],
        some ([0x80000000], true)) := by
    decide +kernel
  obtain ⟨⟨steps, d⟩, hrun, hseen⟩ := exists_replay hreplay
  obtain ⟨hanswers, hfirst⟩ := Prod.mk.inj hseen
  obtain ⟨shown, steps, rfl, hshown, -⟩ := List.map_eq_cons_iff.mp hanswers
  obtain ⟨first, hfirst, hpath⟩ := Option.map_eq_some_iff.mp hfirst
  obtain ⟨hpath, hkeeps⟩ := Prod.mk.inj hpath
  obtain ⟨-, -, hwords, -, hpos, hle⟩ :=
    path_bound hrun hshown (by decide) hfirst (of_decide_eq_true hkeeps)
  exact ⟨_, d, hrun, hwords.trans hpath, hpos, hle⟩

/-- A message of two bytes is announced, a transaction begins with another path, and the
message is completed. -/
def rebound : List Command := [
  .received [0xe0, 0x08, 0x00, 0x00, 0x09, 0x01, 0x80, 0x00, 0x00, 0x00, 0x00, 0x00, 0x00, 0x02],
  .received [0xe0, 0x04, 0x00, 0x00, 0x05, 0x01, 0x80, 0x00, 0x00, 0x01],
  .received [0xe0, 0x08, 0x80, 0x00, 0x02, 0x68, 0x69]]

/-- The path of a review may be the one of another session. -/
theorem path_not_bound : ¬∀ (platform : Platform) (step : Step Command Answer Device)
    (steps : List (Step Command Answer Device)) (d : Device) (flow : Flow),
    Run platform.device (step :: steps) d → step.answer = .review flow → flow ≠ .publicKey →
    ∃ first, (step :: steps).find? (beginsSessionOf flow.instruction) = some first ∧
      d.tmpCtx.path = first.event.G.path := by
  intro h
  have hreplay : ((Platform.recorded []).device.replay rebound ([], .boot)).map (fun run =>
      (run.1.map Step.answer, run.2.tmpCtx.path,
        (run.1.find? (beginsSessionOf INS_SIGN_PERSONAL_MESSAGE)).map fun first =>
          first.event.G.path)) =
      some ([.review .message, .status [] HW_OK, .status [] HW_OK], [0x80000001],
        some [0x80000000]) := by
    decide +kernel
  obtain ⟨⟨steps, d⟩, hrun, hseen⟩ := exists_replay hreplay
  obtain ⟨hanswers, hseen⟩ := Prod.mk.inj hseen
  obtain ⟨hpath, hfirst⟩ := Prod.mk.inj hseen
  obtain ⟨shown, steps, rfl, hshown, -⟩ := List.map_eq_cons_iff.mp hanswers
  obtain ⟨first, hfirst', hsame⟩ := h _ _ _ _ _ hrun hshown (by decide)
  dsimp only [Flow.instruction] at hpath hfirst hfirst'
  rw [hfirst', Option.map_some, ← hsame, hpath] at hfirst
  exact absurd hfirst (by decide)

end AppVechain
