import AppVechain.Device.Record

/-!
# What is not answered

Every command is answered by a device in every state that it comes to, but for two
kinds. A transaction is parsed and checked whose amount is longer than its buffer;
and the beginning of a message or a certificate ends within its length, so that
the subtraction of its four bytes wraps and the hash reads behind the buffer. It is
assumed that the variable of the clauses behind the first one, which is used when its
block was left, shares its place in the storage with nothing else.
-/

namespace AppVechain

open Numeral Reactive

variable {platform : Platform} {H : List UInt8 → List UInt8 → Prop} {G : ApduBuffer} {d : Device}

/-- The beginning of a stream that ends within the length behind its path. What is left of the
data wraps to at least 65532 bytes, which are not more than the declared length. -/
structure ApduBuffer.Overruns (kind : Kind) (G : ApduBuffer) : Prop where
  p1 : G.p1 = P1_FIRST
  p2 : G.p2 = 0
  path : G.HasPath
  short : G.lc.toNat < 1 + 4 * G.pathLength + 4
  opened : kind.stream.opened (G.byte (G.behindPath + 4)) = true
  wrapped : 2 ^ 16 + G.lc.toNat ≤ G.declaredLength.toNat + (1 + 4 * G.pathLength + 4)

/-- A device is not left with an answer to this command. -/
def Command.Unanswered (platform : Platform) (c : Command) (d : Device) : Prop :=
  c.G.cla = CLA ∧ ((c.G.ins = INS_SIGN ∧
      ∃ shown, signAccept platform c.settings c.G d = .inr shown ∧
        ¬FractionFits 10 18 shown.amountRoom shown.device.clauseContent.value.number) ∨
    ∃ kind : Kind, c.G.ins = kind.stream.flow.instruction ∧ c.G.Overruns kind)

/-- A handler comes to an end. -/
def Ending.Ends (ending : Ending) : Prop := ending.answer? ≠ none

/-- A status is an answer. -/
theorem ends_throw (data : List UInt8) (sw : UInt16) (d : Device) :
    (Ending.throw data sw d).Ends := Option.some_ne_none _

/-- Something is said of an end. -/
theorem Ending.Ends.response_ne {ending : Ending} (h : ending.Ends) :
    ending.response ≠ .silent := by
  unfold Ending.response
  cases hanswer : ending.answer? with
  | none => exact absurd hanswer h
  | some next => exact fun h => by cases h

/-- In a session the parser returns. -/
theorem Device.Session.returns (hH : KeptByHashing H) {bytes : List UInt8}
    (h : d.Session platform H bytes) (chunk : List UInt8) :
    ∃ status tx, AppVechain.processTx (platform.scratch d.session) d.tx chunk =
      .returned status tx := by
  obtain ⟨content, hrun⟩ := h.processTx hH chunk
  split at hrun
  · obtain ⟨tx, hprocess, -⟩ := hrun
    exact ⟨_, tx, hprocess⟩
  · obtain ⟨tx, hprocess, -⟩ := hrun
    exact ⟨_, tx, hprocess⟩
  · obtain ⟨tx, hprocess⟩ := hrun
    exact ⟨_, tx, hprocess⟩

/-- A parser that is open or closed is found to be so. -/
theorem signInitialized_ends {ending : Ending} (hd : d.Open platform ∨ d.Closed)
    (h : signInitialized G d = some ending) : ending.Ends := by
  unfold signInitialized at h
  by_cases hp2 : G.p2 = 0
  case neg =>
    rw [if_pos hp2] at h
    cases h
    exact ends_throw _ _ _
  rw [if_neg (not_not.mpr hp2)] at h
  cases hfee : d.feeComputationContext with
  | some fee =>
    rw [hfee] at h
    have htop : fee.baseGasPrice.upper.upper = 0 := by
      rcases hd with hopen | hclosed
      · rw [hopen.fee] at hfee
        cases hfee
      · unfold Device.Closed at hclosed
        rw [hfee] at hclosed
        exact hclosed
    simp only [if_pos htop] at h
    cases h
    exact ends_throw _ _ _
  | none =>
    rw [hfee] at h
    simp only at h
    split_ifs at h
    · cases h
      exact ends_throw _ _ _
    · cases h
      exact ends_throw _ _ _

/-- **A transaction that is not accepted** is answered, in every run. -/
theorem signAccept_ends {steps : List (Step Command Answer Device)}
    (h : Run platform.device steps d) {c : Command} {ending : Ending}
    (hrefused : signAccept platform c.settings c.G d = .inl ending) : ending.Ends := by
  have hd := open_or_closed_of_run h
  have hsession (hp1 : c.G.p1 ≠ P1_FIRST) :
      d.Closed ∨ d.Session platform (fun _ _ => True) (consumedSince steps) :=
    session_of_run keptByHashing_true trivial h fun _ _ _ _ _ => trivial
  unfold signAccept at hrefused
  cases hparse : signParse platform c.G d with
  | inr d₁ =>
    rw [hparse] at hrefused
    rcases signChecks_cases platform c.settings d₁ with ⟨-, d', hd'⟩ | ⟨-, hpassed⟩
    · simp only [hd'] at hrefused
      cases hrefused
      exact ends_throw _ _ _
    · simp only [hpassed] at hrefused
      cases hrefused
  | inl ending' =>
    rw [hparse] at hrefused
    cases hrefused
    unfold signParse at hparse
    cases hbegin : signBegin c.G d with
    | inl ending' =>
      rw [hbegin] at hparse
      cases hparse
      obtain ⟨sw, d', -, rfl⟩ := signBegin_inl hbegin
      exact ends_throw _ _ _
    | inr w =>
      rw [hbegin] at hparse
      simp only at hparse
      have hopen : w.device.Open platform ∨ w.device.Closed := by
        rcases signBegin_p1 hbegin with hp1 | hp1
        · obtain ⟨-, -, -, -, htx, hfee, -⟩ := signBegin_first hp1 hbegin
          exact .inl ⟨hfee, by rw [htx]; exact .initialised _⟩
        · rw [signBegin_more hp1, Sum.inr.injEq] at hbegin
          subst hbegin
          exact hd
      cases hinit : signInitialized c.G w.device with
      | some ending' =>
        rw [hinit] at hparse
        cases hparse
        exact signInitialized_ends hopen hinit
      | none =>
        rw [hinit] at hparse
        have hcall : CallsParser c.G d w := ⟨hbegin, hinit⟩
        obtain ⟨status, tx, hprocess⟩ := (hcall.session trivial hsession).returns
          keptByHashing_true (c.G.bytes w.workBuffer w.dataLength.toNat)
        simp only [hprocess] at hparse
        cases status with
        | processing =>
          cases hparse
          exact ends_throw _ _ _
        | fault =>
          cases hparse
          exact ends_throw _ _ _
        | finished => cases hparse

/-- **When a transaction is not answered**, in every run: it was accepted, and its amount does not
fit. -/
theorem handleSign_ends_iff {steps : List (Step Command Answer Device)}
    (h : Run platform.device steps d) (c : Command) :
    (handleSign platform c.settings c.G d).Ends ↔
      ∀ shown, signAccept platform c.settings c.G d = .inr shown →
        FractionFits 10 18 shown.amountRoom shown.device.clauseContent.value.number := by
  unfold handleSign
  cases haccept : signAccept platform c.settings c.G d with
  | inl ending => exact iff_of_true (signAccept_ends h haccept) fun _ h => by cases h
  | inr shown =>
    obtain ⟨bytes, parsed, haccepted⟩ := accepted_of_run h haccept
    have hmeaning : (∀ shown', (.inr shown : Ending ⊕ Shown) = .inr shown' →
        FractionFits 10 18 shown'.amountRoom shown'.device.clauseContent.value.number) ↔
        FractionFits 10 18 shown.amountRoom shown.device.clauseContent.value.number :=
      ⟨fun h => h shown rfl, fun h _ hshown => by cases hshown; exact h⟩
    rw [hmeaning]
    constructor
    · intro hends
      by_contra hfits
      obtain ⟨strings, hstrings, haddress, hfee, hamount⟩ := haccepted.lengths
      rw [← hamount] at hfits
      have hsilent := signDisplay_response hstrings haddress.le (hfee.trans (by omega))
      rw [if_neg hfits] at hsilent
      exact hends.response_ne hsilent
    · intro hfits
      obtain ⟨fee, fullAddress, fullAmount, maxFee, hreview⟩ := haccepted.review hfits
      show (signDisplay platform shown).Ends
      rw [hreview]
      exact Option.some_ne_none _

/-- The second part of signing a stream ends, unless it reads behind the buffer. -/
theorem hashPayload_ends_iff (flow : Flow) (closed : UInt8 → Bool) (w : Work) :
    (hashPayload platform flow closed G w).Ends ↔
      ¬(G.p2 = 0 ∧ w.dataLength.toUInt32 ≤ w.device.tmpCtx.remainingLength ∧
        260 < w.workBuffer + w.dataLength.toNat) := by
  unfold hashPayload
  by_cases hp2 : G.p2 = 0
  case neg =>
    rw [if_pos hp2]
    exact iff_of_true (ends_throw _ _ _) fun h => hp2 h.1
  rw [if_neg (not_not.mpr hp2)]
  by_cases hlong : w.device.tmpCtx.remainingLength < w.dataLength.toUInt32
  · rw [if_pos hlong]
    exact iff_of_true (ends_throw _ _ _) fun h => UInt32.not_lt.mpr h.2.1 hlong
  · rw [if_neg hlong]
    by_cases hbound : 260 < w.workBuffer + w.dataLength.toNat
    · rw [if_pos hbound]
      exact iff_of_false (fun h => h rfl) fun h => h ⟨hp2, UInt32.not_lt.mp hlong, hbound⟩
    · rw [if_neg hbound]
      refine iff_of_true ?_ fun h => hbound h.2.2
      dsimp only
      split_ifs
      · exact ends_throw _ _ _
      · exact Option.some_ne_none _
      · exact ends_throw _ _ _

/-- What is left of a beginning that ends within its length. -/
theorem readLength_wrapped {w : Work} (hpath : beginPath G d = .inr w)
    (h : G.lc.toNat < 1 + 4 * G.pathLength + 4) :
    (w.readLength G).dataLength.toNat + (1 + 4 * G.pathLength + 4) = 2 ^ 16 + G.lc.toNat := by
  obtain ⟨⟨-, -, hle⟩, -, hdata, -⟩ := beginPath_inr hpath
  have hfour : (4 : UInt16).toNat = 4 := rfl
  show (w.dataLength - 4).toNat + _ = _
  rw [UInt16.toNat_sub, hfour]
  omega

/-- **When a stream is not answered**: its beginning overruns the buffer. -/
theorem stream_ends_iff {kind : Kind} {begun : Ending ⊕ Work} (h : Begun kind.stream G d begun) :
    (begun.elim id (hashPayload platform kind.stream.flow kind.stream.closed G)).Ends ↔
      ¬G.Overruns kind := by
  cases h with
  | noPath hp1 hpath => exact iff_of_true (ends_throw _ _ _) fun h => hpath h.path
  | notOpened hp1 hpath hopened =>
    obtain ⟨-, hwork, -⟩ := beginPath_inr hpath
    refine iff_of_true (ends_throw _ _ _) fun h => ?_
    have hopens := h.opened
    rw [← hwork, hopened] at hopens
    cases hopens
  | diverges hp1 hpath htext =>
    rw [kind.handled.start] at htext
    cases htext
  | wrongP1 hp1 => exact iff_of_true (ends_throw _ _ _) fun h => hp1 h.p1
  | more hp1 =>
    refine iff_of_true ?_ fun h => ?_
    · refine (hashPayload_ends_iff _ _ _).mpr ?_
      rintro ⟨-, -, hbound⟩
      have hlc := G.lc.toNat_lt
      have hbound : 260 < OFFSET_CDATA + G.lc.toUInt16.toNat := hbound
      rw [UInt8.toNat_toUInt16, OFFSET_CDATA] at hbound
      omega
    · rw [h.p1] at hp1
      exact absurd hp1 (by decide)
  | @first w text hp1 hpath hopened htext =>
    obtain ⟨hG, hwork, -⟩ := beginPath_inr hpath
    have hbehind : G.behindPath = OFFSET_CDATA + 1 + 4 * G.pathLength := rfl
    have hlc := G.lc.toNat_lt
    refine (hashPayload_ends_iff _ _ _).trans (not_congr ?_)
    show G.p2 = 0 ∧ (w.readLength G).dataLength.toUInt32 ≤ G.word w.workBuffer ∧
      260 < w.workBuffer + 4 + (w.readLength G).dataLength.toNat ↔ _
    rw [UInt32.le_iff_toNat_le, UInt16.toNat_toUInt32, hwork]
    by_cases hwhole : 1 + 4 * G.pathLength + 4 ≤ G.lc.toNat
    · rw [readLength_dataLength hpath hwhole]
      refine iff_of_false ?_ fun h => absurd h.short (not_lt.mpr hwhole)
      rintro ⟨-, -, hbound⟩
      rw [hbehind, OFFSET_CDATA] at hbound
      omega
    · have hwrapped := readLength_wrapped hpath (not_le.mp hwhole)
      rw [hwork] at hopened
      constructor
      · rintro ⟨hp2, hle, -⟩
        refine ⟨hp1, hp2, hG, not_le.mp hwhole, hopened, ?_⟩
        show _ ≤ (G.word G.behindPath).toNat + _
        omega
      · rintro ⟨-, hp2, -, -, -, hlong⟩
        have hlong : _ ≤ (G.word G.behindPath).toNat + _ := hlong
        obtain ⟨-, hten, -⟩ := hG
        exact ⟨hp2, by omega, by omega⟩

/-- A kind is known by its instruction, which is not the one of transactions. -/
theorem Kind.instruction_inj {kind kind' : Kind}
    (h : kind.stream.flow.instruction = kind'.stream.flow.instruction) : kind = kind' := by
  cases kind with
  | message =>
    cases kind' with
    | message => rfl
    | certificate => exact absurd h (by decide)
  | certificate =>
    cases kind' with
    | message => exact absurd h (by decide)
    | certificate => rfl

theorem Kind.instruction_ne (kind : Kind) :
    kind.stream.flow.instruction ≠ INS_SIGN ∧
      kind.stream.flow.instruction ≠ INS_GET_PUBLIC_KEY := by
  cases kind with
  | message => decide
  | certificate => decide

/-- When a command of a stream is not answered. -/
theorem unanswered_iff_overruns {c : Command} (hcla : c.G.cla = CLA) {kind : Kind}
    (hins : c.G.ins = kind.stream.flow.instruction) :
    c.Unanswered platform d ↔ c.G.Overruns kind := by
  constructor
  · rintro ⟨-, ⟨hsign, -⟩ | ⟨kind', hins', h⟩⟩
    · exact absurd (hins.symm.trans hsign) kind.instruction_ne.1
    · rwa [Kind.instruction_inj (hins.symm.trans hins')]
  · exact fun h => ⟨hcla, .inr ⟨kind, hins, h⟩⟩

/-- **What is not answered**, in every run, is one of these two kinds. -/
theorem dispatch_ends_iff {steps : List (Step Command Answer Device)}
    (h : Run platform.device steps d) (c : Command) :
    (dispatch platform c.settings c.G d).Ends ↔ ¬c.Unanswered platform d := by
  have hdispatched := dispatch_dispatched platform c.settings c.G d
  generalize dispatch platform c.settings c.G d = ending at hdispatched ⊢
  cases hdispatched with
  | publicKey hcla hins =>
    refine iff_of_true ?_ ?_
    · by_cases hderives : c.G.DerivesKey
      · rw [handleGetPublicKey_of_derives hderives]
        split_ifs
        · exact ends_throw _ _ _
        · exact Option.some_ne_none _
      · obtain ⟨sw, hthrow⟩ := handleGetPublicKey_of_not_derives platform d hins hderives
        rw [hthrow]
        exact ends_throw _ _ _
    · rintro ⟨-, ⟨hsign, -⟩ | ⟨kind, hkind, -⟩⟩
      · exact absurd (hins.symm.trans hsign) (by decide)
      · exact kind.instruction_ne.2 (hkind.symm.trans hins)
  | transaction hcla hins =>
    rw [handleSign_ends_iff h c]
    constructor
    · rintro hfits ⟨-, ⟨-, shown, haccept, hnot⟩ | ⟨kind, hkind, -⟩⟩
      · exact hnot (hfits shown haccept)
      · exact kind.instruction_ne.1 (hkind.symm.trans hins)
    · intro hanswered shown haccept
      by_contra hfits
      exact hanswered ⟨hcla, .inl ⟨hins, shown, haccept, hfits⟩⟩
  | message hcla hins =>
    have hbegun : Begun Kind.message.stream c.G d (messageBegin c.G d) := messageBegin_begun c.G d
    have hins : c.G.ins = Kind.message.stream.flow.instruction := hins
    rw [unanswered_iff_overruns hcla hins, ← stream_ends_iff hbegun]
    unfold handleSignPersonalMessage
    cases messageBegin c.G d with
    | inl ending => rfl
    | inr w => rfl
  | certificate hcla hins =>
    have hbegun : Begun Kind.certificate.stream c.G d (certificateBegin c.G d) :=
      certificateBegin_begun c.G d
    have hins : c.G.ins = Kind.certificate.stream.flow.instruction := hins
    rw [unanswered_iff_overruns hcla hins, ← stream_ends_iff hbegun]
    unfold handleSignCertificate
    cases certificateBegin c.G d with
    | inl ending => rfl
    | inr w => rfl
  | status _ hother =>
    refine iff_of_true (ends_throw _ _ _) ?_
    rintro ⟨hcla, ⟨hsign, -⟩ | ⟨kind, hkind, -⟩⟩
    · exact (hother hcla).1 hsign
    · obtain ⟨-, hmessage, hcertificate⟩ := hother hcla
      cases kind with
      | message => exact hmessage hkind
      | certificate => exact hcertificate hkind

/-- The device has no step for exactly these commands. -/
theorem device_stuck_iff {steps : List (Step Command Answer Device)}
    (h : Run platform.device steps d) (c : Command) :
    platform.device.step c d = none ↔ c.Unanswered platform d := by
  show handleApdu platform c.settings c.G d = none ↔ _
  rw [handleApdu_eq, Option.map_eq_none_iff, ← not_iff_not]
  exact dispatch_ends_iff h c

end AppVechain
