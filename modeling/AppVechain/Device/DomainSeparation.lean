import AppVechain.Device.KeyBinding
import AppVechain.Device.SignedBytes

/-!
# Domain separation

A message is hashed behind its magic and its length, a certificate alone. The
hash that is shown is that of the bytes of one session, if nothing was fed to
the hash since the session began but by the accepted commands of its instruction.
-/

namespace AppVechain

open Reactive Numeral

variable {platform : Platform} {k : Stream} {G : ApduBuffer} {d d' : Device} {a : Answer}

/-- The command initialises the parser, or brings bytes to a parser that waits for them. -/
def ApduBuffer.FeedsParser (G : ApduBuffer) (d : Device) : Prop :=
  (G.p1 = P1_FIRST ∧ G.HasPath) ∨
    (G.p1 = P1_MORE ∧ 0 < G.lc ∧ (signInitialized G d).isNone = true)

/-- The command begins a stream, or brings bytes that are not too many. -/
def ApduBuffer.FeedsStream (G : ApduBuffer) (d : Device) : Prop :=
  (G.p1 = P1_FIRST ∧ G.HasPath) ∨
    (G.p1 = P1_MORE ∧ G.p2 = 0 ∧ 0 < G.lc ∧ G.lc.toUInt32 ≤ d.tmpCtx.remainingLength)

/-- The command writes to the hash, or to the length that remains of a stream. -/
def Command.WritesStream (c : Command) (d : Device) : Prop :=
  c.G.cla = CLA ∧ (c.G.ins = INS_SIGN ∧ c.G.FeedsParser d ∨
    (c.G.ins = INS_SIGN_PERSONAL_MESSAGE ∨ c.G.ins = INS_SIGN_CERTIFICATE) ∧ c.G.FeedsStream d ∨
    c.G.DerivesKey)

instance (c : Command) (d : Device) : Decidable (c.WritesStream d) := by
  unfold Command.WritesStream ApduBuffer.FeedsParser ApduBuffer.FeedsStream
  infer_instance

/-- What a stream needs to go on is the same. -/
structure Device.KeepsStream (d d' : Device) : Prop where
  blake2b : d'.blake2b = d.blake2b
  remainingLength : d'.tmpCtx.remainingLength = d.tmpCtx.remainingLength

/-- A stream that is not fed is kept. -/
theorem StreamEnds.keepsStream {ending : Ending} (h : StreamEnds platform k G d ending)
    (hfeeds : ¬G.FeedsStream d) (ha : ending.answer? = some (a, d')) : d.KeepsStream d' := by
  cases h with
  | notBegun hbegun =>
    cases hbegun with
    | noPath =>
      cases ha
      exact ⟨rfl, rfl⟩
    | notOpened hp1 hpath => exact absurd (.inl ⟨hp1, (beginPath_inr hpath).1⟩) hfeeds
    | diverges => cases ha
    | wrongP1 =>
      cases ha
      exact ⟨rfl, rfl⟩
  | begun hbegun hhashed =>
    cases hbegun with
    | first hp1 hpath => exact absurd (.inl ⟨hp1, (beginPath_inr hpath).1⟩) hfeeds
    | more hp1 =>
      obtain ⟨hblake2b, hremaining⟩ := hhashed.nothing (fun h => hfeeds (.inr ⟨hp1, h⟩)) ha
      exact ⟨hblake2b, hremaining⟩

/-- A handler leaves what a stream needs. -/
def Ending.KeepsStream (ending : Ending) (d : Device) : Prop :=
  ∀ a d', ending.answer? = some (a, d') → d.KeepsStream d'

/-- A status leaves what the device is left with. -/
theorem keepsStream_throw (data : List UInt8) (sw : UInt16) (h : d.KeepsStream d') :
    (Ending.throw data sw d').KeepsStream d := by
  rintro a e ⟨⟩
  exact h

/-- A handler that is stuck leaves nothing. -/
theorem keepsStream_stuck (e : Stuck) : (Ending.stuck e).KeepsStream d := by
  rintro a d' ⟨⟩

/-- The statements of `handleSign` behind the parser. -/
theorem signFinish_keepsStream (settings : Settings) (h : d.KeepsStream d') :
    (signFinish platform settings d').KeepsStream d := by
  obtain ⟨hblake2b, hremaining⟩ := h
  intro a e ha
  have hsame := signFinish_same ha
  exact ⟨hsame.blake2b.trans hblake2b, hsame.remainingLength.trans hremaining⟩

/-- A parser that is called on no bytes stays as it is. -/
theorem process_nil {F E : Type} (p : Parser F E) (s : ParserState F E) :
    p.process s [] = .returned (if p.isDone s.currentField then .finished else p.exhausted)
      { s with workBuffer := ⟨[], []⟩ } := by
  unfold Parser.process Parser.loop Parser.turn
  cases hdone : p.isDone s.currentField with
  | true => simp
  | false => simp [ParserState.commandLength]

/-- Signing a transaction, when the parser is not fed. -/
theorem handleSign_keepsStream (settings : Settings) (hfeeds : ¬G.FeedsParser d) :
    (handleSign platform settings G d).KeepsStream d := by
  rw [handleSign_eq]
  by_cases hp1 : G.p1 = P1_FIRST
  · have hpath : ¬G.HasPath := fun hpath => hfeeds (.inl ⟨hp1, hpath⟩)
    rw [signBegin, if_pos hp1, beginPath_of_not_hasPath hpath]
    exact keepsStream_throw _ _ ⟨rfl, rfl⟩
  · by_cases hmore : G.p1 = P1_MORE
    · rw [signBegin_more hmore]
      show (signRest platform settings G ⟨d, OFFSET_CDATA, G.lc.toUInt16⟩).KeepsStream d
      unfold signRest
      cases hinit : signInitialized G d with
      | some ending =>
        rcases signInitialized_some hinit with ⟨sw, -, rfl⟩ | ⟨e, rfl⟩
        · exact keepsStream_throw _ _ ⟨rfl, rfl⟩
        · exact keepsStream_stuck _
      | none =>
        have hzero : G.lc.toUInt16 = 0 :=
          ApduBuffer.lc_eq_zero fun hlc => hfeeds (.inr ⟨hmore, hlc, by rw [hinit]; rfl⟩)
        dsimp only
        rw [hzero, UInt16.toNat_zero, ApduBuffer.bytes, List.take_zero, processTx, process_nil]
        generalize (if (txParser (platform.scratch d.session)).isDone d.tx.currentField then
          ParserStatus.finished else (txParser (platform.scratch d.session)).exhausted) = status
        cases status with
        | processing => exact keepsStream_throw _ _ ⟨rfl, rfl⟩
        | finished => exact signFinish_keepsStream settings ⟨rfl, rfl⟩
        | fault => exact keepsStream_throw _ _ ⟨rfl, rfl⟩
    · rw [signBegin, if_neg hp1, if_pos hmore]
      exact keepsStream_throw _ _ ⟨rfl, rfl⟩

/-- Deriving a key, when the command does not get that far. -/
theorem handleGetPublicKey_keepsStream (hins : G.ins = INS_GET_PUBLIC_KEY)
    (hderives : ¬G.DerivesKey) : (handleGetPublicKey platform G d).KeepsStream d := by
  obtain ⟨sw, h⟩ := handleGetPublicKey_of_not_derives platform d hins hderives
  rw [h]
  exact keepsStream_throw _ _ ⟨rfl, rfl⟩

/-- **A command that does not write to a stream leaves it**, for every instruction. -/
theorem dispatch_keepsStream {c : Command} (hwrites : ¬c.WritesStream d) :
    (dispatch platform c.settings c.G d).KeepsStream d := by
  have hdispatched := dispatch_dispatched platform c.settings c.G d
  generalize dispatch platform c.settings c.G d = ending at hdispatched ⊢
  cases hdispatched with
  | publicKey hcla hins =>
    exact handleGetPublicKey_keepsStream hins fun h => hwrites ⟨hcla, .inr (.inr h)⟩
  | transaction hcla hins =>
    exact handleSign_keepsStream c.settings fun h => hwrites ⟨hcla, .inl ⟨hins, h⟩⟩
  | message hcla hins =>
    intro a d' ha
    exact (handleSignPersonalMessage_ends platform c.G d).keepsStream
      (fun h => hwrites ⟨hcla, .inr (.inl ⟨.inl hins, h⟩)⟩) ha
  | certificate hcla hins =>
    intro a d' ha
    exact (handleSignCertificate_ends platform c.G d).keepsStream
      (fun h => hwrites ⟨hcla, .inr (.inl ⟨.inr hins, h⟩)⟩) ha
  | status => exact keepsStream_throw _ _ ⟨rfl, rfl⟩

/-- What a step leaves. -/
theorem step_keepsStream {c : Command} (h : platform.device.step c d = some (a, d'))
    (hwrites : ¬c.WritesStream d) : d.KeepsStream d' := by
  obtain ⟨d₁, hanswer, hhash, hctx⟩ := handleApdu_answer h
  obtain ⟨hblake2b, hremaining⟩ := dispatch_keepsStream hwrites a d₁ hanswer
  exact ⟨hhash.trans hblake2b, by rw [hctx, hremaining]⟩

/-- What is hashed of a command that is not refused. -/
theorem Hashed.accepted {w : Work} {ending : Ending} (h : Hashed platform k G w ending)
    (ha : ending.answer? = some (a, d')) (haccepted : a.isError = false) :
    d'.blake2b = w.device.blake2b ++ G.bytes w.workBuffer w.dataLength.toNat ∧
      d'.tmpCtx.remainingLength = w.device.tmpCtx.remainingLength - w.dataLength.toUInt32 ∧
      w.workBuffer + w.dataLength.toNat ≤ 260 ∧
      (w.dataLength.toUInt32 < w.device.tmpCtx.remainingLength ∨
        w.dataLength.toUInt32 = w.device.tmpCtx.remainingLength ∧
          d'.tmpCtx.hash = platform.blake2b256 d'.blake2b) ∧
      ∀ flow, a = .review flow → w.dataLength.toUInt32 = w.device.tmpCtx.remainingLength := by
  cases h with
  | wrongP2 =>
    cases ha
    cases haccepted
  | tooLong =>
    cases ha
    cases haccepted
  | outOfBounds => cases ha
  | notClosed =>
    cases ha
    cases haccepted
  | complete hp2 hlast hbound =>
    cases ha
    exact ⟨rfl, rfl, hbound, .inr ⟨hlast, rfl⟩, fun _ _ => hlast⟩
  | incomplete hp2 hmore hbound =>
    cases ha
    exact ⟨rfl, rfl, hbound, .inl hmore, nofun⟩

/-- The bytes of a stream that a command delivers. -/
def ApduBuffer.streamPart (G : ApduBuffer) : List UInt8 :=
  if G.p1 = P1_FIRST then G.firstPart else G.bytes OFFSET_CDATA G.lc.toNat

/-- The length that the beginning of a stream declares. -/
def ApduBuffer.declaredLength (G : ApduBuffer) : UInt32 := G.word G.behindPath

/-- The hash after an accepted command of a stream. -/
structure StreamFed (platform : Platform) (k : Stream) (G : ApduBuffer) (d d' : Device)
    (a : Answer) : Prop where
  first : G.p1 = P1_FIRST → ∃ text, k.start G.declaredLength = some text ∧
    d'.blake2b = text ++ G.streamPart
  more : G.p1 ≠ P1_FIRST → d'.blake2b = d.blake2b ++ G.streamPart ∧
    (d.tmpCtx.remainingLength = 0 → G.lc = 0 ∧ d'.tmpCtx.remainingLength = 0)
  shown : ∀ flow, a = .review flow →
    d'.tmpCtx.hash = platform.blake2b256 d'.blake2b ∧ d'.tmpCtx.remainingLength = 0

/-- An accepted command feeds the hash with what it delivers. -/
theorem StreamEnds.fed {ending : Ending} (h : StreamEnds platform k G d ending)
    (ha : ending.answer? = some (a, d')) (haccepted : a.isError = false) :
    StreamFed platform k G d d' a := by
  cases h with
  | notBegun hbegun =>
    cases hbegun <;> cases ha <;> cases haccepted
  | begun hbegun hhashed =>
    obtain ⟨hblake2b, hremaining, hbound, hlength, hreview⟩ := hhashed.accepted ha haccepted
    have hshown (flow : Flow) (hflow : a = .review flow) :
        d'.tmpCtx.hash = platform.blake2b256 d'.blake2b ∧ d'.tmpCtx.remainingLength = 0 := by
      have hlast := hreview flow hflow
      refine ⟨?_, by rw [hremaining, hlast, UInt32.sub_self]⟩
      rcases hlength with hmore | ⟨-, hhash⟩
      · rw [hlast] at hmore
        exact absurd hmore (UInt32.lt_irrefl _)
      · exact hhash
    cases hbegun with
    | @first w text hp1 hpath hopened htext =>
      obtain ⟨hG, hwork, hdata, -⟩ := beginPath_inr hpath
      -- a length that is not complete would be far out of the buffer
      have hcomplete : 1 + 4 * G.pathLength + 4 ≤ G.lc.toNat := by
        by_contra hshort
        have hsub : (w.dataLength - 4).toNat = (2 ^ 16 - 4 + w.dataLength.toNat) % 2 ^ 16 :=
          UInt16.toNat_sub _ _
        have hin : (w.dataLength - 4).toNat ≤ 260 := (Nat.le_add_left _ _).trans hbound
        omega
      refine ⟨fun _ => ⟨text, ?_, ?_⟩, fun hne => absurd hp1 hne, hshown⟩
      · rw [ApduBuffer.declaredLength, ← hwork, htext]
      · rw [hblake2b, ApduBuffer.streamPart, if_pos hp1, ApduBuffer.firstPart,
          ← readLength_dataLength hpath hcomplete, ← hwork]
        rfl
    | more hp1 =>
      have hfirst : G.p1 ≠ P1_FIRST := by
        rw [hp1]
        decide
      refine ⟨fun h => absurd h hfirst, fun _ => ⟨?_, ?_⟩, hshown⟩
      · rw [hblake2b, ApduBuffer.streamPart, if_neg hfirst, ← UInt8.toNat_toUInt16]
      · intro hzero
        have hlast : G.lc.toUInt16.toUInt32 = 0 := by
          rcases hlength with hless | ⟨hlast, -⟩
          · rw [hzero] at hless
            exact absurd hless (UInt32.not_lt_zero)
          · exact hlast.trans hzero
        constructor
        · have hnat := congrArg UInt32.toNat hlast
          rw [UInt16.toNat_toUInt32, UInt8.toNat_toUInt16] at hnat
          exact UInt8.toNat_inj.mp hnat
        · rw [hremaining, hzero, hlast, UInt32.sub_zero]

/-- A command of the instruction is not refused. -/
def acceptedBy (ins : UInt8) (step : Step Command Answer Device) : Bool :=
  step.event.G.cla = CLA && step.event.G.ins = ins && !step.answer.isError

/-- The bytes of a stream that a step delivers, when it is accepted. -/
def deliveredBy (ins : UInt8) (step : Step Command Answer Device) : List UInt8 :=
  if acceptedBy ins step then step.event.G.streamPart else []

/-- The bytes of a stream that were delivered since its session began. -/
def deliveredSince (ins : UInt8) (steps : List (Step Command Answer Device)) : List UInt8 :=
  (since (beginsSessionOf ins) steps).reverse.flatMap (deliveredBy ins)

/-- What is signed in front of a stream: the magic and the length of a message in decimal. -/
def Flow.signedPrefix : Flow → UInt32 → List UInt8
  | .message, length => SIGN_MAGIC ++ digitsText (numeral 10 length.toNat)
  | _, _ => []

/-- The commands of the instruction are handled as a stream that is hashed behind its prefix. -/
structure Stream.Handled (k : Stream) : Prop where
  signs : k.flow.instruction ∈ signingInstructions
  start : ∀ length, k.start length = some (k.flow.signedPrefix length)
  ends : ∀ (platform : Platform) (settings : Settings) (G : ApduBuffer) (d : Device), G.cla = CLA →
    G.ins = k.flow.instruction → StreamEnds platform k G d (dispatch platform settings G d)

/-- Messages are handled so. -/
theorem messageStream_handled : messageStream.Handled where
  signs := by decide
  start length := congrArg (Option.map (SIGN_MAGIC ++ ·)) (lengthText_eq length)
  ends platform settings G d hcla hins := by
    rw [dispatch_message platform settings hcla hins]
    exact handleSignPersonalMessage_ends platform G d

/-- Certificates are handled so. -/
theorem certificateStream_handled : certificateStream.Handled where
  signs := by decide
  start _ := rfl
  ends platform settings G d hcla hins := by
    rw [dispatch_certificate platform settings hcla hins]
    exact handleSignCertificate_ends platform G d

/-- A session begins with an accepted `P1_FIRST`. -/
theorem beginsSessionOf_iff {ins : UInt8} (hins : ins ∈ signingInstructions)
    (step : Step Command Answer Device) :
    beginsSessionOf ins step = true ↔ acceptedBy ins step = true ∧ step.event.G.p1 = P1_FIRST := by
  simp only [beginsSessionOf, beginsSession, acceptedBy, Bool.and_eq_true, decide_eq_true_eq]
  constructor
  · rintro ⟨⟨⟨⟨hcla, -⟩, hp1⟩, hanswer⟩, hsame⟩
    exact ⟨⟨⟨hcla, hsame⟩, hanswer⟩, hp1⟩
  · rintro ⟨⟨⟨hcla, hsame⟩, hanswer⟩, hp1⟩
    exact ⟨⟨⟨⟨hcla, hsame ▸ hins⟩, hp1⟩, hanswer⟩, hsame⟩

/-- An accepted command of a stream feeds it. -/
theorem Stream.Handled.fed (hk : k.Handled) {c : Command}
    (h : platform.device.step c d = some (a, d'))
    (haccepted : acceptedBy k.flow.instruction ⟨d, c, a, d'⟩ = true) :
    StreamFed platform k c.G d d' a := by
  simp only [acceptedBy, Bool.and_eq_true, decide_eq_true_eq, Bool.not_eq_true'] at haccepted
  obtain ⟨⟨hcla, hins⟩, hanswer⟩ := haccepted
  obtain ⟨d₁, hdispatch, rfl⟩ := handleApdu_some h
  rw [hanswer, if_neg Bool.false_ne_true]
  exact (hk.ends platform c.settings c.G d hcla hins).fed hdispatch hanswer

/-- A review is an accepted command of its instruction. -/
theorem acceptedBy_of_review {c : Command} {flow : Flow}
    (h : platform.device.step c d = some (.review flow, d')) :
    acceptedBy flow.instruction ⟨d, c, .review flow, d'⟩ = true := by
  obtain ⟨hcla, hins⟩ := instruction_of_review h
  simp [acceptedBy, hcla, hins, Answer.isError]

/-- **The hash of a stream**, in every run: it was fed with the bytes delivered since the session
began, behind the prefix; and nothing remains after a review. -/
theorem stream_of_run (hk : k.Handled) {steps : List (Step Command Answer Device)}
    (h : Run platform.device steps d) {first : Step Command Answer Device}
    (hfirst : steps.find? (beginsSessionOf k.flow.instruction) = some first)
    (hkeeps : ∀ s ∈ since (beginsSessionOf k.flow.instruction) steps,
      acceptedBy k.flow.instruction s = true ∨ ¬s.event.WritesStream s.before) :
    d.blake2b = k.flow.signedPrefix first.event.G.declaredLength ++
        deliveredSince k.flow.instruction steps ∧
      ((∃ s ∈ since (beginsSessionOf k.flow.instruction) steps, s.answer = .review k.flow) →
        d.tmpCtx.remainingLength = 0) := by
  revert hkeeps
  refine h.find_induction (P := fun first steps d =>
    (∀ s ∈ steps, acceptedBy k.flow.instruction s = true ∨ ¬s.event.WritesStream s.before) →
      d.blake2b = k.flow.signedPrefix first.event.G.declaredLength ++
          steps.reverse.flatMap (deliveredBy k.flow.instruction) ∧
        ((∃ s ∈ steps, s.answer = .review k.flow) → d.tmpCtx.remainingLength = 0)) ?_ ?_ hfirst
  · intro steps d c a d' _ hstep hbegins _
    rw [beginsSessionOf_iff hk.signs] at hbegins
    obtain ⟨haccepted, hp1⟩ := hbegins
    have hfed := hk.fed hstep haccepted
    constructor
    · obtain ⟨text, htext, hblake2b⟩ := hfed.first hp1
      rw [hk.start, Option.some.injEq] at htext
      rw [hblake2b, ← htext, List.reverse_singleton, List.flatMap_singleton, deliveredBy,
        if_pos haccepted]
    · rintro ⟨s, hmem, hs⟩
      obtain rfl := List.mem_singleton.mp hmem
      exact (hfed.shown _ hs).2
  · intro first steps d c a d' _ hstep hbegins ih hkeeps
    obtain ⟨hblake2b, hremaining⟩ := ih fun s hs => hkeeps s (List.mem_cons_of_mem _ hs)
    rw [List.reverse_cons, List.flatMap_append, List.flatMap_singleton, ← List.append_assoc,
      ← hblake2b, deliveredBy]
    by_cases haccepted : acceptedBy k.flow.instruction ⟨d, c, a, d'⟩ = true
    · have hp1 : c.G.p1 ≠ P1_FIRST := by
        intro hp1
        rw [(beginsSessionOf_iff hk.signs _).mpr ⟨haccepted, hp1⟩] at hbegins
        cases hbegins
      have hfed := hk.fed hstep haccepted
      obtain ⟨hnext, hlength⟩ := hfed.more hp1
      rw [if_pos haccepted]
      refine ⟨hnext, ?_⟩
      rintro ⟨s, hmem, hs⟩
      rcases List.mem_cons.mp hmem with rfl | hmem
      · exact (hfed.shown _ hs).2
      · exact (hlength (hremaining ⟨s, hmem, hs⟩)).2
    · have hkept := step_keepsStream hstep ((hkeeps _ List.mem_cons_self).resolve_left haccepted)
      rw [if_neg haccepted, List.append_nil]
      refine ⟨hkept.blake2b, ?_⟩
      rintro ⟨s, hmem, hs⟩
      rcases List.mem_cons.mp hmem with rfl | hmem
      · obtain rfl : a = .review k.flow := hs
        exact absurd (acceptedBy_of_review hstep) haccepted
      · rw [hkept.remainingLength]
        exact hremaining ⟨s, hmem, hs⟩

/-- **Domain separation**, in every run: when a message or certificate is shown, its session began
since the review before, and the hash is that of its prefix and of the bytes delivered in the
session, if the command that shows it brings something and no command but the accepted ones
of the instruction wrote to the stream since. -/
theorem domain_separated {flow : Flow} (hflow : flow = .message ∨ flow = .certificate)
    {step : Step Command Answer Device} {steps : List (Step Command Answer Device)}
    (h : Run platform.device (step :: steps) d) (hshown : step.answer = .review flow)
    (hbrings : step.event.G.p1 = P1_FIRST ∨ 0 < step.event.G.lc)
    {first : Step Command Answer Device}
    (hfirst : (step :: steps).find? (beginsSessionOf flow.instruction) = some first)
    (hkeeps : ∀ s ∈ since (beginsSessionOf flow.instruction) (step :: steps),
      acceptedBy flow.instruction s = true ∨ ¬s.event.WritesStream s.before) :
    (∀ s ∈ (since (beginsSessionOf flow.instruction) (step :: steps)).tail,
        s.answer ≠ .review flow) ∧
      d.tmpCtx.hash = platform.blake2b256 (flow.signedPrefix first.event.G.declaredLength ++
        deliveredSince flow.instruction (step :: steps)) := by
  obtain ⟨k, hk, rfl⟩ : ∃ k : Stream, k.Handled ∧ k.flow = flow := by
    rcases hflow with rfl | rfl
    · exact ⟨messageStream, messageStream_handled, rfl⟩
    · exact ⟨certificateStream, certificateStream_handled, rfl⟩
  obtain ⟨hbefore, hstep, hafter⟩ := h.after_head
  have hblake2b := (stream_of_run hk h hfirst hkeeps).1
  rw [hshown] at hstep
  have haccepted := acceptedBy_of_review hstep
  have hfed := hk.fed hstep haccepted
  constructor
  · cases hbegins : beginsSessionOf k.flow.instruction step with
    | true =>
      rw [since_cons_of_pos hbegins, List.tail_cons]
      intro s hmem
      cases hmem
    | false =>
      rw [since_cons_of_neg hbegins] at hkeeps ⊢
      rw [List.find?_cons_of_neg (by simp [hbegins])] at hfirst
      have hp1 : step.event.G.p1 ≠ P1_FIRST := by
        intro hp1
        rw [← hshown] at haccepted
        rw [(beginsSessionOf_iff hk.signs _).mpr ⟨haccepted, hp1⟩] at hbegins
        cases hbegins
      -- after a review nothing remains, and only an empty command is accepted
      intro s hmem hs
      have hzero := (stream_of_run hk hbefore hfirst
        fun s hs => hkeeps s (List.mem_cons_of_mem _ hs)).2 ⟨s, hmem, hs⟩
      have hlc := ((hfed.more hp1).2 hzero).1
      rw [hlc] at hbrings
      exact UInt8.lt_irrefl _ (hbrings.resolve_left hp1)
  · rw [← hafter] at hblake2b ⊢
    rw [(hfed.shown _ rfl).1, hblake2b]

theorem domain_separated_completed : ∃ (steps : List (Step Command Answer Device)) (d : Device),
    Run (Platform.recorded messageDigests).device steps d ∧
      d.tmpCtx.hash = (Platform.recorded messageDigests).blake2b256
        (Flow.signedPrefix .message 2 ++ [104, 105]) := by
  have hreplay : ((Platform.recorded messageDigests).device.replay completedMessage
      ([], .boot)).map (fun run => (run.1.map fun s => (s.answer, s.event.G.lc),
        deliveredSince INS_SIGN_PERSONAL_MESSAGE run.1,
        (run.1.find? (beginsSessionOf INS_SIGN_PERSONAL_MESSAGE)).map fun first =>
          (first.event.G.declaredLength,
            (since (beginsSessionOf INS_SIGN_PERSONAL_MESSAGE) run.1).all fun s =>
              acceptedBy INS_SIGN_PERSONAL_MESSAGE s || !decide (s.event.WritesStream s.before)))) =
      some ([(.review .message, 2), (.status [] HW_CLA_NOT_SUPPORTED, 0), (.status [] HW_OK, 9)],
        [104, 105], some (2, true)) := by
    decide +kernel
  obtain ⟨⟨steps, d⟩, hrun, hseen⟩ := exists_replay hreplay
  obtain ⟨hanswers, hseen⟩ := Prod.mk.inj hseen
  obtain ⟨hdelivered, hfirst⟩ := Prod.mk.inj hseen
  obtain ⟨shown, steps, rfl, hshown, -⟩ := List.map_eq_cons_iff.mp hanswers
  obtain ⟨hshown, hlc⟩ := Prod.mk.inj hshown
  obtain ⟨first, hfirst, hsession⟩ := Option.map_eq_some_iff.mp hfirst
  obtain ⟨hlength, hkeeps⟩ := Prod.mk.inj hsession
  dsimp only at hrun hdelivered hfirst hkeeps
  have hclean (s : Step Command Answer Device)
      (hs : s ∈ since (beginsSessionOf INS_SIGN_PERSONAL_MESSAGE) (shown :: steps)) :
      acceptedBy INS_SIGN_PERSONAL_MESSAGE s = true ∨ ¬s.event.WritesStream s.before := by
    simpa using List.all_eq_true.mp hkeeps s hs
  have hhash :=
    (domain_separated (.inl rfl) hrun hshown (.inr (by rw [hlc]; decide)) hfirst hclean).2
  rw [hlength, show deliveredSince (Flow.instruction .message) _ = _ from hdelivered] at hhash
  exact ⟨_, d, hrun, hhash⟩

/-- A message of two bytes is announced, a transaction begins, and the message is completed. -/
def invaded : List Command := [
  .received [0xe0, 0x08, 0x00, 0x00, 0x09, 0x01, 0x80, 0x00, 0x00, 0x00, 0x00, 0x00, 0x00, 0x02],
  signing P1_FIRST (onePath ++ emptyTx.take 4) ⟨true, true⟩,
  .received [0xe0, 0x08, 0x80, 0x00, 0x02, 0x68, 0x69]]

/-- The bytes of a transaction may be signed in front of a message. -/
theorem domain_not_separated : ¬∀ (platform : Platform) (step : Step Command Answer Device)
    (steps : List (Step Command Answer Device)) (d : Device) (flow : Flow),
    Run platform.device (step :: steps) d → flow = .message ∨ flow = .certificate →
    step.answer = .review flow →
    ∃ first, (step :: steps).find? (beginsSessionOf flow.instruction) = some first ∧
      d.tmpCtx.hash = platform.blake2b256 (flow.signedPrefix first.event.G.declaredLength ++
        deliveredSince flow.instruction (step :: steps)) := by
  intro h
  have hreplay : (Platform.magic.device.replay invaded ([], .boot)).map (fun run =>
      (run.1.map Step.answer, run.2.blake2b, run.2.tmpCtx.hash)) =
      some ([.review .message, .status [] HW_OK, .status [] HW_OK], emptyTx.take 4 ++ [104, 105],
        Vector.replicate 32 0) := by
    decide +kernel
  obtain ⟨⟨steps, d⟩, hrun, hseen⟩ := exists_replay hreplay
  obtain ⟨hanswers, hseen⟩ := Prod.mk.inj hseen
  obtain ⟨-, hhash⟩ := Prod.mk.inj hseen
  obtain ⟨shown, steps, rfl, hshown, -⟩ := List.map_eq_cons_iff.mp hanswers
  obtain ⟨first, -, hmagic⟩ := h _ _ _ _ _ hrun (.inl rfl) hshown
  have hone (rest : List UInt8) :
      Platform.magic.blake2b256 (SIGN_MAGIC ++ rest) = Vector.replicate 32 1 := rfl
  rw [Flow.signedPrefix, List.append_assoc, hone, show d.tmpCtx.hash = _ from hhash] at hmagic
  exact absurd hmagic (by decide)

end AppVechain
