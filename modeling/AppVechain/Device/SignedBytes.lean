import AppVechain.Device.Buffers
import AppVechain.Device.Certificate
import AppVechain.Ustream.Storage

/-!
# The bytes that are signed

When a transaction is shown, the bytes that the parser consumed since the last
`P1_FIRST` of `INS_SIGN` are the transaction that is displayed. The hash is that of
these bytes if no other command used it in between: the parser and the hash are
initialised together, but messages and certificates use the same hash.
-/

namespace AppVechain

open Rlp Streaming Reactive Numeral

variable {platform : Platform} {H : List UInt8 → List UInt8 → Prop}

/-- The command initialises the hash, or feeds it with bytes of a message or certificate. -/
def ApduBuffer.WritesHash (k : Stream) (G : ApduBuffer) (d : Device) : Prop :=
  (G.p1 = P1_FIRST ∧ G.HasPath ∧ k.opened (G.byte (G.behindPath + 4)) = true) ∨
    (G.p1 = P1_MORE ∧ G.p2 = 0 ∧ 0 < G.lc ∧ G.lc.toUInt32 ≤ d.tmpCtx.remainingLength)

/-- The command writes to the hash for a message or certificate. -/
def Command.WritesHash (c : Command) (d : Device) : Prop :=
  c.G.cla = CLA ∧ (c.G.ins = INS_SIGN_PERSONAL_MESSAGE ∧ c.G.WritesHash messageStream d ∨
    c.G.ins = INS_SIGN_CERTIFICATE ∧ c.G.WritesHash certificateStream d)

/-- A stream that is not written to keeps the hash. -/
theorem StreamEnds.blake2b {k : Stream} {G : ApduBuffer} {d : Device} {ending : Ending}
    (h : StreamEnds platform k G d ending) (hwrites : ¬G.WritesHash k d) {a : Answer} {d' : Device}
    (ha : ending.answer? = some (a, d')) : d'.blake2b = d.blake2b := by
  cases h with
  | notBegun hbegun =>
    cases hbegun with
    | noPath => cases ha; rfl
    | notOpened hp1 hpath hopened =>
      have hdevice := (beginPath_inr hpath).2.2.2.2
      cases ha
      show Device.blake2b _ = _
      rw [Work.readLength, hdevice]
      rfl
    | diverges => cases ha
    | wrongP1 => cases ha; rfl
  | begun hbegun hhashed =>
    cases hbegun with
    | first hp1 hpath hopened htext =>
      obtain ⟨hG, hwork, -⟩ := beginPath_inr hpath
      rw [hwork] at hopened
      exact absurd (.inl ⟨hp1, hG, hopened⟩) hwrites
    | more hp1 => exact (hhashed.nothing (fun h => hwrites (.inr ⟨hp1, h⟩)) ha).1

/-- Another command that does not write to the hash keeps it. -/
theorem otherStep_blake2b {c : Command} (hsign : ¬c.isSign) {d d' : Device} {a : Answer}
    (h : platform.device.step c d = some (a, d')) (hwrites : ¬c.WritesHash d) :
    d'.blake2b = d.blake2b := by
  obtain ⟨d₁, hanswer, hkept, -⟩ := handleApdu_answer h
  rw [hkept]
  have hdispatched := dispatch_dispatched platform c.settings c.G d
  generalize dispatch platform c.settings c.G d = ending at hdispatched hanswer
  cases hdispatched with
  | publicKey =>
    have hends := handleGetPublicKey_ends platform c.G d
    generalize handleGetPublicKey platform c.G d = ending at hends hanswer
    cases hends <;> cases hanswer <;> rfl
  | transaction hcla hins => exact absurd ⟨hcla, hins⟩ hsign
  | message hcla hins =>
    exact (handleSignPersonalMessage_ends platform c.G d).blake2b
      (fun hw => hwrites ⟨hcla, .inl ⟨hins, hw⟩⟩) hanswer
  | certificate hcla hins =>
    exact (handleSignCertificate_ends platform c.G d).blake2b
      (fun hw => hwrites ⟨hcla, .inr ⟨hins, hw⟩⟩) hanswer
  | status =>
    cases hanswer
    rfl

/-- The sessions since a command of `INS_SIGN`. -/
theorem consumedSince_cons {steps : List (Step Command Answer Device)}
    {step : Step Command Answer Device} (hsign : step.event.isSign) :
    consumedSince (step :: steps) =
      (if step.event.G.p1 = P1_FIRST then [] else consumedSince steps) ++ consumedBy step := by
  unfold consumedSince
  by_cases hp1 : step.event.G.p1 = P1_FIRST
  · rw [since_cons_of_pos (by simp [Command.beginsSign, hsign.1, hsign.2, hp1]), if_pos hp1,
      List.reverse_singleton, List.flatMap_singleton, List.nil_append]
  · rw [since_cons_of_neg (by simp [Command.beginsSign, hp1]), if_neg hp1, List.reverse_cons,
      List.flatMap_append, List.flatMap_singleton]

/-- A transaction is shown by `INS_SIGN`. -/
theorem isSign_of_shows {c : Command} {d d' : Device} {a : Answer}
    (h : platform.device.step c d = some (a, d')) (hshows : a.showsTransaction = true) :
    c.isSign := by
  by_contra hsign
  obtain ⟨d₁, hanswer, -⟩ := handleApdu_some h
  have hother := ((dispatch_other platform c.settings hsign d).2 a d₁ hanswer).2
  rw [hother] at hshows
  cases hshows

/-- What is displayed: the strings of an accepted transaction. -/
structure Displays (platform : Platform) (shown : Shown) (d' : Device) : Prop where
  display : ∃ fee fullAddress fullAmount maxFee,
    d' = shown.display fee fullAddress fullAmount maxFee
  texts : ∃ strings, shown.strings platform = some strings ∧
    d'.fullAddress.bytes = strings.fullAddress ∧ d'.fullAmount.bytes = strings.fullAmount

/-- What was written to an array. -/
theorem bytes_of_write {size : ℕ} {bytes : List UInt8} {text : CharArray size}
    (h : CharArray.write? size bytes = some text) : text.bytes = bytes := by
  unfold CharArray.write? at h
  split at h
  · cases h
    rfl
  · cases h

/-- A transaction that is shown was accepted. -/
theorem SignStep.shown {c : Command} {d d' : Device} {a : Answer} (h : SignStep platform c d a d')
    (hshows : a.showsTransaction = true) :
    ∃ shown, signAccept platform c.settings c.G d = .inr shown ∧ Displays platform shown d' := by
  cases h with
  | error d₁ herror =>
    cases a with
    | status data sw => cases hshows
    | review flow => cases herror
  | processing => cases hshows
  | review haccept hstrings haddress hamount =>
    exact ⟨_, haccept, ⟨_, _, _, _, rfl⟩, _, hstrings, bytes_of_write haddress,
      bytes_of_write hamount⟩

/-- Looking up a token leaves what the parser consumed. -/
theorem Accepted.consumed {bytes : List UInt8} {shown : Shown} {parsed : Device}
    (h : Accepted platform H bytes shown parsed) (payload : List UInt8) :
    shown.device.tx.consumed payload = parsed.tx.consumed payload := by
  obtain ⟨clause, data, hdevice⟩ := recognizeToken_device (parsed.checked platform)
  rw [← h.shown] at hdevice
  rw [hdevice]
  rfl

/-- A transaction that is shown, in every run: it was accepted, and what was accepted are the
bytes that the parser consumed since `P1_FIRST`. -/
theorem accepted_of_shown (hH : KeptByHashing H) (hnil : H [] [])
    {steps : List (Step Command Answer Device)} {d : Device} (h : Run platform.device steps d)
    {c : Command} {a : Answer} {d' : Device} (hstep : platform.device.step c d = some (a, d'))
    (hshows : a.showsTransaction = true)
    (hkept : ∀ step ∈ since (fun step => step.event.beginsSign) (⟨d, c, a, d'⟩ :: steps),
      ¬step.event.isSign → ∀ ys, H step.before.blake2b ys → H step.after.blake2b ys) :
    ∃ shown parsed, signParse platform c.G d = .inr parsed ∧ Displays platform shown d' ∧
      Accepted platform H (consumedSince (⟨d, c, a, d'⟩ :: steps)) shown parsed := by
  have hsign := isSign_of_shows hstep hshows
  obtain ⟨shown, haccept, hdisplays⟩ := (signStep hsign hstep).shown hshows
  have hd (hp1 : c.G.p1 ≠ P1_FIRST) : d.Closed ∨ d.Session platform H (consumedSince steps) := by
    refine session_of_run hH hnil h fun step hmem => hkept step ?_
    rw [since_cons_of_neg (by simp [Command.beginsSign, hp1])]
    exact List.mem_cons_of_mem _ hmem
  obtain ⟨parsed, hparse, haccepted⟩ := accepted hH hnil haccept hd
  have htx : d'.tx.consumed c.G.payload = parsed.tx.consumed c.G.payload := by
    obtain ⟨fee, fullAddress, fullAmount, maxFee, rfl⟩ := hdisplays.display
    show TxState.consumed shown.device.tx _ = _
    rw [haccepted.consumed]
  refine ⟨shown, parsed, hparse, hdisplays, ?_⟩
  rw [consumedSince_cons hsign, consumedBy, if_pos hsign]
  show Accepted platform H (_ ++ d'.tx.consumed c.G.payload) shown parsed
  rw [htx]
  exact haccepted

/-- The transaction that is shown, in every run: what was parsed for it has the same content as
the bytes that the parser consumed since `P1_FIRST`, read alone by a parser that was just
initialised; and the hash is that of these bytes, as far as `H` relates it to them. -/
theorem shown_of_run (hH : KeptByHashing H) (hnil : H [] [])
    {steps : List (Step Command Answer Device)} {d : Device} (h : Run platform.device steps d)
    {c : Command} {a : Answer} {d' : Device} (hstep : platform.device.step c d = some (a, d'))
    (hshows : a.showsTransaction = true)
    (hkept : ∀ step ∈ since (fun step => step.event.beginsSign) (⟨d, c, a, d'⟩ :: steps),
      ¬step.event.isSign → ∀ ys, H step.before.blake2b ys → H step.after.blake2b ys) :
    ∃ parsed, signParse platform c.G d = .inr parsed ∧
      (∃ fresh, processTx (platform.scratch d'.session) (initTx .zero)
          (consumedSince (⟨d, c, a, d'⟩ :: steps)) = .returned .finished fresh ∧
        SameContent parsed.tx.env.view fresh.env.view) ∧
      H parsed.blake2b (consumedSince (⟨d, c, a, d'⟩ :: steps)) ∧
      d'.tmpCtx.hash = platform.blake2b256 parsed.blake2b := by
  obtain ⟨shown, parsed, hparse, hdisplays, haccepted⟩ :=
    accepted_of_shown hH hnil h hstep hshows hkept
  obtain ⟨clause, data, hdevice⟩ := recognizeToken_device (parsed.checked platform)
  obtain ⟨fee, fullAddress, fullAmount, maxFee, rfl⟩ := hdisplays.display
  rw [← haccepted.shown] at hdevice
  refine ⟨parsed, hparse, ?_, haccepted.hash, ?_⟩
  · show ∃ fresh, processTx (platform.scratch shown.device.session) _ _ = _ ∧ _
    rw [hdevice]
    exact haccepted.again
  · show shown.device.tmpCtx.hash = _
    rw [hdevice]
    rfl

/-- **What you see is what you sign**, in every run: when a transaction is shown, the bytes that
the parser consumed since the last `P1_FIRST` of `INS_SIGN` are the transaction, which a new parser
reads from them, whatever its storage, with the same content: also the same data flag, if the first
clause decides about it or the storages hold the same flags. If no command wrote to the hash for a
message or certificate in between, the hash is that of these bytes. -/
theorem shown_is_signed {steps : List (Step Command Answer Device)} {d : Device}
    (h : Run platform.device steps d) {c : Command} {a : Answer} {d' : Device}
    (hstep : platform.device.step c d = some (a, d')) (hshows : a.showsTransaction = true)
    (hwrites : ∀ step ∈ since (fun step => step.event.beginsSign) (⟨d, c, a, d'⟩ :: steps),
      ¬step.event.WritesHash step.before) {scratch : Scratch}
    (hstorage : FlagDecided (consumedSince (⟨d, c, a, d'⟩ :: steps)) ∨
      (platform.scratch d'.session).Alike scratch) :
    ∃ parsed fresh, signParse platform c.G d = .inr parsed ∧
      processTx scratch (initTx .zero) (consumedSince (⟨d, c, a, d'⟩ :: steps)) =
        .returned .finished fresh ∧
      SameContent parsed.tx.env.view fresh.env.view ∧
      d'.tmpCtx.hash = platform.blake2b256 (consumedSince (⟨d, c, a, d'⟩ :: steps)) := by
  have hrun : Run platform.device (⟨d, c, a, d'⟩ :: steps) d' := .step h hstep
  obtain ⟨parsed, hparse, ⟨fresh, hfresh, hsame⟩, hhash, hstored⟩ :=
    shown_of_run keptByHashing_eq rfl h hstep hshows fun step hmem hother ys hys => by
      have hstep' := hrun.step_of_mem (since_subset _ _ hmem)
      rw [otherStep_blake2b hother hstep' (hwrites step hmem)]
      exact hys
  obtain ⟨again, hagain, -, hview, hflag⟩ := processTx_storage hfresh scratch
  refine ⟨parsed, again, hparse, hagain, ?_, by rw [hstored, hhash]⟩
  rw [hview, hflag hstorage]
  exact hsame

/-- The transfer of a token and a clause with data, in two commands. -/
theorem tokenThenData_shown : ∃ steps d a d',
    let c := signing P1_MORE (tokenThenData.bytes.drop 40) ⟨true, true⟩
    Run (Platform.recorded []).device steps d ∧
      (Platform.recorded []).device.step c d = some (a, d') ∧ a.showsTransaction = true ∧
      consumedSince (⟨d, c, a, d'⟩ :: steps) = tokenThenData.bytes ∧
      ∀ step ∈ (⟨d, c, a, d'⟩ :: steps : List (Step Command Answer Device)),
        step.event.G.ins = INS_SIGN := by
  let c := signing P1_MORE (tokenThenData.bytes.drop 40) ⟨true, true⟩
  have hsign : c.isSign := by decide +kernel
  have hmore : c.G.p1 ≠ P1_FIRST := by decide +kernel
  have hreplay : ((Platform.recorded []).device.replay
      [signing P1_FIRST (onePath ++ tokenThenData.bytes.take 40) ⟨true, true⟩] ([], .boot)).map
      (fun run => ((signAccept (.recorded []) c.settings c.G run.2).getRight?.map fun shown =>
        (shown.tickerText, shown.device.clauseContent.value.number,
          consumedSince run.1 ++ shown.device.tx.consumed c.G.payload),
        run.1.map fun step => step.event.G.ins)) =
      some (some ([86, 84, 72, 79, 32], 10, tokenThenData.bytes), [INS_SIGN]) := by
    decide +kernel
  obtain ⟨⟨steps, d⟩, hrun, hseen⟩ := exists_replay hreplay
  obtain ⟨hseen, hevents⟩ := Prod.mk.injEq .. ▸ hseen
  obtain ⟨shown, haccept, hshown⟩ := exists_shown hseen
  simp only [Prod.mk.injEq] at hshown
  obtain ⟨hticker, hnumber, hconsumed⟩ := hshown
  have hfits : FractionFits 10 18 shown.amountRoom shown.device.clauseContent.value.number := by
    rw [hnumber, Shown.amountRoom, hticker]
    exact .inr ⟨18, by norm_num⟩
  obtain ⟨fee, fullAddress, fullAmount, maxFee, hstep⟩ := step_of_accept hrun hsign haccept hfits
  refine ⟨steps, d, _, _, hrun, hstep, rfl, ?_, ?_⟩
  · rw [consumedSince_cons hsign, consumedBy, if_pos hsign, if_neg hmore]
    exact hconsumed
  · intro step hmem
    rcases List.mem_cons.mp hmem with rfl | hmem
    · exact hsign.2
    · have hins : step.event.G.ins ∈ steps.map fun step => step.event.G.ins :=
        List.mem_map.mpr ⟨step, hmem, rfl⟩
      rw [hevents] at hins
      exact List.mem_singleton.mp hins

theorem shown_is_signed_tokenThenData : ∃ a d' steps d,
    let c := signing P1_MORE (tokenThenData.bytes.drop 40) ⟨true, true⟩
    Run (Platform.recorded []).device steps d ∧
      (Platform.recorded []).device.step c d = some (a, d') ∧
      a.showsTransaction = true ∧
      consumedSince (⟨d, c, a, d'⟩ :: steps) = tokenThenData.bytes ∧
      ∃ parsed fresh, signParse (.recorded []) c.G d = .inr parsed ∧
        processTx (.stale false) (initTx .zero) tokenThenData.bytes = .returned .finished fresh ∧
        SameContent parsed.tx.env.view fresh.env.view ∧
        d'.tmpCtx.hash = (Platform.recorded []).blake2b256 tokenThenData.bytes := by
  obtain ⟨steps, d, a, d', hrun, hstep, hshows, hconsumed, hins⟩ := tokenThenData_shown
  have hsettled : tokenThenData.FlagSettled := .inr ⟨tokenFields, rfl, by decide⟩
  have hdecided := hsettled.flagDecided
  rw [← hconsumed] at hdecided
  have hstorage := Or.inl (b := Scratch.Alike .valid (.stale false)) hdecided
  obtain ⟨parsed, fresh, hparse, hfresh, hsame, hhash⟩ := shown_is_signed hrun hstep hshows
    (fun step hmem => by
      have hinstruction := hins step (since_subset _ _ hmem)
      rintro ⟨-, ⟨hother, -⟩ | ⟨hother, -⟩⟩
      · exact absurd (hinstruction.symm.trans hother) (by decide)
      · exact absurd (hinstruction.symm.trans hother) (by decide)) hstorage
  rw [hconsumed] at hfresh hhash
  exact ⟨a, d', steps, d, hrun, hstep, hshows, hconsumed, parsed, fresh, hparse, hfresh, hsame,
    hhash⟩

/-- A message that begins between the two commands of a transaction. -/
def interrupted : List Command := [
  signing P1_FIRST (onePath ++ emptyTx.take 4) ⟨false, false⟩,
  .received ([0xe0, 0x08, 0x00, 0x00, 0x09] ++ onePath ++ [0x00, 0x00, 0x00, 0x01])]

/-- Hashes that tell whether the bytes begin with the magic of messages. -/
def Platform.magic : Platform :=
  { Platform.recorded [] with
    blake2b256 := fun bytes => Vector.replicate 32 (if bytes.head? = some 0x19 then 1 else 0) }

/-- The hash of a transaction may begin with a message. -/
theorem shown_is_not_signed : ¬∀ (platform : Platform) (steps : List (Step Command Answer Device))
    (d : Device), Run platform.device steps d → ∀ (c : Command) (a : Answer) (d' : Device),
    platform.device.step c d = some (a, d') → a.showsTransaction = true →
    d'.tmpCtx.hash = platform.blake2b256 (consumedSince (⟨d, c, a, d'⟩ :: steps)) := by
  intro h
  let c := signing P1_MORE (emptyTx.drop 4) ⟨false, false⟩
  have hsign : c.isSign := by decide +kernel
  have hmore : c.G.p1 ≠ P1_FIRST := by decide +kernel
  have hreplay : (Platform.magic.device.replay interrupted ([], .boot)).map (fun run =>
      (signAccept .magic c.settings c.G run.2).getRight?.map fun shown =>
        (shown.tickerText, shown.device.clauseContent.value.number, shown.device.tmpCtx.hash,
          consumedSince run.1 ++ shown.device.tx.consumed c.G.payload)) =
      some (some ([86, 69, 84, 32], 0, Vector.replicate 32 1, emptyTx)) := by
    decide +kernel
  obtain ⟨⟨steps, d⟩, hrun, hseen⟩ := exists_replay hreplay
  obtain ⟨shown, haccept, hshown⟩ := exists_shown hseen
  simp only [Prod.mk.injEq] at hshown
  obtain ⟨hticker, hnumber, hhash, hconsumed⟩ := hshown
  have hfits : FractionFits 10 18 shown.amountRoom shown.device.clauseContent.value.number := by
    rw [hnumber, Shown.amountRoom, hticker]
    exact .inl ⟨dvd_zero _, by norm_num⟩
  obtain ⟨fee, fullAddress, fullAmount, maxFee, hstep⟩ := step_of_accept hrun hsign haccept hfits
  have hbad := h _ _ _ hrun c _ _ hstep rfl
  have hall : consumedSince (⟨d, c, .review (.transaction shown.device.dataPresent
      shown.device.multipleClauses), shown.display fee fullAddress fullAmount maxFee⟩ :: steps) =
      emptyTx := by
    rw [consumedSince_cons hsign, consumedBy, if_pos hsign, if_neg hmore]
    exact hconsumed
  rw [hall, show (shown.display fee fullAddress fullAmount maxFee).tmpCtx.hash = _ from hhash]
    at hbad
  exact absurd hbad (by decide)

end AppVechain
