import AppVechain.Device.TokenTransfer

/-!
# The display of recipients

The recipient of a clause is parsed into an array of twenty bytes that was
cleared, and the array is shown. `processToField` accepts fewer bytes and keeps
their number in `toLength`, which the display does not read: a shorter recipient,
and the empty one of a contract creation, are shown with zeros behind them.
-/

namespace AppVechain

open Rlp Streaming Reactive

variable {platform : Platform} {H : List UInt8 → List UInt8 → Prop}

/-- What the array of the recipient holds. -/
def ClauseFields.shownRecipient (f : ClauseFields) : List UInt8 :=
  f.toAddress ++ List.replicate (20 - f.toAddress.length) 0

/-- The array of the recipient, after the clause was parsed into a cleared one. -/
theorem ClauseFields.over_toAddress {f : ClauseFields} (hto : f.toAddress.length ≤ 20) :
    (f.over .zero).toAddress.toList = f.shownRecipient := by
  show (writeBytes (Vector.replicate 20 0) 0 f.toAddress).toList = _
  rw [writeBytes_toList _ (by omega), List.take_zero, List.nil_append, Nat.zero_add,
    Vector.toList_replicate, List.drop_replicate, ClauseFields.shownRecipient]

/-- A recipient is shown as it is if and only if it fills the array. -/
theorem ClauseFields.shownRecipient_eq_iff {f : ClauseFields} (hto : f.toAddress.length ≤ 20) :
    f.shownRecipient = f.toAddress ↔ f.toAddress.length = 20 := by
  rw [ClauseFields.shownRecipient, List.append_right_eq_self, List.replicate_eq_nil_iff]
  omega

/-- In a run, a transaction with one clause is accepted and not recognised as the transfer of a
token: if it has data it keeps the warning for them. The text is written to `fullAddress`. -/
def RecipientShown (platform : Platform) (f : ClauseFields) (text : List UInt8) : Prop :=
  ∃ (steps : List (Step Command Answer Device)) (d : Device) (c : Command) (shown : Shown)
    (strings : TxStrings),
    Run platform.device steps d ∧ c.isSign ∧
      signAccept platform c.settings c.G d = .inr shown ∧
      f.OnlyOf ((if c.G.p1 = P1_FIRST then [] else consumedSince steps) ++
        shown.device.tx.consumed c.G.payload) ∧
      (f.data ≠ [] → shown.device.dataPresent = true) ∧
      shown.strings platform = some strings ∧ text = strings.fullAddress

/-- What a device shows for the recipient was written to `fullAddress`. -/
theorem recipientShown_of_step {steps : List (Step Command Answer Device)} {d d' : Device}
    (h : Run platform.device steps d) {c : Command} {a : Answer}
    (hstep : platform.device.step c d = some (a, d')) (hshows : a.showsTransaction = true)
    {f : ClauseFields} (hbytes : f.OnlyOf (consumedSince (⟨d, c, a, d'⟩ :: steps)))
    (hdata : f.data ≠ [] → d'.dataPresent = true) :
    RecipientShown platform f d'.fullAddress.bytes := by
  have hsign := isSign_of_shows hstep hshows
  obtain ⟨shown, haccept, hdisplays⟩ := (signStep hsign hstep).shown hshows
  obtain ⟨strings, hstrings, haddress, -⟩ := hdisplays.texts
  obtain ⟨fee, fullAddress, fullAmount, maxFee, rfl⟩ := hdisplays.display
  rw [consumedSince_cons hsign, consumedBy, if_pos hsign] at hbytes
  exact ⟨steps, d, c, shown, strings, h, hsign, haccept, hbytes, hdata, hstrings, haddress⟩

/-- A transaction that is not recognised as the transfer of a token is shown with the content of
its clause. -/
theorem Accepted.clauseContent {bytes : List UInt8} {shown : Shown} {parsed : Device}
    (h : Accepted platform H bytes shown parsed) {f : ClauseFields} (hbytes : f.OnlyOf bytes)
    (hdata : f.data ≠ [] → shown.device.dataPresent = true) :
    shown.device.clauseContent = f.over .zero := by
  obtain ⟨l, hl, hf⟩ := hbytes
  obtain ⟨hclause, hflag⟩ := h.single hl hf
  have hnone : (if (parsed.checked platform).dataPresent then
      (parsed.checked platform).clauseContent.token? else none) = none := by
    have hpresent : (parsed.checked platform).dataPresent = decide (f.data ≠ []) := hflag
    by_cases hempty : f.data = []
    · rw [hpresent, if_neg (by simp [hempty])]
    · have hwarned := hdata hempty
      rw [h.shown, recognizeToken_dataPresent, Bool.and_eq_true, Bool.not_eq_true',
        Option.isSome_eq_false_iff, Option.isNone_iff_eq_none] at hwarned
      rw [if_pos hwarned.1, hwarned.2]
  rw [h.shown, recognizeToken, hnone]
  exact hclause

/-- **What is shown for the recipient**: the array that holds it. -/
theorem RecipientShown.text_eq {f : ClauseFields} {text : List UInt8}
    (h : RecipientShown platform f text) : f.toAddress.length ≤ 20 ∧
      text = addressToDisplayString platform.keccak256 (f.over .zero).toAddress := by
  obtain ⟨steps, d, c, shown, strings, hrun, hsign, haccept, hbytes, hdata, hstrings, rfl⟩ := h
  obtain ⟨parsed, -, haccepted⟩ := accepted keptByHashing_true trivial haccept fun _ =>
    session_of_run keptByHashing_true trivial hrun fun _ _ _ _ _ => trivial
  rw [haccepted.consumed] at hbytes
  obtain ⟨strings', hstrings', haddress, -⟩ := haccepted.strings
  rw [hstrings] at hstrings'
  cases hstrings'
  constructor
  · obtain ⟨l, -, hf⟩ := hbytes
    exact l.toAddress_length hf
  · rw [haddress, haccepted.clauseContent hbytes hdata]

/-- The text reads as the array of the recipient. -/
theorem RecipientShown.read {f : ClauseFields} {text : List UInt8}
    (h : RecipientShown platform f text) : readAddress text = some f.shownRecipient := by
  obtain ⟨hto, rfl⟩ := h.text_eq
  rw [readAddress_display, ClauseFields.over_toAddress hto]

/-- Recipients are shown alike if and only if their arrays are the same. -/
theorem RecipientShown.same_iff {f f' : ClauseFields} {text text' : List UInt8}
    (h : RecipientShown platform f text) (h' : RecipientShown platform f' text') :
    text = text' ↔ f.shownRecipient = f'.shownRecipient := by
  constructor
  · rintro rfl
    have hread := h.read
    rwa [h'.read, Option.some.injEq, eq_comm] at hread
  · intro hsame
    obtain ⟨hto, rfl⟩ := h.text_eq
    obtain ⟨hto', rfl⟩ := h'.text_eq
    rw [← ClauseFields.over_toAddress hto, ← ClauseFields.over_toAddress hto'] at hsame
    rw [Vector.toList_inj.mp hsame]

/-- Different recipients are shown differently, and each is shown as it is. -/
structure TellRecipients (f : ClauseFields) (text : List UInt8) (f' : ClauseFields)
    (text' : List UInt8) : Prop where
  different : f.toAddress ≠ f'.toAddress → text ≠ text'
  read : readAddress text = some f.toAddress
  read' : readAddress text' = some f'.toAddress

/-- **The display of recipients** tells them if and only if both have twenty bytes; and two are
shown alike if and only if they are the same up to the zeros behind them. -/
theorem tellRecipients_iff {f f' : ClauseFields} {text text' : List UInt8}
    (h : RecipientShown platform f text) (h' : RecipientShown platform f' text') :
    (TellRecipients f text f' text' ↔ f.toAddress.length = 20 ∧ f'.toAddress.length = 20) ∧
      (text = text' ↔ f.shownRecipient = f'.shownRecipient) := by
  have hreads : readAddress text = some f.toAddress ↔ f.toAddress.length = 20 := by
    rw [h.read, Option.some.injEq, ClauseFields.shownRecipient_eq_iff h.text_eq.1]
  have hreads' : readAddress text' = some f'.toAddress ↔ f'.toAddress.length = 20 := by
    rw [h'.read, Option.some.injEq, ClauseFields.shownRecipient_eq_iff h'.text_eq.1]
  refine ⟨?_, h.same_iff h'⟩
  constructor
  · intro htell
    exact ⟨hreads.mp htell.read, hreads'.mp htell.read'⟩
  · rintro ⟨hlength, hlength'⟩
    refine ⟨fun hne hsame => hne ?_, hreads.mpr hlength, hreads'.mpr hlength'⟩
    have hread := hreads.mpr hlength
    rwa [hsame, hreads'.mpr hlength', Option.some.injEq, eq_comm] at hread

/-- The fields of the creation of a contract, and of a call of the address of zeros. -/
def creationFields : ClauseFields := ⟨[], [], [0x60]⟩
def zeroCallFields : ClauseFields := ⟨List.replicate 20 0, [], [0x60]⟩

/-- A transaction that creates a contract. -/
def creation : FieldsLayout where
  outer := [0xcd]
  declared := 13
  outer_header := by decide +kernel
  items := {
    chainTag := Item.emptyString
    blockRef := Item.emptyString
    expiration := Item.emptyString
    clauses := ⟨true, [0xc4], [0xc3, 0x80, 0x80, 0x60], by decide +kernel⟩
    gasPriceCoef := Item.emptyString
    gas := Item.emptyString
    dependsOn := Item.emptyString
    nonce := Item.emptyString
    reserved := Item.emptyList }
  admitted := by constructor <;> decide +kernel
  fields := [creationFields]
  clauseItems := [⟨true, [0xc3], [0x80, 0x80, 0x60], by decide +kernel⟩]
  clauses_payload := by decide +kernel
  carry := by
    refine .cons ⟨rfl, Item.emptyString, Item.emptyString, ⟨false, [], [0x60], rfl⟩, [], ?_⟩ .nil
    decide +kernel

/-- A transaction that calls the address of zeros. -/
def zeroCall : FieldsLayout where
  outer := [0xe1]
  declared := 33
  outer_header := by decide +kernel
  items := {
    chainTag := Item.emptyString
    blockRef := Item.emptyString
    expiration := Item.emptyString
    clauses := ⟨true, [0xd8], [0xd7, 0x94] ++ List.replicate 20 0 ++ [0x80, 0x60],
      by decide +kernel⟩
    gasPriceCoef := Item.emptyString
    gas := Item.emptyString
    dependsOn := Item.emptyString
    nonce := Item.emptyString
    reserved := Item.emptyList }
  admitted := by constructor <;> decide +kernel
  fields := [zeroCallFields]
  clauseItems := [⟨true, [0xd7], [0x94] ++ List.replicate 20 0 ++ [0x80, 0x60], by decide +kernel⟩]
  clauses_payload := by decide +kernel
  carry := by
    refine .cons ⟨rfl, ⟨false, [0x94], List.replicate 20 0, by decide +kernel⟩, Item.emptyString,
      ⟨false, [], [0x60], rfl⟩, [], ?_⟩ .nil
    decide +kernel

/-- A device that was just started shows the recipient of a transaction that it accepts with the
warning for data. -/
theorem exists_recipientShown {c : Command} (hsign : c.isSign) (hfirst : c.G.p1 = P1_FIRST)
    {l : FieldsLayout} {f : ClauseFields} (hf : l.fields = [f])
    (hseen : (signAccept (.recorded []) c.settings c.G .boot).getRight?.map
      (fun shown => (shown.device.dataPresent, shown.device.tx.consumed c.G.payload)) =
      some (true, l.bytes)) :
    ∃ text, RecipientShown (.recorded []) f text := by
  obtain ⟨shown, haccept, hshown⟩ := exists_shown hseen
  rw [Prod.mk.injEq] at hshown
  obtain ⟨hwarned, hconsumed⟩ := hshown
  obtain ⟨bytes, parsed, haccepted⟩ := accepted_of_run .boot haccept
  obtain ⟨strings, hstrings, -⟩ := haccepted.strings
  refine ⟨_, [], _, c, shown, strings, .boot, hsign, haccept, ⟨l, ?_, hf⟩, fun _ => hwarned,
    hstrings, rfl⟩
  rw [if_pos hfirst, List.nil_append, hconsumed]

/-- Both transactions are shown. -/
theorem creation_shown : ∃ text, RecipientShown (.recorded []) creationFields text := by
  let c := signing P1_FIRST (onePath ++ creation.bytes) ⟨true, false⟩
  have hsign : c.isSign := by decide +kernel
  have hfirst : c.G.p1 = P1_FIRST := by decide +kernel
  apply exists_recipientShown hsign hfirst (show creation.fields = [creationFields] from rfl)
  decide +kernel

theorem zeroCall_shown : ∃ text, RecipientShown (.recorded []) zeroCallFields text := by
  let c := signing P1_FIRST (onePath ++ zeroCall.bytes) ⟨true, false⟩
  have hsign : c.isSign := by decide +kernel
  have hfirst : c.G.p1 = P1_FIRST := by decide +kernel
  apply exists_recipientShown hsign hfirst (show zeroCall.fields = [zeroCallFields] from rfl)
  decide +kernel

theorem tellRecipients_iff_zeroCall : ∃ text,
    (TellRecipients zeroCallFields text zeroCallFields text ↔
      zeroCallFields.toAddress.length = 20 ∧ zeroCallFields.toAddress.length = 20) ∧
    (text = text ↔ zeroCallFields.shownRecipient = zeroCallFields.shownRecipient) := by
  obtain ⟨text, hshown⟩ := zeroCall_shown
  exact ⟨text, tellRecipients_iff hshown hshown⟩

/-- The creation of a contract is shown like the call of the address of zeros. -/
theorem not_tellRecipients_creation : ¬∀ (platform : Platform) (f f' : ClauseFields)
    (text text' : List UInt8), RecipientShown platform f text →
    RecipientShown platform f' text' → TellRecipients f text f' text' := by
  intro h
  obtain ⟨text, hshown⟩ := creation_shown
  obtain ⟨text', hshown'⟩ := zeroCall_shown
  have hdifferent := (h _ _ _ _ _ hshown hshown').different (by decide)
  exact hdifferent ((hshown.same_iff hshown').mpr (by decide))

end AppVechain
