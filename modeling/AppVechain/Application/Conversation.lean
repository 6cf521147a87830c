import AppVechain.Application.Conformance
import AppVechain.Device.Content

/-!
# Whole conversations

A host that sends the commands for a transaction, a message or a certificate, in whatever
chunks, gets the signature when the user confirms what is shown, and an error when the
user rejects it. The application may have done anything before.
-/

namespace AppVechain

open Rlp Reactive Numeral

variable {platform : Platform} {sign : Signer} {storage : InternalStorage}
variable {settings : Settings} {path : List UInt32} {kind : Kind}

/-- The bytes of a command. -/
def commandBytes (ins p1 : UInt8) (data : List UInt8) : List UInt8 :=
  [CLA, ins, p1, 0x00, UInt8.ofNat data.length] ++ data

/-- The commands in which something is sent in chunks. -/
def chunkedBytes (ins : UInt8) (first : List UInt8) (more : List (List UInt8)) :
    List (List UInt8) :=
  commandBytes ins P1_FIRST first :: more.map (commandBytes ins P1_MORE)

/-- A command that was received with these bytes is whole, and brings its data. -/
theorem Received.brings {rx : Received} {ins p1 : UInt8} {data : List UInt8}
    (h : rx.bytes = commandBytes ins p1 data) (settings : Settings) :
    (rx.command settings).Brings ins p1 data ∧ rx.buffer.Complete rx.bytes.length := by
  have hfits := rx.fits
  have hlength : rx.bytes.length = 5 + data.length := by
    rw [h, commandBytes, List.length_append]
    rfl
  have hbuffer : rx.buffer.toList =
      commandBytes ins p1 data ++ List.replicate (260 - rx.bytes.length) 0 := by
    show rx.bytes.take 260 ++ _ = _
    rw [List.take_of_length_le hfits, h]
  have hbyte (i : ℕ) (hi : i < 5) : rx.buffer.byte i = (commandBytes ins p1 data).getD i 0 := by
    rw [ApduBuffer.byte, hbuffer, List.getD_append _ _ _ _ (by rw [← h, hlength]; omega)]
  have hlc : rx.buffer.lc = UInt8.ofNat data.length := hbyte 4 (by omega)
  have hnat : rx.buffer.lc.toNat = data.length := by
    rw [hlc, UInt8.toNat_ofNat', Nat.mod_eq_of_lt (by omega)]
  refine ⟨⟨hbyte 0 (by omega), hbyte 1 (by omega), hbyte 2 (by omega), hbyte 3 (by omega), ?_⟩, ?_⟩
  · show rx.buffer.bytes OFFSET_CDATA rx.buffer.lc.toNat = data
    rw [ApduBuffer.bytes, hnat, hbuffer, commandBytes, List.append_assoc]
    exact List.take_left
  · rw [ApduBuffer.Complete, hnat, hlength]

/-- The commands that bring a content in chunks, behind the path that it is signed with. -/
def Content.commands (path : List UInt32) (first : List UInt8) (more : List (List UInt8)) :
    Content → List (List UInt8)
  | .transaction _ => chunkedBytes INS_SIGN (pathBytes path ++ first) more
  | .stream kind bytes => chunkedBytes kind.stream.flow.instruction
      (beginningBytes path (UInt32.ofNat bytes.length) first) more

/-- **These bytes are sent to have a content signed** with a path: the content in chunks, of which
the last one is not empty, and the first one of a certificate neither. -/
structure Content.SentIn (content : Content) (path : List UInt32) (sent : List (List UInt8)) :
    Prop where
  pos : 1 ≤ path.length
  ten : path.length ≤ 10
  chunks : ∃ first more, first ++ more.flatten = content.bytes ∧ more.getLast? ≠ some [] ∧
    (content = .stream .certificate content.bytes → first ≠ []) ∧
    sent = content.commands path first more

/-- Commands that go on with something. -/
theorem moreBytes_brings {rxs : List Received} {ins : UInt8} {more : List (List UInt8)}
    (h : rxs.map Received.bytes = more.map (commandBytes ins P1_MORE)) (settings : Settings) :
    List.Forall₂ (fun c chunk => c.Brings ins P1_MORE chunk)
        (rxs.map fun rx => rx.command settings) more ∧
      ∀ rx ∈ rxs, rx.buffer.Complete rx.bytes.length := by
  induction rxs generalizing more with
  | nil =>
    cases more with
    | nil => exact ⟨.nil, fun rx hrx => absurd hrx List.not_mem_nil⟩
    | cons => cases h
  | cons rx rxs ih =>
    cases more with
    | nil => cases h
    | cons chunk more =>
      rw [List.map_cons, List.map_cons, List.cons.injEq] at h
      obtain ⟨hbrings, hwhole⟩ := Received.brings h.1 settings
      obtain ⟨hmore, hrest⟩ := ih h.2
      exact ⟨.cons hbrings hmore, List.forall_mem_cons.mpr ⟨hwhole, hrest⟩⟩

/-- The commands that were received are answered with success but for the last, which is answered
so. -/
def commandAnswers (settings : Settings) (rxs : List Received) (o : Outcome) :
    List (Command × Outcome) :=
  (rxs.map fun rx => rx.command settings).zip
    (List.replicate (rxs.length - 1) (.status [] HW_OK) ++ [o])

/-- The commands that were received bring the content, and are whole. -/
theorem Content.SentIn.broughtBy {content : Content} {rxs : List Received}
    (h : content.SentIn path (rxs.map Received.bytes)) (hcontent : content.Signable settings) :
    content.BroughtBy path (rxs.map fun rx => rx.command settings) ∧ rxs ≠ [] ∧
      ∀ rx ∈ rxs, rx.buffer.Complete rx.bytes.length := by
  obtain ⟨hpos, hten, first, more, hcut, hlast, hfirst, hsent⟩ := h
  cases content with
  | transaction tx =>
    obtain ⟨htx, -, -⟩ := hcontent
    obtain ⟨rx, rest, rfl, hrx, hrest⟩ := List.map_eq_cons_iff.mp hsent
    obtain ⟨hbegins, hwhole⟩ := Received.brings hrx settings
    obtain ⟨hmore, hrest⟩ := moreBytes_brings hrest settings
    have hcut : first ++ more.flatten = tx.encode := hcut
    have hlast : (first :: more).getLast? ≠ some [] := by
      cases more with
      | nil =>
        obtain ⟨b, bytes, hencode, -⟩ := TxRecord.encode_head htx
        rintro ⟨⟩
        rw [hencode] at hcut
        cases hcut
      | cons => exact hlast
    exact ⟨.transaction ⟨hpos, hten, hcut, hlast, hbegins, hmore⟩, List.cons_ne_nil _ _,
      List.forall_mem_cons.mpr ⟨hwhole, hrest⟩⟩
  | stream kind stream =>
    obtain ⟨hlength, -, -⟩ := hcontent
    obtain ⟨rx, rest, rfl, hrx, hrest⟩ := List.map_eq_cons_iff.mp hsent
    obtain ⟨hbegins, hwhole⟩ := Received.brings hrx settings
    obtain ⟨hmore, hrest⟩ := moreBytes_brings hrest settings
    exact ⟨.stream ⟨hpos, hten, hlength, hcut, hlast, hbegins, hmore⟩
      fun hkind => hfirst (by rw [hkind]; rfl), List.cons_ne_nil _ _,
      List.forall_mem_cons.mpr ⟨hwhole, hrest⟩⟩

/-- What is seen of a reply. -/
def seenReply (reply : List UInt8) : Seen := ⟨some reply, .menu, []⟩

/-- What is seen of the commands that ask for a review. -/
def Review.asking (r : Review) (rxs : List Received) : List (Event × Seen) :=
  (rxs.map Event.receive).zip
    (List.replicate (rxs.length - 1) (seenReply (statusBytes HW_OK)) ++
      [⟨none, r.phase.screen, r.phase.pairs⟩])

/-- What is seen of the decision about a review: the warning is confirmed before, and the rejection
of a certificate after. -/
def Review.deciding (r : Review) (confirm : Bool) (signature : EcdsaSignature) :
    List (Event × Seen) :=
  if confirm then
    (r.flow.warning?.toList.map fun _ => (.choice true, ⟨none, r.flow.lastScreen, r.pairs⟩)) ++
      [(.choice true, seenReply (signature.bytes ++ statusBytes HW_OK))]
  else if r.flow = .certificate then
    [(.choice false, ⟨none, .rejectCertificate, []⟩),
      (.choice true, seenReply (statusBytes HW_SW_TRANSACTION_CANCELLED))]
  else [(.choice false, seenReply (statusBytes HW_SW_TRANSACTION_CANCELLED))]

/-- What is left open is what may be found by a command that is whole. -/
def Open.Admitted (P : Signing → Command → Bool → Prop) (t : Dialogue) (e : Event) (o : Open) :
    Prop :=
  ∀ rx, e = .receive rx → rx.buffer.Complete rx.bytes.length →
    P t.signing (rx.command t.storage.settings) (o.found e)

/-- **What the application says to commands** that the signer answers so. -/
theorem answers_commands {r : Review} {rxs : List Received} (hne : rxs ≠ [])
    (hwhole : ∀ rx ∈ rxs, rx.buffer.Complete rx.bytes.length) {storage' : InternalStorage}
    {P : Signing → Command → Bool → Prop} {signing : Signing}
    (h : platform.signer.Answers P signing (commandAnswers storage'.settings rxs (.review r)))
    {rest : List (Event × Seen)} (hrest : ∀ signing,
      (platform.dialogue sign storage).Answers (Open.Admitted P)
        ⟨storage', signing, r.phase⟩ rest) :
    (platform.dialogue sign storage).Answers (Open.Admitted P) ⟨storage', signing, .ready⟩
      (r.asking rxs ++ rest) := by
  induction rxs generalizing signing with
  | nil => exact absurd rfl hne
  | cons rx rxs ih =>
    obtain ⟨hcomplete, hothers⟩ := List.forall_mem_cons.mp hwhole
    have hnil : rx.bytes ≠ [] := by
      intro hnil
      rw [hnil, ApduBuffer.Complete, List.length_nil] at hcomplete
      omega
    have hreceive {o : Open} {outcome : Outcome} {signing' : Signing}
        (hrespond : signing.respond platform (o.found (.receive rx)) storage'.settings
          (rx.command storage'.settings).request = .answer outcome signing') :
        (platform.dialogue sign storage).respond o ⟨storage', signing, .ready⟩ (.receive rx) =
          Dialogue.outcome ⟨storage', signing', .ready⟩
            ((rx.command storage'.settings).request.key? platform) outcome := by
      show Dialogue.receive platform o rx _ = _
      rw [Dialogue.receive, if_neg hnil, if_neg (not_not.mpr hcomplete)]
      dsimp only
      rw [hrespond]
    cases rxs with
    | nil =>
      intro o ho
      obtain ⟨signing', hrespond, -⟩ := h (o.found (.receive rx)) (ho rx rfl hcomplete)
      exact ⟨⟨storage', signing', r.phase⟩, hreceive hrespond, hrest signing'⟩
    | cons rx' rxs =>
      intro o ho
      obtain ⟨signing', hrespond, hanswers⟩ := h (o.found (.receive rx)) (ho rx rfl hcomplete)
      exact ⟨⟨storage', signing', .ready⟩, hreceive hrespond,
        ih (List.cons_ne_nil _ _) hothers hanswers⟩

/-- **What the application says to the decision** about a review. -/
theorem answers_deciding {r : Review} {signature : EcdsaSignature}
    (hsign : sign r.path r.hash = .ok signature) (confirm : Bool) (storage' : InternalStorage)
    (Q : Dialogue → Event → Open → Prop) (signing : Signing) :
    (platform.dialogue sign storage).Answers Q ⟨storage', signing, r.phase⟩
      (r.deciding confirm signature) := by
  -- the last screen, where the review is signed
  have hasked : (platform.dialogue sign storage).Answers Q
      ⟨storage', signing, .asked r⟩
      [(.choice true, seenReply (signature.bytes ++ statusBytes HW_OK))] := by
    intro o _
    refine ⟨⟨storage', signing, .ready⟩, ?_, trivial⟩
    show Dialogue.confirm sign r _ = _
    rw [Dialogue.confirm, hsign]
    rfl
  unfold Review.phase Review.deciding
  cases hwarning : r.flow.warning? with
  | none =>
    cases confirm with
    | true => exact hasked
    | false =>
      rw [if_neg Bool.false_ne_true]
      by_cases hflow : r.flow = .certificate
      · rw [if_pos hflow]
        intro o _
        refine ⟨⟨storage', signing, .rejecting r⟩, if_pos hflow, fun o _ => ?_⟩
        exact ⟨⟨storage', signing, .ready⟩, rfl, trivial⟩
      · rw [if_neg hflow]
        exact fun o _ => ⟨⟨storage', signing, .ready⟩, if_neg hflow, trivial⟩
  | some text =>
    have hflow : r.flow ≠ .certificate := by
      intro hflow
      rw [hflow] at hwarning
      cases hwarning
    cases confirm with
    | true => exact fun o _ => ⟨⟨storage', signing, .asked r⟩, rfl, hasked⟩
    | false =>
      rw [if_neg Bool.false_ne_true, if_neg hflow]
      exact fun o _ => ⟨⟨storage', signing, .ready⟩, rfl, trivial⟩

/-- A whole conversation about a review. -/
def Review.conversation (r : Review) (rxs : List Received) (confirm : Bool)
    (signature : EcdsaSignature) : List (Event × Seen) :=
  r.asking rxs ++ r.deciding confirm signature

/-- What an application leaves open is what its device may find. -/
theorem App.Follows.admitted {a : App} {t : Dialogue} (h : a.Follows platform t) {content : Content}
    (hcontent : content.Signable settings)
    (hflag : content.Settled ∨ ∀ k, (platform.scratch k).Lasting) (e : Event) :
    Open.Admitted content.Finds t e (a.opening platform sign storage) := by
  rintro rx rfl hcomplete
  have hfinds := h.backs.holds.findsContent hcontent hflag ⟨a.storage.settings, a.arrived rx⟩
  cases content with
  | transaction tx =>
    have hrequest := ((a.agree_arrived rx).sameRequest hcomplete).transactionRequest
    refine hfinds.imp_right fun hfound hcompletes => hfound ?_
    rwa [Received.command, show rx.buffer.transactionRequest = _ from hrequest] at hcompletes
  | stream => trivial

/-- **Who asks in order gets an answer.** After any run that has come back to the menu, the commands
that bring a transaction, a message or a certificate in any chunks are replied to with success
until it is complete; then the review that follows from what was brought is displayed, and the
user who confirms it, and its warning, sends the signature of its hash with its path, while the
user who rejects it sends an error. The settings allow the transaction, its amount fits its
buffer, and its first clause decides about the data flag unless the storage of all clauses
lasts. -/
theorem conversation_answered (platform : Platform) (sign : Signer) (storage : InternalStorage)
    {steps : List (Step Event Sent App)} {a : App} (h : Run (platform.app sign storage) steps a)
    (hmenu : a.screen = .menu) {content : Content} (hcontent : content.Signable a.storage.settings)
    (hflag : content.Settled ∨ ∀ k, (platform.scratch k).Lasting) {path : List UInt32}
    {rxs : List Received} (hsent : content.SentIn path (rxs.map Received.bytes))
    {signature : EcdsaSignature}
    (hsign : sign path (platform.blake2b256 content.preimage) = .ok signature) (confirm : Bool) :
    ∃ new b, (platform.app sign storage).replay
        (((content.review platform path).conversation rxs confirm signature).map Prod.fst)
          (steps, a) = some (new ++ steps, b) ∧
      new.map (fun step => (step.event, seen step)) =
        ((content.review platform path).conversation rxs confirm signature).reverse := by
  obtain ⟨hbrought, hne, hwhole⟩ := hsent.broughtBy hcontent
  have hsettings : ∀ last ∈ (rxs.map fun rx => rx.command a.storage.settings).getLast?,
      last.settings = a.storage.settings := by
    intro last hlast
    obtain ⟨rx, -, rfl⟩ := List.mem_map.mp (List.mem_of_mem_getLast? hlast)
    rfl
  have hanswers : platform.signer.Answers content.Finds .idle (commandAnswers a.storage.settings rxs
      (.review (content.review platform path))) := by
    have hbroughtAnswers : platform.signer.Answers _ _ _ :=
      hbrought.answers hcontent hsettings .idle
    rwa [List.length_map] at hbroughtAnswers
  have hfollows : a.Follows platform ⟨a.storage, .idle, .ready⟩ :=
    ⟨⟨rfl, initialized_of_run h, trivial, Signing.path?_idle⟩, consistent_of_run h, hmenu⟩
  have hreview : sign (content.review platform path).path (content.review platform path).hash =
      .ok signature := by
    rw [content.review_hash, content.review_path, hsign]
  exact (platform.appRefinement sign storage).replay
    (fun a t e hfollows => hfollows.admitted hcontent hflag e) hfollows
    (answers_commands hne hwhole hanswers (answers_deciding hreview confirm a.storage _)) steps

/-- The commands with the record of a transaction, in two chunks. -/
def sampleReceived : List Received := [
  ⟨commandBytes INS_SIGN P1_FIRST (pathBytes [0x80000000] ++ sampleTx.encode.take 7),
    by decide +kernel⟩,
  ⟨commandBytes INS_SIGN P1_MORE (sampleTx.encode.drop 7), by decide +kernel⟩]

/-- They bring it. -/
theorem sampleReceived_sent : (Content.transaction sampleTx).SentIn [0x80000000]
    (sampleReceived.map Received.bytes) := by
  refine ⟨by decide, by decide, sampleTx.encode.take 7, [sampleTx.encode.drop 7], ?_,
    by decide +kernel, Content.noConfusion, rfl⟩
  rw [List.flatten_singleton, List.take_append_drop]
  rfl

theorem conversation_answered_sampleTx : ∃ new b,
    ((Platform.recorded []).app fixedSigner ⟨1, 0, 1⟩).replay
        ((((Content.transaction sampleTx).review (.recorded []) [0x80000000]).conversation
          sampleReceived true ⟨Vector.replicate 32 1, Vector.replicate 32 2, true⟩).map Prod.fst)
        ([], .boot ⟨1, 0, 1⟩) = some (new ++ [], b) ∧
      new.map (fun step => (step.event, seen step)) =
        (((Content.transaction sampleTx).review (.recorded []) [0x80000000]).conversation
          sampleReceived true ⟨Vector.replicate 32 1, Vector.replicate 32 2, true⟩).reverse :=
  conversation_answered (.recorded []) fixedSigner ⟨1, 0, 1⟩ .boot rfl sampleTx_signable
    (.inl (.inl (by decide))) sampleReceived_sent rfl true

end AppVechain
