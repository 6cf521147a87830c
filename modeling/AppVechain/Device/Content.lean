import AppVechain.Device.Record

/-!
# Contents

A transaction, a message or a certificate is what is asked to be signed. The bytes
that are hashed for it tell which of them it is, and everything in it. A device that is
brought a content in chunks shows it to have the hash of these bytes signed, so different
contents are signed apart.
-/

namespace AppVechain

open Rlp Reactive Numeral

/-- What is asked to be signed. -/
inductive Content where
  | transaction (tx : TxRecord)
  | stream (kind : Kind) (bytes : List UInt8)

/-- The bytes that bring it. -/
def Content.bytes : Content → List UInt8
  | .transaction tx => tx.encode
  | .stream _ bytes => bytes

/-- The bytes that are hashed for it. -/
def Content.preimage : Content → List UInt8
  | .transaction tx => tx.encode
  | .stream kind bytes => kind.stream.flow.signedPrefix (UInt32.ofNat bytes.length) ++ bytes

/-- What is shown for it. -/
def Content.review (platform : Platform) (path : List UInt32) : Content → Review
  | .transaction tx => tx.review platform path
  | .stream kind bytes => streamReview platform kind path (UInt32.ofNat bytes.length) bytes

/-- It can be signed: a transaction that the settings allow and whose amount can be displayed, or a
message or a certificate with a length of 32 bits. -/
def Content.Signable (settings : Settings) : Content → Prop
  | .transaction tx => tx.Encodable ∧ tx.refused settings = false ∧
      tx.displayed.transfer.amountText.length ≤ 50
  | .stream kind bytes => bytes.length < 2 ^ 32 ∧ kind.opens bytes = true ∧
      kind.closes bytes = true

/-- The hash of what is shown is the one of these bytes. -/
theorem Content.review_hash (platform : Platform) (path : List UInt32) (content : Content) :
    (content.review platform path).hash = platform.blake2b256 content.preimage := by
  cases content with
  | transaction => rfl
  | stream => rfl

/-- It is signed with this path. -/
theorem Content.review_path (platform : Platform) (path : List UInt32) (content : Content) :
    (content.review platform path).path = path := by
  cases content with
  | transaction => rfl
  | stream => rfl

/-- A clause is a list of its fields. -/
theorem ClauseRecord.tree_injective {c c' : ClauseRecord} (h : c.tree = c'.tree) : c = c' := by
  obtain ⟨toAddress, value, data⟩ := c
  obtain ⟨toAddress', value', data'⟩ := c'
  simpa [ClauseRecord.tree] using h

/-- A transaction is a list of its fields. -/
theorem TxRecord.members_injective {tx tx' : TxRecord} (h : tx.members = tx'.members) :
    tx = tx' := by
  obtain ⟨chainTag, blockRef, expiration, clauses, gasPriceCoef, gas, dependsOn, nonce, reserved⟩ :=
    tx
  obtain ⟨chainTag', blockRef', expiration', clauses', gasPriceCoef', gas', dependsOn', nonce',
    reserved'⟩ := tx'
  simp only [TxRecord.members, List.cons.injEq, Tree.string.injEq, Tree.list.injEq] at h
  obtain ⟨hchainTag, hblockRef, hexpiration, hclauses, hcoef, hgas, hdependsOn, hnonce, hreserved,
    -⟩ := h
  have hclauses : clauses = clauses' :=
    List.map_injective_iff.mpr (fun _ _ => ClauseRecord.tree_injective) hclauses
  simp only [TxRecord.mk.injEq]
  exact ⟨hchainTag, hblockRef, hexpiration, hclauses, hcoef, hgas, hdependsOn, hnonce, hreserved⟩

/-- **The encoding of a transaction** tells all its fields. -/
theorem TxRecord.encode_injective {tx tx' : TxRecord} (htx : tx.Encodable) (htx' : tx'.Encodable)
    (h : tx.encode = tx'.encode) : tx = tx' := by
  rw [TxRecord.encode, TxRecord.encode, Tree.encode, Tree.encode] at h
  obtain ⟨i, hi, -, hpayload⟩ := exists_item_encodeList (Tree.encodeAll tx.members) htx
  obtain ⟨i', hi', -, hpayload'⟩ := exists_item_encodeList (Tree.encodeAll tx'.members) htx'
  have hbytes : i.bytes ++ [] = i'.bytes ++ [] := by rw [hi, hi', h]
  obtain ⟨rfl, -⟩ := Item.bytes_append_inj hbytes
  apply TxRecord.members_injective
  exact Tree.encodeAll_injective _ _ htx (hpayload.symm.trans hpayload')

/-- The encoding of a transaction begins with the header of a list. -/
theorem TxRecord.encode_head {tx : TxRecord} (htx : tx.Encodable) :
    ∃ b rest, tx.encode = b :: rest ∧ 0xc0 ≤ b.toNat := by
  have hhead : ∃ b rest, encodeHeader true (Tree.encodeAll tx.members).length = b :: rest ∧
      0xc0 ≤ b.toNat := by
    unfold encodeHeader
    split
    case isTrue hshort =>
      refine ⟨_, _, rfl, ?_⟩
      rw [UInt8.toNat_ofNat', headerBase, if_pos rfl, Nat.mod_eq_of_lt (by omega)]
      omega
    case isFalse =>
      have hlength : (minimalBytes (Tree.encodeAll tx.members).length).length ≤ 4 :=
        minimalBytes_length_le htx
      refine ⟨_, _, rfl, ?_⟩
      rw [UInt8.toNat_ofNat', headerBase, if_pos rfl, Nat.mod_eq_of_lt (by omega)]
      omega
  obtain ⟨b, rest, hheader, hb⟩ := hhead
  refine ⟨b, rest ++ Tree.encodeAll tx.members, ?_, hb⟩
  rw [TxRecord.encode, Tree.encode, encodeList, hheader]
  rfl

/-- A message is hashed behind a magic number. -/
theorem message_preimage {bytes : List UInt8} (hlength : bytes.length < 2 ^ 32) :
    (Content.stream .message bytes).preimage =
      SIGN_MAGIC ++ (digitsText (numeral 10 bytes.length) ++ bytes) := by
  have hnat : (UInt32.ofNat bytes.length).toNat = bytes.length :=
    UInt32.toNat_ofNat_of_lt' hlength
  show SIGN_MAGIC ++ digitsText (numeral 10 (UInt32.ofNat bytes.length).toNat) ++ bytes = _
  rw [hnat, List.append_assoc]

/-- A certificate is hashed as it is, and begins with a brace. -/
theorem certificate_preimage {bytes : List UInt8} (hopens : Kind.certificate.opens bytes = true) :
    ∃ rest, (Content.stream .certificate bytes).preimage = 123 :: rest := by
  cases bytes with
  | nil => cases hopens
  | cons b rest =>
    have hb : b = 123 := by simpa [Kind.opens] using hopens
    exact ⟨rest, by rw [hb]; rfl⟩

/-- A message and a certificate are hashed from different bytes. -/
theorem message_ne_certificate {bytes bytes' : List UInt8} (hlength : bytes.length < 2 ^ 32)
    (hopens : Kind.certificate.opens bytes' = true) :
    (Content.stream .message bytes).preimage ≠ (Content.stream .certificate bytes').preimage := by
  intro h
  obtain ⟨rest, hpreimage⟩ := certificate_preimage hopens
  rw [message_preimage hlength, hpreimage] at h
  exact absurd (List.cons.inj h).1 (by decide)

/-- What is hashed of a stream tells its kind and its bytes. -/
theorem stream_preimage_injective {kind kind' : Kind} {bytes bytes' : List UInt8}
    (hlength : bytes.length < 2 ^ 32) (hlength' : bytes'.length < 2 ^ 32)
    (hopens : kind.opens bytes = true) (hopens' : kind'.opens bytes' = true)
    (h : (Content.stream kind bytes).preimage = (Content.stream kind' bytes').preimage) :
    kind = kind' ∧ bytes = bytes' := by
  cases kind with
  | message =>
    cases kind' with
    | message =>
      rw [message_preimage hlength, message_preimage hlength', List.append_cancel_left_eq] at h
      have hmono : Monotone fun n => (digitsText (numeral 10 n)).length := by
        simp only [digitsText, List.length_map]
        exact numeral_length_mono (by decide)
      exact ⟨rfl, append_length_injective hmono h⟩
    | certificate => exact absurd h (message_ne_certificate hlength hopens')
  | certificate =>
    cases kind' with
    | message => exact absurd h.symm (message_ne_certificate hlength' hopens)
    | certificate => exact ⟨rfl, h⟩

/-- **What is hashed tells what is signed**: which of the three it is, and everything in it. -/
theorem preimage_injective {c c' : Content} {settings settings' : Settings}
    (hc : c.Signable settings) (hc' : c'.Signable settings') (h : c.preimage = c'.preimage) :
    c = c' := by
  -- the first bytes of the three kinds differ
  have hdiffer {tx : TxRecord} (htx : tx.Encodable) {kind : Kind} {bytes : List UInt8}
      (hstream : (Content.stream kind bytes).Signable settings')
      (h : tx.encode = (Content.stream kind bytes).preimage) : False := by
    obtain ⟨b, rest, hencode, hb⟩ := TxRecord.encode_head htx
    obtain ⟨hlength, hopens, -⟩ := hstream
    rw [hencode] at h
    cases kind with
    | message =>
      rw [message_preimage hlength] at h
      obtain ⟨rfl, -⟩ := List.cons.inj h
      exact absurd hb (by decide)
    | certificate =>
      obtain ⟨rest', hpreimage⟩ := certificate_preimage hopens
      rw [hpreimage] at h
      obtain ⟨rfl, -⟩ := List.cons.inj h
      exact absurd hb (by decide)
  cases c with
  | transaction tx =>
    cases c' with
    | transaction tx' => rw [TxRecord.encode_injective hc.1 hc'.1 h]
    | stream kind bytes => exact (hdiffer hc.1 hc' h).elim
  | stream kind bytes =>
    cases c' with
    | transaction tx' => exact (hdiffer hc'.1 hc h.symm).elim
    | stream kind' bytes' =>
      obtain ⟨hlength, hopens, -⟩ := hc
      obtain ⟨hlength', hopens', -⟩ := hc'
      obtain ⟨rfl, rfl⟩ := stream_preimage_injective hlength hlength' hopens hopens' h
      rfl

variable {platform : Platform} {settings : Settings} {path : List UInt32} {kind : Kind}
variable {content : Content} {cs : List Command}

/-- The request of a command that begins a stream. -/
theorem Command.Brings.beginStream {c : Command} {length : UInt32} {first : List UInt8}
    (h : c.Brings kind.stream.flow.instruction P1_FIRST (beginningBytes path length first))
    (hpos : 1 ≤ path.length) (hten : path.length ≤ 10) (hne : kind = .certificate → first ≠ [])
    (hopens : kind.opens first = true) : c.request = .beginStream kind path length first := by
  obtain ⟨hG, hpath, hlength, hwhole, hfirst⟩ := h.begins hpos hten
  have hpart : c.G.firstPart = first := by
    rw [ApduBuffer.firstPart, hwhole, Nat.add_sub_cancel_left, hfirst]
  have hbegins : c.G.BeginsStream kind := ⟨by omega, hpart ▸ hne⟩
  have hrequest : c.G.streamRequest kind = .beginStream kind path length first := by
    rw [ApduBuffer.streamRequest, if_pos h.p1, if_neg (not_not.mpr hG),
      if_neg (not_not.mpr hbegins), if_neg (by rw [hpart, hopens]; decide),
      if_neg (not_not.mpr h.p2), hpath, hlength, hpart]
  rw [Command.request, if_neg (not_not.mpr h.cla), h.ins]
  cases kind with
  | message => exact hrequest
  | certificate => exact hrequest

/-- The request of a command that goes on with a stream. -/
theorem Command.Brings.moreStream {c : Command} {chunk : List UInt8}
    (h : c.Brings kind.stream.flow.instruction P1_MORE chunk) :
    c.request = .moreStream kind chunk := by
  have hp1 : c.G.p1 ≠ P1_FIRST := by
    rw [h.p1]
    decide
  have hrequest : c.G.streamRequest kind = .moreStream kind chunk := by
    rw [ApduBuffer.streamRequest, if_neg hp1, if_pos ⟨h.p1, h.p2⟩, h.data]
  rw [Command.request, if_neg (not_not.mpr h.cla), h.ins]
  cases kind with
  | message => exact hrequest
  | certificate => exact hrequest

/-- **What the signer answers to the chunks of a stream**, whatever it had in hand. -/
theorem BringStream.answers {stream first : List UInt8} {more : List (List UInt8)} {c : Command}
    {cs : List Command}
    (h : BringStream kind.stream.flow.instruction path stream first more c cs)
    (hne : kind = .certificate → first ≠ []) (hopens : kind.opens first = true)
    (hcloses : kind.closes stream = true) (P : Signing → Command → Bool → Prop)
    (signing : Signing) :
    platform.signer.Answers P signing
      ((c :: cs).zip (List.replicate cs.length (.status [] HW_OK) ++
        [.review (streamReview platform kind path (UInt32.ofNat stream.length) stream)])) := by
  have hnat := h.toNat_length
  obtain ⟨hpos, hten, -, hcut, hlast, hbegins, hmore⟩ := h
  have hrequest := hbegins.beginStream hpos hten hne hopens
  -- what is said of some bytes of the stream, and of all of them
  have hsome {bytes rest : List UInt8} (hbytes : bytes ++ rest = stream) (hrest : rest ≠ []) :
      streamResponse platform kind path (UInt32.ofNat stream.length) bytes =
        .answer (.status [] HW_OK) (.stream kind path (UInt32.ofNat stream.length) bytes) := by
    have hless : bytes.length < (UInt32.ofNat stream.length).toNat := by
      have hpos := List.length_pos_iff.mpr hrest
      rw [hnat, ← hbytes, List.length_append]
      omega
    rw [streamResponse, if_pos hless]
  have hall : streamResponse platform kind path (UInt32.ofNat stream.length) stream =
      .answer (.review (streamReview platform kind path (UInt32.ofNat stream.length) stream))
        .idle := by
    rw [streamResponse, if_neg (by rw [hnat]; omega), if_pos hcloses]
  have hfits {bytes rest : List UInt8} (hbytes : bytes ++ rest = stream) :
      ¬(UInt32.ofNat stream.length).toNat < bytes.length := by
    rw [hnat, ← hbytes, List.length_append]
    omega
  cases hmore with
  | nil =>
    intro found _
    rw [List.flatten_nil, List.append_nil] at hcut
    refine ⟨.idle, ?_, trivial⟩
    show signing.respond platform found c.settings c.request = _
    rw [hrequest, Signing.respond, hcut, if_neg (by rw [hnat]; omega)]
    exact hall
  | @cons c' chunk cs chunks hc hcs =>
    intro found _
    have hrest : (chunk :: chunks).flatten ≠ [] :=
      List.length_pos_iff.mp (flatten_length_pos (by simp) hlast)
    refine ⟨.stream kind path (UInt32.ofNat stream.length) first, ?_, ?_⟩
    · show signing.respond platform found c.settings c.request = _
      rw [hrequest, Signing.respond, if_neg (hfits hcut)]
      exact hsome hcut hrest
    · have hes : List.Forall₂ (fun c chunk => c.Brings kind.stream.flow.instruction P1_MORE chunk)
          (c' :: cs) (chunk :: chunks) := .cons hc hcs
      have hfinal : ∀ e ∈ (c' :: cs).getLast?, (fun _ : Command => True) e := fun _ _ => trivial
      refine Specification.answers_chunks ?_ ?_ hes hlast hfinal hcut
      · intro found delivered chunk rest e _ he hrest hbytes
        show Signing.respond platform found e.settings (.stream kind path _ delivered) _ = _
        rw [he.moreStream, Signing.respond, if_pos rfl, if_neg (hfits hbytes)]
        exact hsome hbytes hrest
      · intro found delivered chunk e _ he _ _ hbytes
        refine ⟨.idle, ?_⟩
        show Signing.respond platform found e.settings (.stream kind path _ delivered) _ = _
        rw [he.moreStream, Signing.respond, if_pos rfl, hbytes, if_neg (by rw [hnat]; omega)]
        exact hall

/-- **The commands bring a content** to be signed with a path: in chunks, of which the last one is
not empty, and the first one of a certificate neither. -/
inductive Content.BroughtBy (path : List UInt32) : Content → List Command → Prop where
  | transaction {tx : TxRecord} {first : List UInt8} {more : List (List UInt8)} {c : Command}
      {cs : List Command} (h : BringTransaction path tx.encode first more c cs) :
      BroughtBy path (.transaction tx) (c :: cs)
  | stream {kind : Kind} {stream first : List UInt8} {more : List (List UInt8)} {c : Command}
      {cs : List Command} (h : BringStream kind.stream.flow.instruction path stream first more c cs)
      (hfirst : kind = .certificate → first ≠ []) : BroughtBy path (.stream kind stream) (c :: cs)

/-- The first clause of a transaction decides about the data flag. -/
def Content.Settled : Content → Prop
  | .transaction tx => tx.Settled
  | .stream _ _ => True

/-- The data flag that may be found where a content is completed. -/
def Content.Finds : Content → Signing → Command → Bool → Prop
  | .transaction tx => tx.Finds
  | .stream _ _ => fun _ _ _ => True

/-- A device finds it, if the first clause decides or storage lasts. -/
theorem Device.Holds.findsContent {d : Device} {signing : Signing} (h : d.Holds platform signing)
    (hcontent : content.Signable settings)
    (hflag : content.Settled ∨ ∀ k, (platform.scratch k).Lasting) (c : Command) :
    content.Finds signing c (d.found platform c) := by
  cases content with
  | transaction tx => exact h.finds hcontent.1 hflag c
  | stream => trivial

/-- The first byte of a stream is in its first chunk. -/
theorem opens_first {kind : Kind} {stream first rest : List UInt8} (hcut : first ++ rest = stream)
    (hne : kind = .certificate → first ≠ []) (hopens : kind.opens stream = true) :
    kind.opens first = true := by
  cases kind with
  | message => rfl
  | certificate =>
    obtain ⟨b, bytes, rfl⟩ := List.exists_cons_of_ne_nil (hne rfl)
    rw [← hcut] at hopens
    exact hopens

/-- **What the signer answers to the commands that bring a content**, whatever it had in hand. -/
theorem Content.BroughtBy.answers (h : content.BroughtBy path cs)
    (hcontent : content.Signable settings)
    (hsettings : ∀ last ∈ cs.getLast?, last.settings = settings) (signing : Signing) :
    platform.signer.Answers content.Finds signing
      (cs.zip (List.replicate (cs.length - 1) (.status [] HW_OK) ++
        [.review (content.review platform path)])) := by
  cases h with
  | transaction h =>
    obtain ⟨htx, hallowed, hfits⟩ := hcontent
    refine h.answers htx hsettings ?_ signing
    rw [TxRecord.outcome?, if_neg (by rw [hallowed]; decide), if_pos hfits]
    rfl
  | stream h hfirst =>
    obtain ⟨-, hopens, hcloses⟩ := hcontent
    exact h.answers hfirst (opens_first h.cut hfirst hopens) hcloses _ signing

/-- **A content that is brought is reviewed**, by whatever device, to have its hash signed. -/
theorem content_reviewed (platform : Platform) (h : content.BroughtBy path cs)
    (hcontent : content.Signable settings)
    (hsettings : ∀ last ∈ cs.getLast?, last.settings = settings)
    (hflag : content.Settled ∨ ∀ k, (platform.scratch k).Lasting) (d : Device) :
    ∃ steps d', platform.device.replay cs ([], d) = some (steps, d') ∧
      steps.head?.map observed = some (.review (content.review platform path)) ∧
      d'.tmpCtx.hash = platform.blake2b256 content.preimage := by
  have hanswers : platform.signer.Answers _ _ _ := h.answers hcontent hsettings .idle
  have hlength : cs.length = (List.replicate (cs.length - 1) (Outcome.status [] HW_OK) ++
      [Outcome.review (content.review platform path)]).length := by
    cases h <;> simp
  have hidle : platform.refinement.related d .idle := trivial
  obtain ⟨steps, d', hreplay, hhistory⟩ := platform.refinement.replay
    (fun d signing c hholds => hholds.findsContent hcontent hflag c) hidle hanswers []
  rw [List.map_fst_zip hlength.le, List.append_nil] at hreplay
  have hobserved := congrArg (List.map Prod.snd) hhistory
  rw [List.map_reverse, List.map_snd_zip hlength.ge, List.reverse_append, Refinement.history,
    List.map_map] at hobserved
  obtain ⟨last, others, rfl, hlast, -⟩ := List.map_eq_cons_iff.mp hobserved
  have hreview : observed last = .review (content.review platform path) := hlast
  refine ⟨_, d', hreplay, congrArg some hreview, ?_⟩
  have hafter : last.after = d' := System.replay_head hreplay (fun _ h => by cases h) last rfl
  rw [← hafter, ← (Answer.outcome_review hreview).2, content.review_hash]

/-- **Different contents are signed apart.** Two of them, each brought to some device to be signed
with some path, are reviewed there as what they are, to have the hashes of different bytes
signed: if they have the same hash, the hash function collides. -/
theorem contents_apart (platform : Platform) {content content' : Content}
    {settings settings' : Settings} (hcontent : content.Signable settings)
    (hcontent' : content'.Signable settings') (hne : content ≠ content')
    (hflag : content.Settled ∧ content'.Settled ∨ ∀ k, (platform.scratch k).Lasting)
    {path path' : List UInt32} {cs cs' : List Command} (h : content.BroughtBy path cs)
    (h' : content'.BroughtBy path' cs') (hsettings : ∀ last ∈ cs.getLast?, last.settings = settings)
    (hsettings' : ∀ last ∈ cs'.getLast?, last.settings = settings') (d d' : Device) :
    ∃ steps e steps' e', platform.device.replay cs ([], d) = some (steps, e) ∧
      platform.device.replay cs' ([], d') = some (steps', e') ∧
      steps.head?.map observed = some (.review (content.review platform path)) ∧
      steps'.head?.map observed = some (.review (content'.review platform path')) ∧
      e.tmpCtx.hash = platform.blake2b256 content.preimage ∧
      e'.tmpCtx.hash = platform.blake2b256 content'.preimage ∧
      content.preimage ≠ content'.preimage := by
  obtain ⟨steps, e, hreplay, hreview, hhash⟩ :=
    content_reviewed platform h hcontent hsettings (hflag.imp_left And.left) d
  obtain ⟨steps', e', hreplay', hreview', hhash'⟩ :=
    content_reviewed platform h' hcontent' hsettings' (hflag.imp_left And.right) d'
  exact ⟨steps, e, steps', e', hreplay, hreplay', hreview, hreview', hhash, hhash',
    fun hsame => hne (preimage_injective hcontent hcontent' hsame)⟩

set_option maxRecDepth 4000 in
/-- The sample can be signed. -/
theorem sampleTx_signable : (Content.transaction sampleTx).Signable ⟨true, false⟩ := by
  have htx : sampleTx.Encodable := by
    unfold TxRecord.Encodable
    decide
  exact ⟨htx, by decide, by decide +kernel⟩

set_option maxRecDepth 4000 in
theorem contents_apart_sampleTx : ∃ steps e steps' e',
    (Platform.recorded []).device.replay [sampleCommands.1, sampleCommands.2] ([], .boot) =
        some (steps, e) ∧
      (Platform.recorded []).device.replay [(splitStream INS_SIGN_PERSONAL_MESSAGE).1,
        (splitStream INS_SIGN_PERSONAL_MESSAGE).2] ([], .boot) = some (steps', e') ∧
      e.tmpCtx.hash = (Platform.recorded []).blake2b256 sampleTx.encode ∧
      e'.tmpCtx.hash = (Platform.recorded []).blake2b256
        (Content.stream .message [0x7b, 0x7d]).preimage := by
  have hmessage : (Content.stream .message [0x7b, 0x7d]).BroughtBy [0x80000000]
      [(splitStream INS_SIGN_PERSONAL_MESSAGE).1, (splitStream INS_SIGN_PERSONAL_MESSAGE).2] :=
    .stream (splitStream_brings (.inl rfl)) fun h => by cases h
  have hsignable : (Content.stream .message [0x7b, 0x7d]).Signable ⟨true, true⟩ :=
    ⟨by decide, by decide, by decide⟩
  obtain ⟨steps, e, steps', e', hreplay, hreplay', -, -, hhash, hhash', -⟩ :=
    contents_apart (.recorded []) sampleTx_signable hsignable (fun h => by cases h)
      (.inl ⟨.inl (by decide), trivial⟩) (.transaction sampleCommands_bring) hmessage
      (fun _ h => by cases h; rfl) (fun _ h => by cases h; rfl) .boot .boot
  exact ⟨steps, e, steps', e', hreplay, hreplay', hhash, hhash'⟩

end AppVechain
