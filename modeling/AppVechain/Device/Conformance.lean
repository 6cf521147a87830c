import AppVechain.Device.Specification

/-!
# The device is the signer

The code does what is said of the signer, wherever something is said: what the
signer has in hand is in the contexts of the parser, in the hash and in `tmpCtx`, and
every command answers and goes on as it is said.
-/

namespace AppVechain

open Rlp Streaming Reactive

/-- No field comes before the first one. -/
theorem RlpTxField.succ_ne_none (f : RlpTxField) : f.succ ≠ .none := by cases f <;> decide

/-- The list of the clauses is read as one. -/
theorem txRules_keeps_clauses (scratch : Scratch) :
    (txRules scratch).Keeps fun d => d.clauses.field = .clause where
  header _ _ h := h
  enter _ h := h
  start _ _ _ h := h
  store f single pos x d d' h hstore := by
    obtain ⟨kept, hkept, rfl⟩ := Option.map_eq_some_iff.mp hstore
    rw [TxData.hash_clauses]
    cases f with
    | clauses =>
      obtain ⟨clauses, hrun, rfl⟩ := Option.map_eq_some_iff.mp hkept
      exact Rules.run_field_of_next (r := clausesRules scratch) (Q := (· = .clause))
        (fun _ hf => hf) h hrun
    | _ =>
      cases hkept
      exact h
  finish f _ _ _ _ h := by cases f <;> exact h

variable {platform : Platform} {d : Device} {bytes : List UInt8}

/-- A parser in a session was initialised. -/
theorem Device.Session.started (h : d.Session platform Eq bytes) :
    d.tx.currentField ≠ .none ∧ d.tx.env.clauses.currentField ≠ .none := by
  obtain ⟨content, t, hsim, hrun⟩ := h.parses
  have hstate : ((txRules (platform.scratch d.session)).machine.run (txStart .zero content)
      bytes).state? = some t := by
    rw [hrun]
    rfl
  constructor
  · rw [hsim.field]
    exact Rules.run_field_of_next (Q := (· ≠ .none)) (fun f _ => f.succ_ne_none)
      RlpTxField.noConfusion hstate
  · rw [hsim.env.1.field,
      (txRules_keeps_clauses _).run (s := txStart .zero content) rfl trivial hstate]
    decide

/-- The parser is called on the bytes of a session. -/
theorem Device.Session.signInitialized (h : d.Session platform Eq bytes) {G : ApduBuffer}
    (hp2 : G.p2 = 0) : signInitialized G d = none := by
  rw [AppVechain.signInitialized, if_neg (not_not.mpr hp2), h.fee]
  dsimp only
  rw [if_neg h.started.1, if_neg h.started.2]

/-- What is kept of a transaction does not depend on what the numbers were before. -/
theorem txRules_run_sameView {scratch : Scratch} {content content' : TxContent}
    {xs unread : List UInt8} {t t' : FieldState RlpTxField TxData}
    (h : (txRules scratch).machine.run (txStart .zero content) xs = .halted t unread)
    (h' : (txRules scratch).machine.run (txStart .zero content') xs = .halted t' unread) :
    SameView t.env.view t'.env.view := by
  obtain ⟨all, u, hall, hagain, hsame⟩ := txRules_run_again h content'
  -- the bytes that are read alone end as they do with the unread ones behind them
  have hu : t' = u := by
    rw [hall, Machine.run_append, hagain] at h'
    simpa [Outcome.resume] using h'.symm
  have hread := (txRules_run_blake2b scratch (t := txStart .zero content) trivial xs).2 t unread h
  have hread' :=
    (txRules_run_blake2b scratch (t := txStart .zero content') trivial xs).2 t' unread h'
  refine { (hu ▸ hsame : SameContent t.env.view t'.env.view) with blake2b := ?_ }
  exact List.append_cancel_right (hread.2.trans hread'.2.symm)

/-- What the signer has in hand is in the device. -/
def Device.Holds (platform : Platform) (d : Device) : Signing → Prop
  | .idle => True
  | .transaction path bytes => d.Session platform Eq bytes ∧ d.tmpCtx.path = path
  | .stream kind path length delivered =>
      d.Streams path (kind.stream.flow.signedPrefix length) length.toNat delivered ∧
        delivered.length < length.toNat

/-- A handler does what is said of its command. -/
def Ending.Meets (platform : Platform) (ending : Ending) : Response Outcome Signing → Prop
  | .unspecified => True
  | .silent => ending.answer? = none
  | .answer o signing => ∃ a d, ending.answer? = some (a, d) ∧ a.outcome d = o ∧
      (if a.isError then d.wipe else d).Holds platform signing

/-- Handlers that end alike do what is said of each other. -/
theorem Ending.Alike.meets {I : Device → Device → Prop} {e e' : Ending} (h : Ending.Alike I e e') :
    e.Meets platform e'.response := by
  cases h with
  | error => exact ⟨_, _, rfl, rfl, trivial⟩
  | success => exact ⟨_, _, rfl, rfl, trivial⟩
  | review hreview => exact ⟨_, _, rfl, hreview.outcome, trivial⟩
  | stuck => exact rfl

/-- A transaction that is read in some storage, over some numbers, and read again with the data
flag that was found. -/
theorem txRules_run_refound {scratch : Scratch} {content : TxContent} {xs unread : List UInt8}
    {t : FieldState RlpTxField TxData}
    (h : (txRules scratch).machine.run (txStart .zero content) xs = .halted t unread)
    (content' : TxContent) : ∃ t', (txRules (.stale t.env.view.dataPresent)).machine.run
        (txStart .zero content') xs = .halted t' unread ∧
      SameView t.env.view t'.env.view := by
  have hrelated := txRules_run_related scratch scratch .zero .zero content content' xs
  cases hrun : (txRules scratch).machine.run (txStart .zero content') xs with
  | halted t' unread' =>
    rw [h, hrun] at hrelated
    cases hrelated
    have hsame := txRules_run_sameView h hrun
    obtain ⟨again, hagain, hview⟩ := txRules_run_found hrun
    refine ⟨again, hsame.dataPresent ▸ hagain, ?_⟩
    rw [hview]
    exact hsame
  | running t' =>
    rw [h, hrun] at hrelated
    cases hrelated
  | refused =>
    rw [h, hrun] at hrelated
    cases hrelated

/-- The data flag that a device finds when a command completes a transaction. -/
def Device.found (platform : Platform) (d : Device) (c : Command) : Bool :=
  match signParse platform c.G d with
  | .inl _ => false
  | .inr parsed => parsed.clausesContent.dataPresent

/-- **A transaction in hand**: the parser that is called on more bytes does what a new one does
with all of them, if what it finds is found. -/
theorem signRest_meets {w : Work} (h : w.device.Session platform Eq bytes) (settings : Settings)
    {G : ApduBuffer} (hp2 : G.p2 = 0) {chunk : List UInt8}
    (hchunk : G.bytes w.workBuffer w.dataLength.toNat = chunk) {found : Bool}
    (hfound : ∀ tx, processTx (platform.scratch w.device.session) w.device.tx chunk =
      .returned .finished tx → found = tx.env.view.dataPresent) :
    (signRest platform settings G w).Meets platform
      (transactionResponse platform settings found w.device.tmpCtx.path (bytes ++ chunk)) := by
  rw [signRest, h.signInitialized hp2, hchunk]
  obtain ⟨content, hcall⟩ := h.processTx keptByHashing_eq chunk
  have hfresh := processTx_fresh (.stale found) (bytes ++ chunk)
  have hrelated := txRules_run_related (platform.scratch w.device.session) (.stale found)
    .zero .zero content .zero (bytes ++ chunk)
  rw [transactionResponse]
  cases hrun : (txRules (platform.scratch w.device.session)).machine.run (txStart .zero content)
      (bytes ++ chunk) with
  | refused =>
    rw [hrun] at hcall hrelated
    generalize (txRules (.stale found)).machine.run (txStart .zero .zero) (bytes ++ chunk) = out
      at hfresh hrelated
    cases hrelated
    obtain ⟨tx, hprocess⟩ := hcall
    obtain ⟨tx', hprocess'⟩ := hfresh
    rw [hprocess, hprocess']
    exact ⟨_, _, rfl, rfl, trivial⟩
  | running t =>
    rw [hrun] at hcall hrelated
    generalize (txRules (.stale found)).machine.run (txStart .zero .zero) (bytes ++ chunk) = out
      at hfresh hrelated
    cases hrelated
    obtain ⟨tx, hprocess, hsim, -⟩ := hcall
    obtain ⟨tx', hprocess'⟩ := hfresh
    rw [hprocess, hprocess']
    exact ⟨.status [] HW_OK, _, rfl, rfl, h.next hsim hrun, rfl⟩
  | halted t unread =>
    rw [hrun] at hcall
    obtain ⟨tx, hprocess, hsim, -⟩ := hcall
    have htx := txRel_view hsim.env
    obtain ⟨t', hrun', hsame⟩ := txRules_run_refound hrun .zero
    rw [← htx, ← hfound tx hprocess] at hrun'
    rw [hrun'] at hfresh
    obtain ⟨tx', hprocess', htx', -⟩ := hfresh
    have hview : SameView tx.env.view tx'.env.view := by
      rw [htx, htx']
      exact hsame
    rw [hprocess, hprocess']
    exact (signFinish_alike (fun _ _ => True) platform settings hview
      (TmpCtx.path_ofPath w.device.tmpCtx.length_path_le).symm).meets

variable {G : ApduBuffer} {signing : Signing}

/-- A wiped device holds what is in hand after an error. -/
theorem Device.Holds.wipe (h : d.Holds platform signing) :
    d.wipe.Holds platform signing.afterError := by
  cases signing with
  | idle => trivial
  | transaction => trivial
  | stream =>
    obtain ⟨⟨hpath, hblake2b, hremaining⟩, hless⟩ := h
    exact ⟨⟨hpath, hblake2b, hremaining⟩, hless⟩

/-- A handler that refuses its command at once. -/
theorem refused_meets (h : d.Holds platform signing) {sw : UInt16}
    (hsw : sw &&& ERROR_TYPE_MASK = ERROR_TYPE_HW) :
    (Ending.throw [] sw d).Meets platform (.answer (.status [] sw) signing.afterError) := by
  refine ⟨_, _, rfl, rfl, ?_⟩
  rw [show (Answer.status [] sw).isError = true from decide_eq_true hsw, if_pos rfl]
  exact h.wipe

/-- `P1_FIRST` with a path begins a session. -/
theorem signBegin_of_hasPath (hp1 : G.p1 = P1_FIRST) (hpath : G.HasPath) (d : Device) :
    ∃ w, signBegin G d = .inr w := by
  obtain ⟨a, hbegin, -⟩ := beginPath_of_hasPath hpath (d.setClauses ⟨0, false⟩ .zero)
  unfold signBegin
  rw [if_pos hp1, hbegin]
  exact ⟨_, rfl⟩

/-- A `P2` other than zero is refused. -/
theorem signRest_of_p2 (hp2 : G.p2 ≠ 0) (settings : Settings) (w : Work) :
    signRest platform settings G w = .throw [] HW_INCORRECT_P1_P2 w.device := by
  rw [signRest, signInitialized, if_pos hp2]

/-- What a device finds is what its parser holds. -/
theorem Device.found_of_finished {c : Command} {w : Work} (hbegin : signBegin c.G d = .inr w)
    (hinit : signInitialized c.G w.device = none) {tx : TxState}
    (hprocess : processTx (platform.scratch w.device.session) w.device.tx
      (c.G.bytes w.workBuffer w.dataLength.toNat) = .returned .finished tx) :
    d.found platform c = tx.env.view.dataPresent := by
  rw [found, signParse, hbegin]
  dsimp only
  rw [hinit, hprocess]
  rfl

/-- **Signing a transaction** does what is said. -/
theorem handleSign_meets (c : Command) (h : d.Holds platform signing) :
    (handleSign platform c.settings c.G d).Meets platform
      (signing.respond platform (d.found platform c) c.settings c.G.transactionRequest) := by
  obtain ⟨settings, G⟩ := c
  rw [handleSign_eq, ApduBuffer.transactionRequest]
  by_cases hp1 : G.p1 = P1_FIRST
  · rw [if_pos hp1]
    by_cases hpath : G.HasPath
    · obtain ⟨w, hbegin⟩ := signBegin_of_hasPath hp1 hpath d
      rw [if_neg (not_not.mpr hpath), hbegin]
      show (signRest platform settings G w).Meets platform _
      by_cases hp2 : G.p2 = 0
      · obtain ⟨-, -, -, hwords, -, -, -⟩ := signBegin_first hp1 hbegin
        rw [if_neg (not_not.mpr hp2)]
        have hsigning : w.device.Session platform Eq [] := signBegin_session rfl hp1 hbegin
        rw [← hwords]
        exact signRest_meets hsigning settings hp2 (signBegin_payload hbegin)
          fun tx hprocess => by
            rw [← signBegin_payload hbegin] at hprocess
            exact Device.found_of_finished hbegin (hsigning.signInitialized hp2) hprocess
      · rw [if_pos hp2, signRest_of_p2 hp2]
        exact ⟨_, _, rfl, rfl, trivial⟩
    · rw [if_pos hpath, signBegin, if_pos hp1, beginPath_of_not_hasPath hpath]
      exact ⟨_, _, rfl, rfl, trivial⟩
  · rw [if_neg hp1]
    by_cases hmore : G.p1 = P1_MORE
    · rw [signBegin_more hmore]
      by_cases hp2 : G.p2 = 0
      · rw [if_pos ⟨hmore, hp2⟩]
        cases signing with
        | idle => trivial
        | stream => trivial
        | transaction path bytes =>
          obtain ⟨hsession, rfl⟩ := h
          have hbegin := signBegin_more hmore d
          exact signRest_meets (w := ⟨d, OFFSET_CDATA, G.lc.toUInt16⟩) hsession settings hp2
            (signBegin_payload hbegin) fun tx hprocess => by
              rw [← signBegin_payload hbegin] at hprocess
              exact Device.found_of_finished hbegin (hsession.signInitialized hp2) hprocess
      · rw [if_neg fun hboth => hp2 hboth.2]
        show (signRest platform settings G ⟨d, OFFSET_CDATA, G.lc.toUInt16⟩).Meets platform _
        rw [signRest_of_p2 hp2]
        exact refused_meets h (by decide)
    · have hrefused : signBegin G d = .inl (.throw [] HW_INCORRECT_P1_P2 d) := by
        rw [signBegin, if_neg hp1, if_pos hmore]
      rw [hrefused, if_neg fun hboth => hmore hboth.1]
      exact refused_meets h (by decide)

/-- Streams of both kinds are handled alike. -/
theorem Kind.handled (kind : Kind) : kind.stream.Handled := by
  cases kind with
  | message => exact messageStream_handled
  | certificate => exact certificateStream_handled

/-- The first byte is tested where there is one, or where any will do. -/
theorem Kind.opened_eq {kind : Kind} {first : List UInt8} {b : UInt8}
    (hne : kind = .certificate → first ≠ []) (hb : ∀ x ∈ first.head?, x = b) :
    kind.stream.opened b = kind.opens first := by
  cases kind with
  | message => rfl
  | certificate =>
    obtain ⟨x, xs, rfl⟩ := List.exists_cons_of_ne_nil (hne rfl)
    rw [← hb x rfl]
    simp [stream, certificateStream, opens]

/-- So is the last one. -/
theorem Kind.closed_eq {kind : Kind} {bytes : List UInt8} {b : UInt8}
    (hne : kind = .certificate → bytes ≠ []) (hb : ∀ x ∈ bytes.getLast?, x = b) :
    kind.stream.closed b = kind.closes bytes := by
  cases kind with
  | message => rfl
  | certificate =>
    have hlast := List.getLast?_eq_some_getLast (hne rfl)
    rw [← hb _ hlast]
    simp [stream, certificateStream, closes, hlast]

/-- The review of a stream. -/
theorem Kind.outcome_review (kind : Kind) (d : Device) :
    (Answer.review kind.stream.flow).outcome d =
      .review ⟨kind.stream.flow, [d.fullAddress.bytes], d.tmpCtx.path, d.tmpCtx.hash⟩ := by
  cases kind <;> rfl

/-- A chunk that is too long for its stream is refused. -/
theorem Hashed.of_tooLong {k : Stream} {w : Work} {ending : Ending}
    (h : Hashed platform k G w ending) (hp2 : G.p2 = 0)
    (hbound : w.workBuffer + w.dataLength.toNat ≤ 260)
    (hlong : w.device.tmpCtx.remainingLength.toNat < w.dataLength.toNat) :
    ending = .throw [] HW_NOT_ENOUGH_MEMORY_SPACE w.device := by
  have hdata : w.dataLength.toUInt32.toNat = w.dataLength.toNat := w.dataLength.toNat_toUInt32
  cases h with
  | wrongP2 hne => exact absurd hp2 hne
  | tooLong => rfl
  | outOfBounds _ hout => omega
  | notClosed _ hlast =>
    rw [← hlast, hdata] at hlong
    exact absurd hlong (lt_irrefl _)
  | complete _ hlast =>
    rw [← hlast, hdata] at hlong
    exact absurd hlong (lt_irrefl _)
  | incomplete _ hmore =>
    rw [UInt32.lt_iff_toNat_lt, hdata] at hmore
    omega

/-- **A stream in hand**: a chunk that fits is hashed, and the stream is shown when it is
complete. -/
theorem Hashed.meets {kind : Kind} {w : Work} {ending : Ending}
    (h : Hashed platform kind.stream G w ending) (hp2 : G.p2 = 0)
    (hbound : w.workBuffer + w.dataLength.toNat ≤ 260) {path : List UInt32} {length : UInt32}
    {delivered chunk : List UInt8}
    (hstreams : w.device.Streams path (kind.stream.flow.signedPrefix length) length.toNat delivered)
    (hchunk : G.bytes w.workBuffer w.dataLength.toNat = chunk)
    (hfits : (delivered ++ chunk).length ≤ length.toNat)
    (hne : kind = .certificate → (delivered ++ chunk).length = length.toNat → chunk ≠ []) :
    ending.Meets platform (streamResponse platform kind path length (delivered ++ chunk)) := by
  have hremaining := hstreams.remaining
  have hlength : (delivered ++ chunk).length = delivered.length + w.dataLength.toNat := by
    rw [List.length_append, ← hchunk, G.bytes_length hbound]
  have hdata : w.dataLength.toUInt32.toNat = w.dataLength.toNat := w.dataLength.toNat_toUInt32
  have hcomplete (hlast : w.dataLength.toUInt32 = w.device.tmpCtx.remainingLength) :
      (delivered ++ chunk).length = length.toNat := by
    rw [← UInt32.toNat_inj, hdata] at hlast
    omega
  have hclosed (hlast : (delivered ++ chunk).length = length.toNat) :
      kind.stream.closed (w.lastByte G) = kind.closes (delivered ++ chunk) := by
    cases kind with
    | message => rfl
    | certificate =>
      have hnil := hne rfl hlast
      apply Kind.closed_eq fun _ hall => hnil (List.append_eq_nil_iff.mp hall).2
      intro x hx
      rw [List.getLast?_append_of_ne_nil _ hnil] at hx
      have hlastByte := Work.lastByte_eq hbound hchunk
      rwa [Option.mem_def.mp hx, Option.getD_some] at hlastByte
  rw [streamResponse]
  cases h with
  | wrongP2 hnot => exact absurd hp2 hnot
  | tooLong _ hlong =>
    rw [UInt32.lt_iff_toNat_lt, hdata] at hlong
    omega
  | outOfBounds _ hout => omega
  | notClosed _ hlast _ hnot =>
    rw [if_neg (hcomplete hlast).not_lt, ← hclosed (hcomplete hlast), hnot, if_neg (by decide)]
    exact ⟨_, _, rfl, rfl, trivial⟩
  | complete _ hlast _ hends =>
    obtain ⟨hpath, hblake2b, -⟩ := hstreams.hash hbound hchunk (UInt32.le_of_eq hlast)
    rw [if_neg (hcomplete hlast).not_lt, ← hclosed (hcomplete hlast), hends, if_pos rfl]
    refine ⟨_, _, rfl, ?_, trivial⟩
    rw [kind.outcome_review, streamReview, ← hblake2b, ← hpath]
    rfl
  | incomplete _ hmore =>
    have hless : (delivered ++ chunk).length < length.toNat := by
      rw [UInt32.lt_iff_toNat_lt, hdata] at hmore
      omega
    rw [if_pos hless]
    exact ⟨_, _, rfl, rfl, hstreams.hash hbound hchunk (UInt32.le_of_lt hmore), hless⟩

/-- What is left of the data of a beginning that is whole. -/
theorem readLength_firstPart {w : Work} (hread : beginPath G d = .inr w)
    (hwhole : 1 + 4 * G.pathLength + 4 ≤ G.lc.toNat) :
    (w.readLength G).workBuffer + (w.readLength G).dataLength.toNat ≤ 260 ∧
      G.bytes (w.readLength G).workBuffer (w.readLength G).dataLength.toNat = G.firstPart ∧
      (w.readLength G).dataLength.toNat = G.firstPart.length := by
  have hlc := G.lc.toNat_lt
  have hdata := readLength_dataLength hread hwhole
  have hbuffer : (w.readLength G).workBuffer = G.behindPath + 4 :=
    congrArg (· + 4) (beginPath_inr hread).2.1
  have hbehind : G.behindPath = 5 + 1 + 4 * G.pathLength := rfl
  have hbound : (w.readLength G).workBuffer + (w.readLength G).dataLength.toNat ≤ 260 := by omega
  have hchunk : G.bytes (w.readLength G).workBuffer (w.readLength G).dataLength.toNat =
      G.firstPart := by
    rw [hbuffer, hdata]
    rfl
  exact ⟨hbound, hchunk, by rw [← hchunk, G.bytes_length hbound]⟩

/-- The first byte of the stream is the one behind the declared length. -/
theorem ApduBuffer.BeginsStream.opens {kind : Kind} (h : G.BeginsStream kind) :
    kind.stream.opened (G.byte (G.behindPath + 4)) = kind.opens G.firstPart := by
  have hlc := G.lc.toNat_lt
  have hbehind : G.behindPath = 5 + 1 + 4 * G.pathLength := rfl
  apply Kind.opened_eq h.2
  intro x hx
  obtain hzero | hpos := Nat.eq_zero_or_pos (G.lc.toNat - (1 + 4 * G.pathLength + 4))
  · rw [firstPart, hzero, bytes, List.take_zero] at hx
    cases hx
  · rw [firstPart, G.bytes_head? hpos (by omega)] at hx
    exact (Option.some.inj hx).symm

/-- A beginning without a path is refused. -/
theorem StreamEnds.of_not_hasPath {k : Stream} {ending : Ending}
    (h : StreamEnds platform k G d ending) (hp1 : G.p1 = P1_FIRST) (hpath : ¬G.HasPath) :
    ∃ d', ending = .throw [] HW_INCORRECT_DATA d' := by
  cases h with
  | notBegun hbegun =>
    cases hbegun with
    | noPath => exact ⟨_, rfl⟩
    | notOpened _ hread => exact absurd (beginPath_inr hread).1 hpath
    | diverges _ hread => exact absurd (beginPath_inr hread).1 hpath
    | wrongP1 hne => exact absurd hp1 hne
  | begun hbegun =>
    cases hbegun with
    | first _ hread => exact absurd (beginPath_inr hread).1 hpath
    | more hmore => exact absurd (hp1.symm.trans hmore) (by decide)

/-- **A beginning with a path**: what does not open the stream is refused, and anything else is
hashed behind its prefix. -/
theorem StreamEnds.begins {kind : Kind} {ending : Ending}
    (h : StreamEnds platform kind.stream G d ending) (hp1 : G.p1 = P1_FIRST) (hpath : G.HasPath)
    (hbegins : G.BeginsStream kind) :
    if kind.opens G.firstPart then
      ∃ w, beginPath G d = .inr w ∧ Hashed platform kind.stream G { w.readLength G with
        device := (w.readLength G).device.setBlake2b
          (kind.stream.flow.signedPrefix G.declaredLength) } ending
    else ∃ d', ending = .throw [] HW_INCORRECT_DATA d' := by
  cases h with
  | notBegun hbegun =>
    cases hbegun with
    | noPath _ hnone => exact absurd hpath hnone
    | notOpened _ hread hnot =>
      rw [(beginPath_inr hread).2.1, hbegins.opens] at hnot
      rw [hnot, if_neg Bool.false_ne_true]
      exact ⟨_, rfl⟩
    | diverges _ _ hnone =>
      rw [kind.handled.start] at hnone
      cases hnone
    | wrongP1 hne => exact absurd hp1 hne
  | begun hbegun hhashed =>
    cases hbegun with
    | more hmore => exact absurd (hp1.symm.trans hmore) (by decide)
    | first _ hread hopened hstart =>
      rw [(beginPath_inr hread).2.1, hbegins.opens] at hopened
      rw [(beginPath_inr hread).2.1, kind.handled.start, Option.some.injEq] at hstart
      subst hstart
      rw [hopened, if_pos rfl]
      exact ⟨_, hread, hhashed⟩

/-- **A stream that begins**, whatever was in hand. -/
theorem StreamEnds.begins_meets {kind : Kind} {ending : Ending}
    (h : StreamEnds platform kind.stream G d ending) (hp1 : G.p1 = P1_FIRST) (hpath : G.HasPath)
    (hp2 : G.p2 = 0) (hbegins : G.BeginsStream kind) (hopens : kind.opens G.firstPart = true)
    (found : Bool) (settings : Settings) :
    ending.Meets platform (signing.respond platform found settings
      (.beginStream kind G.path G.declaredLength G.firstPart)) := by
  have hcases := h.begins hp1 hpath hbegins
  rw [hopens, if_pos rfl] at hcases
  obtain ⟨w, hread, hhashed⟩ := hcases
  obtain ⟨-, hwork, -, hstored, -⟩ := beginPath_inr hread
  obtain ⟨hbound, hchunk, hcount⟩ := readLength_firstPart hread hbegins.1
  have hlength : G.word w.workBuffer = G.declaredLength := by
    rw [hwork]
    rfl
  rw [Signing.respond]
  by_cases hlong : G.declaredLength.toNat < G.firstPart.length
  · rw [if_pos hlong, hhashed.of_tooLong hp2 hbound]
    · exact ⟨_, _, rfl, rfl, trivial⟩
    · show (G.word w.workBuffer).toNat < (w.readLength G).dataLength.toNat
      rwa [hlength, hcount]
  · rw [if_neg hlong]
    have hstreams : ((w.readLength G).device.setBlake2b
        (kind.stream.flow.signedPrefix G.declaredLength)).Streams G.path
          (kind.stream.flow.signedPrefix G.declaredLength) G.declaredLength.toNat [] := by
      refine ⟨hstored, (List.append_nil _).symm, ?_⟩
      show 0 + (G.word w.workBuffer).toNat = _
      rw [hlength, Nat.zero_add]
    exact hhashed.meets hp2 hbound hstreams hchunk (not_lt.mp hlong) fun hkind _ => hbegins.2 hkind

/-- **A stream that goes on**, if it is in hand. -/
theorem StreamEnds.more_meets {kind : Kind} {ending : Ending}
    (h : StreamEnds platform kind.stream G d ending) (hp1 : G.p1 = P1_MORE) (hp2 : G.p2 = 0)
    (hholds : d.Holds platform signing) (found : Bool) (settings : Settings) :
    ending.Meets platform (signing.respond platform found settings
      (.moreStream kind (G.bytes OFFSET_CDATA G.lc.toNat))) := by
  have hhashed := h.more hp1
  have hlc := G.lc.toNat_lt
  have hdata : G.lc.toUInt16.toNat = G.lc.toNat := UInt8.toNat_toUInt16 G.lc
  have hbound : OFFSET_CDATA + G.lc.toUInt16.toNat ≤ 260 := by
    rw [hdata, OFFSET_CDATA]
    omega
  have hcount : (G.bytes OFFSET_CDATA G.lc.toNat).length = G.lc.toNat :=
    G.bytes_length (hdata ▸ hbound)
  cases signing with
  | idle => trivial
  | transaction => trivial
  | stream kind' path length delivered =>
    rw [Signing.respond]
    by_cases hkind : kind = kind'
    · subst hkind
      have hwiped := hholds.wipe
      obtain ⟨hstreams, hless⟩ := hholds
      have hremaining := hstreams.remaining
      rw [if_pos rfl]
      by_cases hlong : length.toNat < (delivered ++ G.bytes OFFSET_CDATA G.lc.toNat).length
      · rw [if_pos hlong, hhashed.of_tooLong hp2 hbound]
        · exact ⟨_, _, rfl, rfl, hwiped⟩
        · rw [List.length_append, hcount] at hlong
          show d.tmpCtx.remainingLength.toNat < G.lc.toUInt16.toNat
          omega
      · rw [if_neg hlong]
        apply hhashed.meets hp2 hbound hstreams (by rw [hdata]) (not_lt.mp hlong)
        intro _ hcomplete hnil
        rw [hnil, List.append_nil] at hcomplete
        omega
    · rw [if_neg hkind]
      trivial

/-- A `P2` other than zero is refused. -/
theorem Hashed.of_p2 {k : Stream} {w : Work} {ending : Ending} (h : Hashed platform k G w ending)
    (hp2 : G.p2 ≠ 0) : ending = .throw [] HW_INCORRECT_P1_P2 w.device := by
  cases h with
  | wrongP2 => rfl
  | tooLong hzero => exact absurd hzero hp2
  | outOfBounds hzero => exact absurd hzero hp2
  | notClosed hzero => exact absurd hzero hp2
  | complete hzero => exact absurd hzero hp2
  | incomplete hzero => exact absurd hzero hp2

/-- A stream with other parameters. -/
theorem StreamEnds.refused {k : Stream} {ending : Ending} (h : StreamEnds platform k G d ending)
    (hfirst : G.p1 ≠ P1_FIRST) (hmore : ¬(G.p1 = P1_MORE ∧ G.p2 = 0)) :
    ending = .throw [] HW_INCORRECT_P1_P2 d := by
  cases h with
  | notBegun hbegun =>
    cases hbegun with
    | wrongP1 => rfl
    | noPath hp1 => exact absurd hp1 hfirst
    | notOpened hp1 => exact absurd hp1 hfirst
    | diverges hp1 => exact absurd hp1 hfirst
  | begun hbegun hhashed =>
    cases hbegun with
    | first hp1 => exact absurd hp1 hfirst
    | more hp1 => exact hhashed.of_p2 fun hp2 => hmore ⟨hp1, hp2⟩

/-- **Signing a message or a certificate** does what is said. -/
theorem StreamEnds.meets {kind : Kind} {ending : Ending}
    (h : StreamEnds platform kind.stream G d ending) (hholds : d.Holds platform signing)
    (found : Bool) (settings : Settings) :
    ending.Meets platform
      (signing.respond platform found settings (G.streamRequest kind)) := by
  rw [ApduBuffer.streamRequest]
  by_cases hp1 : G.p1 = P1_FIRST
  · rw [if_pos hp1]
    by_cases hpath : G.HasPath
    · rw [if_neg (not_not.mpr hpath)]
      by_cases hbegins : G.BeginsStream kind
      · have hcases := h.begins hp1 hpath hbegins
        rw [if_neg (not_not.mpr hbegins)]
        by_cases hopens : kind.opens G.firstPart = true
        · rw [if_neg (not_not.mpr hopens)]
          by_cases hp2 : G.p2 = 0
          · rw [if_neg (not_not.mpr hp2)]
            exact h.begins_meets hp1 hpath hp2 hbegins hopens found settings
          · rw [if_pos hopens] at hcases
            obtain ⟨w, -, hhashed⟩ := hcases
            rw [if_pos hp2, hhashed.of_p2 hp2]
            exact ⟨_, _, rfl, rfl, trivial⟩
        · rw [if_neg hopens] at hcases
          obtain ⟨d', rfl⟩ := hcases
          rw [if_pos hopens]
          exact ⟨_, _, rfl, rfl, trivial⟩
      · rw [if_pos hbegins]
        trivial
    · obtain ⟨d', rfl⟩ := h.of_not_hasPath hp1 hpath
      rw [if_pos hpath]
      exact ⟨_, _, rfl, rfl, trivial⟩
  · rw [if_neg hp1]
    by_cases hmore : G.p1 = P1_MORE ∧ G.p2 = 0
    · rw [if_pos hmore]
      exact h.more_meets hmore.1 hmore.2 hholds found settings
    · rw [if_neg hmore, h.refused hp1 hmore]
      exact refused_meets hholds (by decide)

/-- **Sending a key** does what is said. -/
theorem handleGetPublicKey_meets (hins : G.ins = INS_GET_PUBLIC_KEY)
    (hholds : d.Holds platform signing) (found : Bool) (settings : Settings) :
    (handleGetPublicKey platform G d).Meets platform
      (signing.respond platform found settings G.keyRequest) := by
  rw [ApduBuffer.keyRequest]
  by_cases hparameters : (G.p1 = P1_CONFIRM ∨ G.p1 = P1_NON_CONFIRM) ∧
      (G.p2 = P2_CHAINCODE ∨ G.p2 = P2_NO_CHAINCODE)
  · obtain ⟨hp1, hp2⟩ := hparameters
    rw [if_pos ⟨hp1, hp2⟩]
    by_cases hpath : G.HasPath
    · rw [if_pos hpath, handleGetPublicKey_of_derives ⟨hins, hp1, hp2, hpath⟩, Signing.respond]
      cases hderive : platform.derive G.path (G.p2 = P2_CHAINCODE) with
      | none => trivial
      | some key =>
        have hsent : (G.derived platform d).sent = key := sent_of_derive hderive _
        rw [setResultGetPublicKey_eq, hsent]
        cases hp1 with
        | inl hconfirm =>
          rw [if_neg (by rw [hconfirm]; decide), decide_eq_true hconfirm]
          refine ⟨_, _, rfl, ?_, trivial⟩
          rw [← hsent]
          rfl
        | inr hconfirm =>
          rw [if_pos hconfirm, decide_eq_false (by rw [hconfirm]; decide)]
          exact ⟨_, _, rfl, rfl, trivial⟩
    · rw [if_neg hpath, handleGetPublicKey, if_neg (by tauto), if_neg (by tauto),
        parseBip32Path_of_not_complete fun hcomplete => hpath (G.hasPath_iff.mpr hcomplete)]
      exact refused_meets hholds (by decide)
  · have hrefused : handleGetPublicKey platform G d = .throw [] HW_INCORRECT_P1_P2 d := by
      rw [handleGetPublicKey]
      by_cases hp1 : G.p1 ≠ P1_CONFIRM ∧ G.p1 ≠ P1_NON_CONFIRM
      · rw [if_pos hp1]
      · rw [if_neg hp1, if_pos (by tauto)]
    rw [if_neg hparameters, hrefused]
    exact refused_meets hholds (by decide)

/-- **Every handler does what is said of its command.** -/
theorem dispatch_meets (c : Command) (h : d.Holds platform signing) :
    (dispatch platform c.settings c.G d).Meets platform
      (platform.signer.respond (d.found platform c) signing c) := by
  show (dispatch platform c.settings c.G d).Meets platform
    (signing.respond platform (d.found platform c) c.settings c.request)
  rw [Command.request]
  by_cases hcla : c.G.cla = CLA
  · have hends (kind : Kind) (hins : c.G.ins = kind.stream.flow.instruction) :=
      (kind.handled.ends platform c.settings c.G d hcla hins).meets h
        (d.found platform c) c.settings
    rw [if_neg (not_not.mpr hcla)]
    split_ifs with hkey hsign hconfiguration hmessage hcertificate
    · rw [dispatch, if_neg (not_not.mpr hcla), if_pos hkey]
      exact handleGetPublicKey_meets hkey h _ _
    · rw [dispatch_sign platform c.settings hcla hsign]
      exact handleSign_meets c h
    · rw [dispatch, if_neg (not_not.mpr hcla), if_neg hkey, if_neg hsign, if_pos hconfiguration]
      exact ⟨_, _, rfl, rfl, h⟩
    · exact hends .message hmessage
    · exact hends .certificate hcertificate
    · rw [dispatch, if_neg (not_not.mpr hcla), if_neg hkey, if_neg hsign, if_neg hconfiguration,
        if_neg hmessage, if_neg hcertificate]
      exact refused_meets h (by decide)
  · rw [if_pos hcla, dispatch, if_pos hcla]
    exact refused_meets h (by decide)

/-- What is observed of an error does not depend on what is wiped. -/
theorem Answer.outcome_wipe (a : Answer) (d : Device) :
    a.outcome (if a.isError then d.wipe else d) = a.outcome d := by
  cases a with
  | status => rfl
  | review => rfl

/-- **The device refines the signer.** -/
def Platform.refinement (platform : Platform) : Refinement platform.device platform.signer where
  choice d c := d.found platform c
  observe := observed
  related := Device.Holds platform
  start := trivial
  anew _ _ := trivial
  step {d} {signing} c h := by
    have hmeets := dispatch_meets c h
    have heq : platform.device.step c d = _ := handleApdu_eq platform c.settings c.G d
    cases hrespond : platform.signer.respond (d.found platform c) signing c with
    | unspecified => trivial
    | silent =>
      rw [hrespond] at hmeets
      rw [System.Meets, heq, show (dispatch platform c.settings c.G d).answer? = none from hmeets]
      rfl
    | answer o signing' =>
      rw [hrespond] at hmeets
      obtain ⟨a, d', ha, ho, hholds⟩ := hmeets
      rw [ha] at heq
      exact ⟨a, _, heq, (a.outcome_wipe d').trans ho, hholds⟩

/-- **The device conforms to the signer**: in every run, whatever commands came in whatever order,
its answers are those that the signer gives wherever something is said of it, and it gives the
next one as well. -/
theorem device_conforms (platform : Platform) {steps : List (Step Command Answer Device)}
    {d : Device} (h : Run platform.device steps d) : ∃ signing,
      platform.signer.Trace (steps.map fun step => (step.event, observed step)) signing ∧
        ∀ c, platform.device.Meets observed (Device.Holds platform) d c
          (platform.signer.respond (d.found platform c) signing c) := by
  obtain ⟨signing, htrace, hholds⟩ := platform.refinement.trace h
  exact ⟨signing, htrace, fun c => platform.refinement.step c hholds⟩

theorem device_conforms_splitStream : ∃ steps d signing,
    Run (Platform.recorded []).device steps d ∧
      steps.map Step.event = [(splitStream INS_SIGN_PERSONAL_MESSAGE).2,
        (splitStream INS_SIGN_PERSONAL_MESSAGE).1] ∧
      (Platform.recorded []).signer.Trace
        (steps.map fun step => (step.event, observed step)) signing ∧
      ∀ c, (Platform.recorded []).device.Meets observed (Device.Holds (.recorded [])) d c
        ((Platform.recorded []).signer.respond (d.found (.recorded []) c) signing c) := by
  obtain ⟨steps, d, hreplay, -⟩ : SignsWhole (.recorded []) _ _ _ _ .boot :=
    messageStream_handled.signsWhole (splitStream_brings (.inl rfl)) (fun _ => rfl)
      (fun _ => rfl) .boot
  have hrun := Run.boot.replay (m := (Platform.recorded []).device) hreplay
  obtain ⟨signing, htrace, hmeets⟩ := device_conforms (.recorded []) hrun
  exact ⟨steps, d, signing, hrun, System.replay_events hreplay, htrace, hmeets⟩

end AppVechain
