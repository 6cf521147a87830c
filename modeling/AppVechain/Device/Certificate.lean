import AppVechain.Device.Abort

/-!
# The delimiters of certificates

What is hashed for a certificate has to begin and to end with a brace. The tests
look at the buffer, where there may be nothing of the certificate.
-/

namespace AppVechain

open Reactive

/-- The bytes of the stream that come with its beginning, behind the path and the length. -/
def ApduBuffer.firstPart (G : ApduBuffer) : List UInt8 :=
  G.bytes (G.behindPath + 4) (G.lc.toNat - (1 + 4 * G.pathLength + 4))

/-- The beginning of a certificate that passes the tests of the path and of the brace. -/
def ApduBuffer.OpensCertificate (G : ApduBuffer) : Prop :=
  G.cla = CLA ∧ G.ins = INS_SIGN_CERTIFICATE ∧ G.p1 = P1_FIRST ∧ G.HasPath ∧
    G.byte (G.behindPath + 4) = 123

instance (G : ApduBuffer) : Decidable G.OpensCertificate := by
  unfold ApduBuffer.OpensCertificate
  infer_instance

/-- The beginning brings a part of the certificate, at most as much as it declares. -/
structure ApduBuffer.CarriesCertificate (G : ApduBuffer) : Prop where
  p2 : G.p2 = 0
  some : 1 + 4 * G.pathLength + 4 < G.lc.toNat
  declared : G.lc.toNat - (1 + 4 * G.pathLength + 4) ≤ (G.word G.behindPath).toNat

/-- The hash after the second part goes on with the hash before it. -/
theorem Hashed.blake2b {platform : Platform} {k : Stream} {G : ApduBuffer} {w : Work}
    {ending : Ending} (h : Hashed platform k G w ending) {a : Answer} {d' : Device}
    (ha : ending.answer? = some (a, d')) : w.device.blake2b <+: d'.blake2b := by
  cases h <;> cases ha
  case wrongP2 => exact List.prefix_rfl
  case tooLong => exact List.prefix_rfl
  all_goals exact List.prefix_append _ _

/-- A list that begins with a byte goes on to do so. -/
theorem head?_of_prefix {xs ys : List UInt8} {b : UInt8} (h : xs.head? = some b) (hxs : xs <+: ys) :
    ys.head? = some b := by
  obtain ⟨zs, rfl⟩ := hxs
  rw [List.head?_append, h, Option.some_or]

/-- A beginning that passes the tests starts a new hash. -/
theorem Begun.opened {k : Stream} {G : ApduBuffer} {d : Device} {r : Ending ⊕ Work}
    (h : Begun k G d r) (hp1 : G.p1 = P1_FIRST) (hG : G.HasPath)
    (hopened : k.opened (G.byte (G.behindPath + 4)) = true) {text : List UInt8}
    (htext : k.start (G.word G.behindPath) = some text) :
    ∃ w, beginPath G d = .inr w ∧ r = .inr { w.readLength G with
      device := (w.readLength G).device.setBlake2b text } := by
  cases h with
  | noPath _ hnone => exact absurd hG hnone
  | notOpened _ hpath hnot =>
    rw [(beginPath_inr hpath).2.1, hopened] at hnot
    cases hnot
  | diverges _ hpath hnone =>
    rw [(beginPath_inr hpath).2.1, htext] at hnone
    cases hnone
  | first _ hpath _ hsome =>
    rw [(beginPath_inr hpath).2.1, htext, Option.some.injEq] at hsome
    subst hsome
    exact ⟨_, hpath, rfl⟩
  | wrongP1 hne => exact absurd hp1 hne
  | more hmore =>
    rw [hp1] at hmore
    cases hmore

/-- The data of a command that are hashed, in the second part. -/
theorem Hashed.blake2b_eq {platform : Platform} {k : Stream} {G : ApduBuffer} {w : Work}
    {ending : Ending} (h : Hashed platform k G w ending) (hp2 : G.p2 = 0)
    (hfits : w.dataLength.toUInt32 ≤ w.device.tmpCtx.remainingLength) {a : Answer} {d' : Device}
    (ha : ending.answer? = some (a, d')) :
    d'.blake2b = w.device.blake2b ++ G.bytes w.workBuffer w.dataLength.toNat := by
  cases h with
  | wrongP2 hne => exact absurd hp2 hne
  | tooLong _ hlong => exact absurd hlong (UInt32.not_lt.mpr hfits)
  | outOfBounds => cases ha
  | notClosed => cases ha; rfl
  | complete => cases ha; rfl
  | incomplete => cases ha; rfl

/-- A certificate that brings a part with its beginning is hashed from its brace on. -/
theorem blake2b_of_opens {platform : Platform} {G : ApduBuffer} {d d' : Device} {a : Answer}
    (hopens : G.OpensCertificate) (hcarries : G.CarriesCertificate)
    (h : (handleSignCertificate platform G d).answer? = some (a, d')) :
    d'.blake2b.head? = some 123 := by
  obtain ⟨-, -, hp1, hG, hbrace⟩ := hopens
  have hlc := G.lc.toNat_lt
  have hends := handleSignCertificate_ends platform G d
  generalize handleSignCertificate platform G d = ending at hends h
  have hopened (r : Ending ⊕ Work) (hr : Begun certificateStream G d r) :=
    hr.opened hp1 hG (beq_iff_eq.mpr hbrace) rfl
  cases hends with
  | notBegun hbegun =>
    obtain ⟨w, -, hw⟩ := hopened _ hbegun
    cases hw
  | begun hbegun hhashed =>
    obtain ⟨w, hpath, hw⟩ := hopened _ hbegun
    cases hw
    have hwork : (w.readLength G).workBuffer = G.behindPath + 4 := by
      show w.workBuffer + 4 = _
      rw [(beginPath_inr hpath).2.1]
    have hdata := readLength_dataLength hpath hcarries.some.le
    have hremaining : (w.readLength G).device.tmpCtx.remainingLength = G.word G.behindPath := by
      show G.word w.workBuffer = _
      rw [(beginPath_inr hpath).2.1]
    have hfits : (w.readLength G).dataLength.toUInt32 ≤
        (w.readLength G).device.tmpCtx.remainingLength := by
      rw [hremaining, UInt32.le_iff_toNat_le, UInt16.toNat_toUInt32, hdata]
      exact hcarries.declared
    rw [hhashed.blake2b_eq hcarries.p2 hfits h]
    have hpos := hcarries.some
    show (G.bytes (w.readLength G).workBuffer (w.readLength G).dataLength.toNat).head? = _
    have hbehind : G.behindPath = 5 + 1 + 4 * G.pathLength := rfl
    rw [hwork, G.bytes_head? (by omega) (by omega), hbrace]

/-- Other certificate commands go on with the hash. -/
theorem blake2b_of_not_opens {platform : Platform} {G : ApduBuffer} {d d' : Device} {a : Answer}
    (hcla : G.cla = CLA) (hins : G.ins = INS_SIGN_CERTIFICATE) (hopens : ¬G.OpensCertificate)
    (h : (handleSignCertificate platform G d).answer? = some (a, d')) :
    d.blake2b <+: d'.blake2b := by
  have hends := handleSignCertificate_ends platform G d
  generalize handleSignCertificate platform G d = ending at hends h
  cases hends with
  | notBegun hbegun =>
    cases hbegun with
    | noPath => cases h; exact List.prefix_rfl
    | @notOpened w hp1 hpath hopened =>
      have hdevice := (beginPath_inr hpath).2.2.2.2
      cases h
      show d.blake2b <+: w.device.blake2b
      rw [hdevice]
      exact List.prefix_rfl
    | diverges => cases h
    | wrongP1 => cases h; exact List.prefix_rfl
  | begun hbegun hhashed =>
    cases hbegun with
    | first hp1 hpath hopened htext =>
      obtain ⟨hG, hwork, -⟩ := beginPath_inr hpath
      rw [hwork] at hopened
      exact absurd ⟨hcla, hins, hp1, hG, beq_iff_eq.mp hopened⟩ hopens
    | more hp1 => exact hhashed.blake2b h

/-- The low byte of a word that is zero. -/
theorem byte_of_word_eq_zero {G : ApduBuffer} {i : ℕ} (h : G.word i = 0) : G.byte (i + 3) = 0 := by
  rw [ApduBuffer.word, UInt32.or_eq_zero_iff] at h
  rw [← UInt8.toNat_inj, ← UInt8.toNat_toUInt32, h.2]
  rfl

/-- Without data nothing looks like the end of a certificate. -/
theorem dataLength_pos_of_closed {G : ApduBuffer} {d : Device} {w : Work}
    (hbegun : Begun certificateStream G d (.inr w))
    (hlast : w.dataLength.toUInt32 = w.device.tmpCtx.remainingLength)
    (hclosed : certificateStream.closed (w.lastByte G) = true) : 0 < w.dataLength.toNat := by
  rw [Nat.pos_iff_ne_zero]
  intro hzero
  have hbyte : w.lastByte G = 125 := beq_iff_eq.mp hclosed
  rw [Work.lastByte, hzero, Nat.add_zero] at hbyte
  cases hbegun with
  | @first w text hp1 hpath hopened htext =>
    have hword : G.word w.workBuffer = 0 := by
      rw [← UInt32.toNat_inj]
      have hnat := congrArg UInt32.toNat hlast
      rw [UInt16.toNat_toUInt32] at hnat
      exact hnat.symm.trans hzero
    have hlow : G.byte (w.workBuffer + 4 - 1) = 0 := byte_of_word_eq_zero hword
    rw [show G.byte (w.workBuffer + 4 - 1) = 125 from hbyte] at hlow
    cases hlow
  | more hp1 =>
    have hlc : G.lc = 0 := by
      rw [← UInt8.toNat_inj]
      have hnat : G.lc.toUInt16.toNat = 0 := hzero
      rwa [UInt8.toNat_toUInt16] at hnat
    rw [show G.byte (OFFSET_CDATA - 1) = 0 from hlc] at hbyte
    cases hbyte

/-- The last byte of a certificate that is shown was hashed, and is a brace. -/
theorem blake2b_of_shown {platform : Platform} {G : ApduBuffer} {d d' : Device}
    (h : (handleSignCertificate platform G d).answer? = some (.review .certificate, d')) :
    d'.blake2b.getLast? = some 125 ∧ d'.tmpCtx.hash = platform.blake2b256 d'.blake2b := by
  have hends := handleSignCertificate_ends platform G d
  generalize handleSignCertificate platform G d = ending at hends h
  cases hends with
  | notBegun hbegun => cases hbegun <;> cases h
  | begun hbegun hhashed =>
    cases hhashed <;> cases h
    rename_i w hp2 hlast hbound hclosed
    have hpos := dataLength_pos_of_closed hbegun hlast hclosed
    refine ⟨?_, rfl⟩
    show (w.device.blake2b ++ G.bytes w.workBuffer w.dataLength.toNat).getLast? = _
    rw [List.getLast?_append, G.bytes_getLast? hpos hbound, Option.some_or]
    exact congrArg some (beq_iff_eq.mp hclosed)

/-- A step that opens a certificate. -/
def opensCertificate (step : Step Command Answer Device) : Bool :=
  decide step.event.G.OpensCertificate

/-- The step is taken by the handler of certificates. -/
def Command.IsCertificate (c : Command) : Prop := c.G.cla = CLA ∧ c.G.ins = INS_SIGN_CERTIFICATE

/-- What a certificate command answers comes from its handler. -/
theorem certificate_answer {platform : Platform} {c : Command} {d d' : Device} {a : Answer}
    (hc : c.IsCertificate) (h : platform.device.step c d = some (a, d')) :
    ∃ d₁, (handleSignCertificate platform c.G d).answer? = some (a, d₁) ∧
      d'.blake2b = d₁.blake2b ∧ d'.tmpCtx = d₁.tmpCtx := by
  obtain ⟨d₁, hanswer, hkept⟩ := handleApdu_answer h
  rw [dispatch_certificate platform c.settings hc.1 hc.2] at hanswer
  exact ⟨d₁, hanswer, hkept⟩

/-- **The delimiters of a certificate that is shown**: when the last beginning that passed
its tests brought a part of the certificate, and only certificate commands came since, what
is hashed begins and ends with a brace. -/
theorem certificate_delimited {platform : Platform} {step first : Step Command Answer Device}
    {steps : List (Step Command Answer Device)} {d : Device}
    (h : Run platform.device (step :: steps) d)
    (hfirst : (step :: steps).find? opensCertificate = some first)
    (hsince : ∀ s ∈ since opensCertificate (step :: steps), s.event.IsCertificate)
    (hcarries : first.event.G.CarriesCertificate) (hshown : step.answer = .review .certificate) :
    d.blake2b.head? = some 123 ∧ d.blake2b.getLast? = some 125 ∧
      d.tmpCtx.hash = platform.blake2b256 d.blake2b := by
  have hhead := h.find_induction (P := fun first steps d =>
    (∀ s ∈ steps, s.event.IsCertificate) → first.event.G.CarriesCertificate →
      d.blake2b.head? = some 123) ?_ ?_ hfirst hsince hcarries
  · obtain ⟨-, hstep, hafter⟩ := h.after_head
    have hmem : step ∈ since opensCertificate (step :: steps) := by
      rw [since]
      split <;> exact List.mem_cons_self
    rw [hshown] at hstep
    obtain ⟨d₁, hanswer, hblake2b, htmpCtx⟩ := certificate_answer (hsince step hmem) hstep
    rw [← hafter] at hhead ⊢
    rw [hblake2b, htmpCtx]
    rw [hblake2b] at hhead
    exact ⟨hhead, blake2b_of_shown hanswer⟩
  · intro steps s c a d' _ hstep hopens hcert hcarries
    obtain ⟨d₁, hanswer, hblake2b, -⟩ := certificate_answer (hcert _ List.mem_cons_self) hstep
    rw [hblake2b]
    exact blake2b_of_opens (of_decide_eq_true hopens) hcarries hanswer
  · intro first steps s c a d' _ hstep hopens ih hcert hcarries
    have hc : c.IsCertificate := hcert _ List.mem_cons_self
    obtain ⟨d₁, hanswer, hblake2b, -⟩ := certificate_answer hc hstep
    rw [hblake2b]
    exact head?_of_prefix (ih (fun s hs => hcert s (List.mem_cons_of_mem _ hs)) hcarries)
      (blake2b_of_not_opens hc.1 hc.2 (of_decide_eq_false hopens) hanswer)

/-- The hash of the smallest certificate. -/
def certificateDigests : List (List UInt8 × Vector UInt8 32) :=
  [([123, 125],
    #v[0xc0, 0x9d, 0xa5, 0x22, 0xda, 0xc2, 0x61, 0xc3, 0xd2, 0x56, 0x62, 0x30, 0xbe, 0xd1, 0x0d,
      0x2f, 0x3e, 0xf1, 0x3f, 0x8e, 0x76, 0x54, 0x57, 0x6c, 0x12, 0xe8, 0x57, 0xe0, 0x7f, 0x78,
      0x60, 0x98]),
  ([120, 125],
    #v[0xda, 0xdc, 0xf7, 0x68, 0x51, 0xfc, 0xe6, 0x69, 0x11, 0x29, 0xd1, 0x85, 0xb1, 0xf0, 0x22,
      0x47, 0xc6, 0xe3, 0xbb, 0xff, 0x61, 0x9b, 0xbc, 0xeb, 0xdb, 0x55, 0xa9, 0xa8, 0x74, 0xd2,
      0x1f, 0xc5])]

/-- A certificate of two bytes that comes with its beginning. -/
def wholeCertificate : Command :=
  .received [0xe0, 0x09, 0x00, 0x00, 0x0b, 0x01, 0x80, 0x00, 0x00, 0x00, 0x00, 0x00, 0x00, 0x02,
    0x7b, 0x7d]

theorem certificate_delimited_whole : ∃ (steps : List (Step Command Answer Device)) (d : Device),
    Run (Platform.recorded certificateDigests).device steps d ∧ d.blake2b.head? = some 123 ∧
      d.blake2b.getLast? = some 125 ∧
      d.tmpCtx.hash = (Platform.recorded certificateDigests).blake2b256 d.blake2b := by
  have hreplay : ((Platform.recorded certificateDigests).device.replay [wholeCertificate]
      ([], .boot)).map (fun run => run.1.map Step.answer) = some [.review .certificate] := by
    decide +kernel
  obtain ⟨steps, d, hrun, hevents, hanswers⟩ := exists_run hreplay
  obtain ⟨shown, steps, rfl, hshown, hanswers⟩ := List.map_eq_cons_iff.mp hanswers
  obtain rfl := List.map_eq_nil_iff.mp hanswers
  obtain ⟨hevent, -⟩ := List.cons_eq_cons.mp hevents
  have hopens : opensCertificate shown = true := by
    rw [opensCertificate, hevent]
    decide
  refine ⟨[shown], d, hrun, certificate_delimited hrun (List.find?_cons_of_pos hopens) ?_ ?_ hshown⟩
  · intro s hs
    rw [since_cons_of_pos hopens, List.mem_singleton] at hs
    rw [hs, hevent]
    exact ⟨rfl, rfl⟩
  · rw [hevent]
    exact ⟨rfl, by decide, by decide⟩

/-- A beginning without any byte of the certificate, with an older brace behind it in the
buffer, and two other bytes. -/
def hollowCertificate : List Command :=
  [.received [0xe0, 0x09, 0x00, 0x00, 0x09, 0x01, 0x80, 0x00, 0x00, 0x00, 0x00, 0x00, 0x00, 0x02,
    0x7b], .received [0xe0, 0x09, 0x80, 0x00, 0x02, 0x78, 0x7d]]

/-- What is shown need not begin with a brace. -/
theorem certificate_not_delimited :
    ¬∀ (platform : Platform) (step : Step Command Answer Device)
      (steps : List (Step Command Answer Device)) (d : Device),
      Run platform.device (step :: steps) d →
      (∀ s ∈ step :: steps, s.event.IsCertificate) →
      (∃ first ∈ step :: steps, opensCertificate first = true ∧ first.answer = .status [] HW_OK) →
      step.answer = .review .certificate →
      d.blake2b.head? = some 123 ∧ d.blake2b.getLast? = some 125 := by
  intro h
  have hreplay : ((Platform.recorded certificateDigests).device.replay hollowCertificate
      ([], .boot)).map (fun run => run.1.map fun step => (step.answer, step.after.blake2b)) =
      some [(.review .certificate, [120, 125]), (.status [] HW_OK, [])] := by
    decide +kernel
  obtain ⟨steps, d, hrun, hevents, hseen⟩ := exists_run hreplay
  obtain ⟨shown, steps, rfl, hshown, hseen⟩ := List.map_eq_cons_iff.mp hseen
  obtain ⟨first, steps, rfl, hfirst, hseen⟩ := List.map_eq_cons_iff.mp hseen
  obtain rfl := List.map_eq_nil_iff.mp hseen
  obtain ⟨hshownEvent, hevents⟩ := List.cons_eq_cons.mp hevents
  obtain ⟨hfirstEvent, -⟩ := List.cons_eq_cons.mp hevents
  obtain ⟨hanswer, hblake2b⟩ := Prod.mk.inj hshown
  have hhead := (h _ shown [first] d hrun ?_ ?_ hanswer).1
  · rw [← hrun.after_head.2.2, hblake2b] at hhead
    cases hhead
  · intro s hs
    rcases List.mem_cons.mp hs with rfl | hs
    · rw [hshownEvent]
      exact ⟨rfl, rfl⟩
    · rw [List.mem_singleton.mp hs, hfirstEvent]
      exact ⟨rfl, rfl⟩
  · refine ⟨first, by simp, ?_, (Prod.mk.inj hfirst).1⟩
    rw [opensCertificate, hfirstEvent]
    decide

end AppVechain
