import AppVechain.Device.Conformance
import AppVechain.Device.StaleInput

/-!
# Requests

What a command asks for is in the bytes that were received, if all of them were. A
request that begins to sign something carries the path that is signed with; one that
goes on with something, or is refused, leaves it.
-/

namespace AppVechain

open Rlp Reactive

variable {platform : Platform} {G G' : ApduBuffer} {rx : ℕ} {d d' : Device}

/-- The parts of a request that buffers have in common. -/
structure ApduBuffer.SameRequest (G G' : ApduBuffer) : Prop where
  cla : G.cla = G'.cla
  ins : G.ins = G'.ins
  p1 : G.p1 = G'.p1
  p2 : G.p2 = G'.p2
  lc : G.lc = G'.lc
  hasPath : G.HasPath ↔ G'.HasPath
  pathLength : G.HasPath → G.pathLength = G'.pathLength
  path : G.HasPath → G.path = G'.path
  bytes : ∀ offset length, OFFSET_CDATA ≤ offset → offset + length ≤ OFFSET_CDATA + G.lc.toNat →
    G.bytes offset length = G'.bytes offset length
  word : ∀ offset, OFFSET_CDATA ≤ offset → offset + 4 ≤ OFFSET_CDATA + G.lc.toNat →
    G.word offset = G'.word offset

/-- A command that was received whole. -/
theorem ApduBuffer.Agree.sameRequest (h : G.Agree rx G') (hcomplete : G.Complete rx) :
    G.SameRequest G' := by
  unfold ApduBuffer.Complete at hcomplete
  have hlc : G.lc = G'.lc := h.byte (show 4 < rx by omega)
  have hlength (hpos : 1 ≤ G.lc.toNat) : G.pathLength = G'.pathLength :=
    congrArg UInt8.toNat (h.byte (show OFFSET_CDATA < rx by unfold OFFSET_CDATA; omega))
  have hdata : OFFSET_CDATA + G.lc.toNat ≤ rx := hcomplete
  refine ⟨h.byte (show 0 < rx by omega), h.byte (show 1 < rx by omega),
    h.byte (show 2 < rx by omega), h.byte (show 3 < rx by omega), hlc, ?_, ?_, ?_, ?_, ?_⟩
  · rw [ApduBuffer.HasPath, ApduBuffer.HasPath, ← hlc]
    by_cases hpos : 1 ≤ G.lc.toNat
    · rw [hlength hpos]
    · constructor <;> rintro ⟨-, -, hle⟩ <;> omega
  · rintro ⟨-, -, hle⟩
    exact hlength (by omega)
  · rintro ⟨-, -, hle⟩
    rw [ApduBuffer.path, ApduBuffer.path, ← hlength (by omega)]
    apply List.map_congr_left
    intro i hi
    have hlt := List.mem_range.mp hi
    exact h.word (by omega)
  · intro offset length _ hle
    exact h.bytes (hle.trans hdata)
  · intro offset _ hle
    exact h.word (hle.trans hdata)

/-- What is behind a path. -/
theorem ApduBuffer.SameRequest.behindPath (h : G.SameRequest G') (hpath : G.HasPath) :
    G.behindPath = G'.behindPath := by
  rw [ApduBuffer.behindPath, ApduBuffer.behindPath, h.pathLength hpath]

/-- The request of a transaction is the one of its data. -/
theorem ApduBuffer.SameRequest.transactionRequest (h : G.SameRequest G') :
    G.transactionRequest = G'.transactionRequest := by
  have hmore : G.bytes OFFSET_CDATA G.lc.toNat = G'.bytes OFFSET_CDATA G.lc.toNat :=
    h.bytes _ _ le_rfl le_rfl
  unfold ApduBuffer.transactionRequest ApduBuffer.payload
  rw [← h.p1, ← h.p2, ← h.lc, ← hmore]
  by_cases hpath : G.HasPath
  · have hfirst : G.bytes G.behindPath (G.lc.toNat - (1 + 4 * G.pathLength)) =
        G'.bytes G.behindPath (G.lc.toNat - (1 + 4 * G.pathLength)) := by
      obtain ⟨-, -, hle⟩ := hpath
      exact h.bytes _ _ (by unfold ApduBuffer.behindPath; omega)
        (by unfold ApduBuffer.behindPath; omega)
    rw [← h.behindPath hpath, ← h.pathLength hpath, ← h.path hpath, ← hfirst,
      if_neg (not_not.mpr hpath), if_neg (not_not.mpr (h.hasPath.mp hpath))]
  · rw [if_pos hpath, if_pos (mt h.hasPath.mpr hpath)]
    split_ifs <;> rfl

/-- So is the one of a stream. -/
theorem ApduBuffer.SameRequest.streamRequest (h : G.SameRequest G') (kind : Kind) :
    G.streamRequest kind = G'.streamRequest kind := by
  have hmore : G.bytes OFFSET_CDATA G.lc.toNat = G'.bytes OFFSET_CDATA G.lc.toNat :=
    h.bytes _ _ le_rfl le_rfl
  unfold ApduBuffer.streamRequest
  rw [← h.p1, ← h.p2, ← h.lc, ← hmore]
  by_cases hpath : G.HasPath
  · rw [← h.path hpath, if_neg (not_not.mpr hpath), if_neg (not_not.mpr (h.hasPath.mp hpath))]
    by_cases hle : 1 + 4 * G.pathLength + 4 ≤ G.lc.toNat
    · have hlength : G.declaredLength = G'.declaredLength := by
        rw [ApduBuffer.declaredLength, ApduBuffer.declaredLength, ← h.behindPath hpath]
        exact h.word _ (by unfold ApduBuffer.behindPath; omega)
          (by unfold ApduBuffer.behindPath; omega)
      have hfirst : G.firstPart = G'.firstPart := by
        rw [ApduBuffer.firstPart, ApduBuffer.firstPart, ← h.behindPath hpath,
          ← h.pathLength hpath, ← h.lc]
        exact h.bytes _ _ (by unfold ApduBuffer.behindPath; omega)
          (by unfold ApduBuffer.behindPath; omega)
      have hbegins : G.BeginsStream kind ↔ G'.BeginsStream kind := by
        rw [ApduBuffer.BeginsStream, ApduBuffer.BeginsStream, ← hfirst, ← h.pathLength hpath,
          ← h.lc]
      by_cases hnot : ¬G.BeginsStream kind
      · rw [if_pos hnot, if_pos (mt hbegins.mpr hnot)]
      · rw [if_neg hnot, if_neg (fun hnot' => hnot (mt hbegins.mp hnot')), ← hlength, ← hfirst]
    · have hnot : ¬G.BeginsStream kind := fun hbegins => hle hbegins.1
      have hnot' : ¬G'.BeginsStream kind := fun hbegins => hle (by
        rw [h.pathLength hpath, h.lc]
        exact hbegins.1)
      rw [if_pos hnot, if_pos hnot']
  · rw [if_pos hpath, if_pos (mt h.hasPath.mpr hpath)]

/-- **A command that was received whole is the request of its bytes.** -/
theorem ApduBuffer.SameRequest.request (h : G.SameRequest G') (settings : Settings) :
    (⟨settings, G⟩ : Command).request = (⟨settings, G'⟩ : Command).request := by
  have hkey : G.keyRequest = G'.keyRequest := by
    unfold ApduBuffer.keyRequest
    rw [← h.p1, ← h.p2]
    by_cases hpath : G.HasPath
    · rw [← h.path hpath, if_pos hpath, if_pos (h.hasPath.mp hpath)]
    · rw [if_neg hpath, if_neg (mt h.hasPath.mpr hpath)]
  unfold Command.request
  simp only [h.cla, h.ins, hkey, h.transactionRequest, h.streamRequest]

/-- The path that a request begins with. -/
def Request.begins? : Request → Option (List UInt32)
  | .beginTransaction path _ | .beginStream _ path _ _ => some path
  | .configuration | .key _ _ _ | .moreTransaction _ | .moreStream _ _ | .refused _ | .aborted _
  | .undefined => none

/-- The request leaves the path. -/
def Request.leavesPath : Request → Bool
  | .configuration | .moreTransaction _ | .moreStream _ _ | .refused _ => true
  | .key _ _ _ | .beginTransaction _ _ | .beginStream _ _ _ _ | .aborted _ | .undefined => false

/-- A request that leaves the path does not begin anything. -/
theorem ApduBuffer.request_leavesPath (G : ApduBuffer) :
    (G.transactionRequest.leavesPath = true → G.p1 ≠ P1_FIRST) ∧
      (∀ kind, (G.streamRequest kind).leavesPath = true → G.p1 ≠ P1_FIRST) ∧
      (G.ins = INS_GET_PUBLIC_KEY → G.keyRequest.leavesPath = true → ¬G.DerivesKey) := by
  refine ⟨fun h hp1 => ?_, fun kind h hp1 => ?_, fun hins h hderives => ?_⟩
  · rw [ApduBuffer.transactionRequest, if_pos hp1] at h
    split_ifs at h <;> cases h
  · rw [ApduBuffer.streamRequest, if_pos hp1] at h
    split_ifs at h <;> cases h
  · obtain ⟨-, hp1, hp2, hpath⟩ := hderives
    rw [ApduBuffer.keyRequest, if_pos ⟨hp1, hp2⟩, if_pos hpath] at h
    cases h

/-- A request that begins something carries its path. -/
theorem ApduBuffer.request_begins (G : ApduBuffer) (path : List UInt32) :
    (G.transactionRequest.begins? = some path → G.p1 = P1_FIRST ∧ G.HasPath ∧ G.path = path) ∧
      (∀ kind, (G.streamRequest kind).begins? = some path →
        G.p1 = P1_FIRST ∧ G.HasPath ∧ G.path = path) ∧ G.keyRequest.begins? = none := by
  refine ⟨fun h => ?_, fun kind h => ?_, ?_⟩
  · unfold ApduBuffer.transactionRequest at h
    split_ifs at h with hp1 hpath <;> cases h
    exact ⟨hp1, hpath, rfl⟩
  · unfold ApduBuffer.streamRequest at h
    split_ifs at h with hp1 hpath <;> cases h
    exact ⟨hp1, hpath, rfl⟩
  · unfold ApduBuffer.keyRequest
    split_ifs <;> rfl

/-- **A command whose request leaves the path** leaves it. -/
theorem Command.keepsPath_of_leaves {c : Command} (h : c.request.leavesPath = true)
    (path : List UInt32) : c.KeepsPath path := by
  obtain ⟨htransaction, hstream, hkey⟩ := c.G.request_leavesPath
  have hnot (hins : c.G.ins ∈ signingInstructions) (hp1 : c.G.p1 ≠ P1_FIRST) :
      (c.G.ins ∈ signingInstructions → c.G.KeepsPath path) ∧ ¬c.G.DerivesKey := by
    refine ⟨fun _ hp1' => absurd hp1' hp1, fun hderives => ?_⟩
    rw [hderives.1] at hins
    exact absurd hins (by decide)
  intro hcla
  rw [Command.request, if_neg (not_not.mpr hcla)] at h
  split_ifs at h with hget hsign hconfiguration hmessage hcertificate
  · refine ⟨fun hmem => ?_, hkey hget h⟩
    rw [hget] at hmem
    exact absurd hmem (by decide)
  · exact hnot (by rw [hsign]; decide) (htransaction h)
  · refine ⟨fun hmem => ?_, fun hderives => hget hderives.1⟩
    rw [hconfiguration] at hmem
    exact absurd hmem (by decide)
  · exact hnot (by rw [hmessage]; decide) (hstream .message h)
  · exact hnot (by rw [hcertificate]; decide) (hstream .certificate h)
  · refine ⟨fun hmem => ?_, fun hderives => hget hderives.1⟩
    simp [signingInstructions, hsign, hmessage, hcertificate] at hmem

/-- A command whose request begins something. -/
theorem Command.begins_of_request {c : Command} {path : List UInt32}
    (h : c.request.begins? = some path) : c.G.cla = CLA ∧ c.G.ins ∈ signingInstructions ∧
      c.G.p1 = P1_FIRST ∧ c.G.HasPath ∧ c.G.path = path := by
  obtain ⟨htransaction, hstream, hkey⟩ := c.G.request_begins path
  rw [Command.request] at h
  split_ifs at h with hcla hget hsign hconfiguration hmessage hcertificate
  · cases h
  · rw [hkey] at h
    cases h
  · exact ⟨not_not.mp hcla, by rw [hsign]; decide, htransaction h⟩
  · cases h
  · exact ⟨not_not.mp hcla, by rw [hmessage]; decide, hstream .message h⟩
  · exact ⟨not_not.mp hcla, by rw [hcertificate]; decide, hstream .certificate h⟩
  · cases h

/-- The path that the signer has in hand. -/
def Signing.path? : Signing → Option (List UInt32)
  | .idle => none
  | .transaction path _ | .stream _ path _ _ => some path

/-- Where nothing is in hand there is no path. -/
theorem Signing.path?_idle {P : List UInt32 → Prop} (path : List UInt32)
    (h : Signing.idle.path? = some path) : P path := by
  cases h

/-- What is in hand after an error was in hand before it. -/
theorem Signing.path?_afterError {signing : Signing} {path : List UInt32}
    (h : signing.afterError.path? = some path) : signing.path? = some path := by
  cases signing with
  | idle => cases h
  | transaction => cases h
  | stream => exact h

/-- An answer with a path in hand, or with a review, is about this path. -/
def AboutPath (path : List UInt32) : Response Outcome Signing → Prop
  | .unspecified | .silent => True
  | .answer _ signing => ∀ path' ∈ signing.path?, path' = path

/-- A transaction is about its path. -/
theorem transactionResponse_about (settings : Settings) (found : Bool) (path : List UInt32)
    (bytes : List UInt8) :
    AboutPath path (transactionResponse platform settings found path bytes) := by
  unfold transactionResponse
  split
  · rintro path' ⟨⟩
    rfl
  · rintro path' ⟨⟩
  · unfold Ending.response
    split
    · rintro path' ⟨⟩
    · trivial
  · trivial

/-- So is a stream. -/
theorem streamResponse_about (kind : Kind) (path : List UInt32) (length : UInt32)
    (bytes : List UInt8) : AboutPath path (streamResponse platform kind path length bytes) := by
  unfold streamResponse
  split_ifs
  · rintro path' ⟨⟩
    rfl
  · rintro path' ⟨⟩
  · rintro path' ⟨⟩

/-- The path of an answer is the one that the request begins with, or the one that was in hand. -/
inductive PathOf (request : Request) (signing : Signing) (path : List UInt32) : Prop where
  | begins (h : request.begins? = some path)
  | leaves (hleaves : request.leavesPath = true) (h : signing.path? = some path)

/-- **What an answer is about**: a path in hand, or a review, is there only for a path that the
request begins with, or for the one that was in hand and is left. -/
theorem respond_path {found : Bool} {settings : Settings} {signing t : Signing}
    {request : Request} {o : Outcome}
    (h : signing.respond platform found settings request = .answer o t) :
    (∀ path, t.path? = some path → PathOf request signing path) ∧
      ∀ r, o = .review r → ∃ path, PathOf request signing path := by
  have hstatus {data : List UInt8} {sw : UInt16} (r : Review)
      (h : Outcome.status data sw = .review r) : ∃ path, PathOf request signing path := by cases h
  have habout {path : List UInt32} (hpath : PathOf request signing path)
      (hresponse : AboutPath path (.answer o t)) :
      (∀ path, t.path? = some path → PathOf request signing path) ∧
        ∀ r, o = .review r → ∃ path, PathOf request signing path :=
    ⟨fun path' h => hresponse path' h ▸ hpath, fun _ _ => ⟨path, hpath⟩⟩
  cases request with
  | configuration =>
    cases h
    exact ⟨fun path h => .leaves rfl h, hstatus⟩
  | key confirm path chainCode =>
    rw [Signing.respond] at h
    cases hderive : platform.derive path chainCode with
    | none =>
      rw [hderive] at h
      cases h
    | some key =>
      rw [hderive] at h
      cases h
      refine ⟨Signing.path?_idle, fun r hr => ?_⟩
      unfold keyOutcome at hr
      split_ifs at hr
  | beginTransaction path payload =>
    exact habout (.begins rfl) (h ▸ transactionResponse_about settings found path payload)
  | moreTransaction payload =>
    cases signing with
    | transaction path bytes =>
      exact habout (.leaves rfl rfl) (h ▸ transactionResponse_about settings found path _)
    | idle => cases h
    | stream => cases h
  | beginStream kind path length first =>
    rw [Signing.respond] at h
    split_ifs at h
    · cases h
      exact ⟨Signing.path?_idle, hstatus⟩
    · exact habout (.begins rfl) (h ▸ streamResponse_about kind path length first)
  | moreStream kind chunk =>
    cases signing with
    | stream kind' path length delivered =>
      rw [Signing.respond] at h
      split_ifs at h
      · cases h
        exact ⟨fun path h => .leaves rfl h, hstatus⟩
      · exact habout (.leaves rfl rfl) (h ▸ streamResponse_about kind path length _)
    | idle => cases h
    | transaction => cases h
  | refused sw =>
    cases h
    exact ⟨fun path h => .leaves rfl (Signing.path?_afterError h), hstatus⟩
  | aborted sw =>
    cases h
    exact ⟨Signing.path?_idle, hstatus⟩
  | undefined => cases h

/-- **The path that would be signed with** is the one in hand, and the one of a review, and it has
the length that signing would read. -/
theorem step_signsWith {c : Command} {signing signing' : Signing} {found : Bool} {o : Outcome}
    {answer : Answer} (hd : ∀ path, signing.path? = some path → d.SignsWith path)
    (hrespond : platform.signer.respond found signing c = .answer o signing')
    (hstep : platform.device.step c d = some (answer, d')) (ho : answer.outcome d' = o) :
    (∀ path, signing'.path? = some path → d'.SignsWith path) ∧
      ∀ r, o = .review r → d'.SignsWith r.path := by
  have hsigns {path : List UInt32} (hpath : PathOf c.request signing path) : d'.SignsWith path := by
    cases hpath with
    | begins hbegins =>
      obtain ⟨hcla, hins, hp1, hhas, hpath⟩ := Command.begins_of_request hbegins
      refine step_keepsPath hstep (fun _ => ⟨fun _ _ => ?_, fun hderives => ?_⟩)
        fun hnot => absurd ⟨hcla, hins, hp1, hhas⟩ hnot
      · rw [if_pos hhas, hpath]
      · rw [hderives.1] at hins
        exact absurd hins (by decide)
    | leaves hleaves hpath =>
      exact step_keepsPath hstep (Command.keepsPath_of_leaves hleaves path) fun _ => hd path hpath
  obtain ⟨hhand, hreview⟩ := respond_path hrespond
  refine ⟨fun path hpath => hsigns (hhand path hpath), fun r hr => ?_⟩
  obtain ⟨path, hpath⟩ := hreview r hr
  have hr' : r.path = d'.tmpCtx.path := (Answer.outcome_review (ho.trans hr)).1
  rw [hr', (hsigns hpath).words]
  exact hsigns hpath

end AppVechain
