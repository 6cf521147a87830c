import AppVechain.Device.DomainSeparation

/-!
# Streams in chunks

The bytes of a message or of a certificate may be cut into commands in any way.
Every command before the last one is answered with success, and the hash that is
shown is that of the whole stream. A chunk that is longer than what remains is
refused, and changes nothing of the stream.
-/

namespace AppVechain

open Reactive Numeral

variable {platform : Platform} {k : Stream} {G : ApduBuffer} {d d' : Device} {a : Answer}

/-- The command brings these data. -/
structure Command.Brings (c : Command) (ins p1 : UInt8) (data : List UInt8) : Prop where
  cla : c.G.cla = CLA
  ins : c.G.ins = ins
  p1 : c.G.p1 = p1
  p2 : c.G.p2 = 0
  data : c.G.bytes OFFSET_CDATA c.G.lc.toNat = data

/-- The length of the data. -/
theorem Command.Brings.lc {c : Command} {ins p1 : UInt8} {data : List UInt8}
    (h : c.Brings ins p1 data) : c.G.lc.toNat = data.length := by
  have hlc := c.G.lc.toNat_lt
  rw [← h.data, c.G.bytes_length (show OFFSET_CDATA + c.G.lc.toNat ≤ 260 from by
    rw [OFFSET_CDATA]
    omega)]

/-- The data of a beginning: the path, the length of the stream, and its first bytes. -/
def beginningBytes (path : List UInt32) (length : UInt32) (first : List UInt8) : List UInt8 :=
  pathBytes path ++ wordBytes length ++ first

/-- What is read of a beginning. -/
structure ApduBuffer.Begins (G : ApduBuffer) (path : List UInt32) (length : UInt32)
    (first : List UInt8) : Prop where
  hasPath : G.HasPath
  path : G.path = path
  declaredLength : G.declaredLength = length
  whole : G.lc.toNat = 1 + 4 * G.pathLength + 4 + first.length
  first : G.bytes (G.behindPath + 4) first.length = first

/-- **Reading a beginning.** -/
theorem Command.Brings.begins {c : Command} {ins p1 : UInt8} {path : List UInt32} {length : UInt32}
    {first : List UInt8} (h : c.Brings ins p1 (beginningBytes path length first))
    (hpos : 1 ≤ path.length) (hten : path.length ≤ 10) : c.G.Begins path length first := by
  have hdata := h.data
  have hbyte : c.G.byte OFFSET_CDATA = UInt8.ofNat path.length :=
    c.G.byte_of_bytes (i := 0) hdata rfl
  have hpath : c.G.pathLength = path.length := by
    rw [ApduBuffer.pathLength, hbyte, UInt8.toNat_ofNat', Nat.mod_eq_of_lt (by omega)]
  have hlc : c.G.lc.toNat = 1 + 4 * path.length + 4 + first.length := by
    rw [h.lc, beginningBytes, List.length_append, List.length_append, length_pathBytes]
    rfl
  have hbehind : c.G.behindPath = OFFSET_CDATA + (pathBytes path).length := by
    rw [ApduBuffer.behindPath, hpath, length_pathBytes, Nat.add_assoc]
  refine ⟨⟨?_, ?_, ?_⟩, ?_, ?_, ?_, ?_⟩
  · omega
  · omega
  · omega
  · rw [beginningBytes, List.append_assoc] at hdata
    exact c.G.path_of_bytes hdata hpath
  · rw [ApduBuffer.declaredLength, hbehind]
    exact c.G.word_of_bytes hdata
  · rw [hpath, hlc]
  · have hfirst := c.G.bytes_of_bytes hdata
    rw [List.length_append, ← Nat.add_assoc, ← hbehind] at hfirst
    exact hfirst

/-- The first byte of a beginning, if there is any. -/
theorem ApduBuffer.Begins.firstByte {path : List UInt32} {length : UInt32} {first : List UInt8}
    (h : G.Begins path length first) :
    first.head?.getD (G.byte (G.behindPath + 4)) = G.byte (G.behindPath + 4) := by
  have hlc := G.lc.toNat_lt
  have hwhole := h.whole
  have hbehind : G.behindPath = 5 + 1 + 4 * G.pathLength := rfl
  obtain hzero | hpos := Nat.eq_zero_or_pos first.length
  · rw [List.length_eq_zero_iff.mp hzero, List.head?_nil, Option.getD_none]
  · rw [← h.first, G.bytes_head? hpos (by omega), Option.getD_some]

/-- A stream that begins with `start` and has `length` bytes, of which some were delivered. -/
structure Device.Streams (d : Device) (path : List UInt32) (start : List UInt8) (length : ℕ)
    (delivered : List UInt8) : Prop where
  path : d.tmpCtx.path = path
  blake2b : d.blake2b = start ++ delivered
  remaining : delivered.length + d.tmpCtx.remainingLength.toNat = length

/-- The stream after a chunk that fits: it is shown with its hash when it is complete, and
otherwise goes on. -/
structure StreamNext (platform : Platform) (flow : Flow) (path : List UInt32) (start : List UInt8)
    (length : ℕ) (delivered : List UInt8) (a : Answer) (d : Device) : Prop where
  streams : d.Streams path start length delivered
  answer : a = if delivered.length = length then .review flow else .status [] HW_OK
  hash : delivered.length = length → d.tmpCtx.hash = platform.blake2b256 (start ++ delivered)

/-- The last of the data that are hashed, if there are any. -/
theorem Work.lastByte_eq {w : Work} (hbound : w.workBuffer + w.dataLength.toNat ≤ 260)
    {chunk : List UInt8} (hchunk : G.bytes w.workBuffer w.dataLength.toNat = chunk) :
    chunk.getLast?.getD (w.lastByte G) = w.lastByte G := by
  obtain hzero | hpos := Nat.eq_zero_or_pos w.dataLength.toNat
  · rw [hzero, ApduBuffer.bytes, List.take_zero] at hchunk
    rw [← hchunk, List.getLast?_nil, Option.getD_none]
  · rw [← hchunk, G.bytes_getLast? hpos hbound, Option.getD_some]
    rfl

/-- What is hashed was delivered, and does not remain. -/
theorem Device.Streams.hash {w : Work} {path : List UInt32} {start delivered chunk : List UInt8}
    {length : ℕ} (h : w.device.Streams path start length delivered)
    (hbound : w.workBuffer + w.dataLength.toNat ≤ 260)
    (hchunk : G.bytes w.workBuffer w.dataLength.toNat = chunk)
    (hle : w.dataLength.toUInt32 ≤ w.device.tmpCtx.remainingLength) :
    (w.hash G).Streams path start length (delivered ++ chunk) := by
  obtain ⟨hpath, hblake2b, hremaining⟩ := h
  refine ⟨hpath, ?_, ?_⟩
  · show w.device.blake2b ++ G.bytes w.workBuffer w.dataLength.toNat = _
    rw [hblake2b, hchunk, List.append_assoc]
  · show _ + (w.device.tmpCtx.remainingLength - w.dataLength.toUInt32).toNat = _
    rw [UInt32.toNat_sub_of_le _ _ hle, List.length_append, ← hchunk, G.bytes_length hbound,
      UInt16.toNat_toUInt32]
    rw [UInt32.le_iff_toNat_le, UInt16.toNat_toUInt32] at hle
    omega

/-- A chunk that fits is hashed. -/
theorem Hashed.next {w : Work} {ending : Ending} (h : Hashed platform k G w ending)
    (hp2 : G.p2 = 0) (hbound : w.workBuffer + w.dataLength.toNat ≤ 260) {path : List UInt32}
    {start delivered chunk : List UInt8} {length : ℕ}
    (hstreams : w.device.Streams path start length delivered)
    (hchunk : G.bytes w.workBuffer w.dataLength.toNat = chunk)
    (hfits : (delivered ++ chunk).length ≤ length)
    (hclosed : (delivered ++ chunk).length = length →
      ∀ b, k.closed (chunk.getLast?.getD b) = true) :
    ∃ a d', ending.answer? = some (a, d') ∧
      StreamNext platform k.flow path start length (delivered ++ chunk) a d' := by
  have hremaining := hstreams.remaining
  have hlength : (delivered ++ chunk).length = delivered.length + w.dataLength.toNat := by
    rw [List.length_append, ← hchunk, G.bytes_length hbound]
  have hdata : w.dataLength.toUInt32.toNat = w.dataLength.toNat := w.dataLength.toNat_toUInt32
  have hcomplete (hlast : w.dataLength.toUInt32 = w.device.tmpCtx.remainingLength) :
      (delivered ++ chunk).length = length := by
    rw [← UInt32.toNat_inj, hdata] at hlast
    omega
  cases h with
  | wrongP2 hne => exact absurd hp2 hne
  | tooLong _ hlong =>
    rw [UInt32.lt_iff_toNat_lt, hdata] at hlong
    omega
  | outOfBounds _ hout => omega
  | notClosed _ hlast _ hnot =>
    have hlastByte := hclosed (hcomplete hlast) (w.lastByte G)
    rw [Work.lastByte_eq hbound hchunk, hnot] at hlastByte
    cases hlastByte
  | complete _ hlast =>
    obtain ⟨hpath, hblake2b, hrest⟩ := hstreams.hash hbound hchunk (UInt32.le_of_eq hlast)
    refine ⟨_, _, rfl, ⟨hpath, hblake2b, hrest⟩, (if_pos (hcomplete hlast)).symm, fun _ => ?_⟩
    rw [← hblake2b]
    rfl
  | incomplete _ hmore =>
    have hless : (delivered ++ chunk).length ≠ length := by
      rw [UInt32.lt_iff_toNat_lt, hdata] at hmore
      omega
    exact ⟨_, _, rfl, hstreams.hash hbound hchunk (UInt32.le_of_lt hmore), (if_neg hless).symm,
      fun hlast => absurd hlast hless⟩

/-- A stream that goes on is not answered with an error. -/
theorem StreamNext.isError {flow : Flow} {path : List UInt32} {start delivered : List UInt8}
    {length : ℕ} (h : StreamNext platform flow path start length delivered a d) :
    a.isError = false := by
  rw [h.answer]
  split
  · rfl
  · rfl

/-- The step of a command that is not answered with an error. -/
theorem step_of_answer {c : Command}
    (ha : (dispatch platform c.settings c.G d).answer? = some (a, d')) (hok : a.isError = false) :
    platform.device.step c d = some (a, d') := by
  show handleApdu platform c.settings c.G d = _
  rw [handleApdu_eq, ha, Option.map_some, hok]
  rfl

/-- **A beginning** starts a stream with its first bytes, on any device. -/
theorem Stream.Handled.next_first (hk : k.Handled) {c : Command} {path : List UInt32}
    {length : UInt32} {first : List UInt8}
    (hc : c.Brings k.flow.instruction P1_FIRST (beginningBytes path length first))
    (hpos : 1 ≤ path.length) (hten : path.length ≤ 10)
    (hopened : ∀ b, k.opened (first.head?.getD b) = true) (hfits : first.length ≤ length.toNat)
    (hclosed : first.length = length.toNat → ∀ b, k.closed (first.getLast?.getD b) = true)
    (d : Device) : ∃ a d', platform.device.step c d = some (a, d') ∧
      StreamNext platform k.flow path (k.flow.signedPrefix length) length.toNat first a d' := by
  have hbegins := hc.begins hpos hten
  have hfirstByte := hopened (c.G.byte (c.G.behindPath + 4))
  rw [hbegins.firstByte] at hfirstByte
  obtain ⟨hG, hwords, hlength, hwhole, hfirst⟩ := hbegins
  have hlc := c.G.lc.toNat_lt
  have hbehind : c.G.behindPath = 5 + 1 + 4 * c.G.pathLength := rfl
  have htext : k.start (c.G.word c.G.behindPath) = some (k.flow.signedPrefix length) := by
    rw [hk.start, ← hlength]
    rfl
  have hopens (r : Ending ⊕ Work) (hr : Begun k c.G d r) := hr.opened hc.p1 hG hfirstByte htext
  have hends := hk.ends platform c.settings c.G d hc.cla hc.ins
  suffices hnext : ∃ a d', (dispatch platform c.settings c.G d).answer? = some (a, d') ∧
      StreamNext platform k.flow path (k.flow.signedPrefix length) length.toNat ([] ++ first) a
        d' by
    obtain ⟨a, d', ha, hstreams⟩ := hnext
    exact ⟨a, d', step_of_answer ha hstreams.isError, hstreams⟩
  generalize dispatch platform c.settings c.G d = ending at hends ⊢
  cases hends with
  | notBegun hbegun =>
    obtain ⟨w, -, hw⟩ := hopens _ hbegun
    cases hw
  | begun hbegun hhashed =>
    obtain ⟨w, hpath, hw⟩ := hopens _ hbegun
    cases hw
    obtain ⟨-, hwork, -, hstored, -⟩ := beginPath_inr hpath
    have hbuffer : (w.readLength c.G).workBuffer = c.G.behindPath + 4 := congrArg (· + 4) hwork
    have hdata : (w.readLength c.G).dataLength.toNat = first.length := by
      rw [readLength_dataLength hpath (by omega)]
      omega
    apply hhashed.next hc.p2
    · show (w.readLength c.G).workBuffer + (w.readLength c.G).dataLength.toNat ≤ 260
      omega
    · refine ⟨hstored.trans hwords, (List.append_nil _).symm, ?_⟩
      show 0 + (c.G.word w.workBuffer).toNat = _
      rw [hwork, Nat.zero_add, ← hlength]
      rfl
    · show c.G.bytes (w.readLength c.G).workBuffer (w.readLength c.G).dataLength.toNat = first
      rw [hbuffer, hdata, hfirst]
    · exact hfits
    · exact hclosed

/-- **A chunk that fits** goes on with the stream. -/
theorem Stream.Handled.next_more (hk : k.Handled) {c : Command} {path : List UInt32} {length : ℕ}
    {start delivered chunk : List UInt8} (hc : c.Brings k.flow.instruction P1_MORE chunk)
    (hd : d.Streams path start length delivered) (hfits : (delivered ++ chunk).length ≤ length)
    (hclosed : (delivered ++ chunk).length = length →
      ∀ b, k.closed (chunk.getLast?.getD b) = true) :
    ∃ a d', platform.device.step c d = some (a, d') ∧
      StreamNext platform k.flow path start length (delivered ++ chunk) a d' := by
  have hlc := c.G.lc.toNat_lt
  have hends := hk.ends platform c.settings c.G d hc.cla hc.ins
  have hnat : c.G.lc.toUInt16.toNat = c.G.lc.toNat := UInt8.toNat_toUInt16 c.G.lc
  obtain ⟨a, d', ha, hnext⟩ := (hends.more hc.p1).next hc.p2
    (show OFFSET_CDATA + c.G.lc.toUInt16.toNat ≤ 260 by
      rw [hnat, OFFSET_CDATA]
      omega) hd (by rw [hnat]; exact hc.data) hfits hclosed
  exact ⟨a, d', step_of_answer ha hnext.isError, hnext⟩

/-- A chunk that is longer than what remains is refused, and the stream is kept. -/
theorem Stream.Handled.too_long (hk : k.Handled) {c : Command} {chunk : List UInt8}
    (hc : c.Brings k.flow.instruction P1_MORE chunk)
    (hlong : d.tmpCtx.remainingLength.toNat < chunk.length) :
    ∃ d', platform.device.step c d = some (.status [] HW_NOT_ENOUGH_MEMORY_SPACE, d') ∧
      d.KeepsStream d' := by
  have hends := hk.ends platform c.settings c.G d hc.cla hc.ins
  have hless : d.tmpCtx.remainingLength < c.G.lc.toUInt16.toUInt32 := by
    rw [ApduBuffer.lc_toUInt32, UInt32.lt_iff_toNat_lt, UInt8.toNat_toUInt32, hc.lc]
    exact hlong
  have hhashed := hends.more hc.p1
  suffices hrefused : dispatch platform c.settings c.G d =
      .throw [] HW_NOT_ENOUGH_MEMORY_SPACE d by
    refine ⟨d.wipe, ?_, rfl, rfl⟩
    show handleApdu platform c.settings c.G d = _
    rw [handleApdu_eq, hrefused]
    rfl
  generalize dispatch platform c.settings c.G d = ending at hhashed ⊢
  cases hhashed with
  | wrongP2 hne => exact absurd hc.p2 hne
  | tooLong => rfl
  | outOfBounds _ hout =>
    have hin : c.G.lc.toUInt16.toNat < 256 := by
      rw [UInt8.toNat_toUInt16]
      exact c.G.lc.toNat_lt
    exact absurd hout (show ¬260 < 5 + c.G.lc.toUInt16.toNat by omega)
  | notClosed _ hlast => exact absurd (hlast ▸ hless) (UInt32.lt_irrefl _)
  | complete _ hlast => exact absurd (hlast ▸ hless) (UInt32.lt_irrefl _)
  | incomplete _ hmore => exact absurd (UInt32.lt_trans hless hmore) (UInt32.lt_irrefl _)

/-- Chunks of which the last is not empty have some bytes. -/
theorem flatten_length_pos {chunks : List (List UInt8)} (hne : chunks ≠ [])
    (hlast : chunks.getLast? ≠ some []) : 0 < chunks.flatten.length := by
  obtain ⟨front, chunk, rfl⟩ := (List.eq_nil_or_concat' chunks).resolve_left hne
  rw [List.getLast?_concat, ne_eq, Option.some.injEq] at hlast
  have hpos := List.length_pos_iff.mpr hlast
  rw [List.flatten_append, List.length_append, List.flatten_singleton]
  omega

/-- A stream that a command went on with is signed whole by the commands of its other chunks: they
are answered with success until the last one completes it. -/
theorem Stream.Handled.replay_next (hk : k.Handled) {path : List UInt32} {start stream : List UInt8}
    (hclosed : ∀ b, k.closed (stream.getLast?.getD b) = true) {c : Command}
    {delivered : List UInt8} (hstep : platform.device.step c d = some (a, d'))
    (hnext : StreamNext platform k.flow path start stream.length delivered a d')
    {cs : List Command} {chunks : List (List UInt8)}
    (hcs : List.Forall₂ (fun c chunk => c.Brings k.flow.instruction P1_MORE chunk) cs chunks)
    (hlast : chunks.getLast? ≠ some []) (hstream : delivered ++ chunks.flatten = stream)
    (steps : List (Step Command Answer Device)) :
    ∃ new e, platform.device.replay (c :: cs) (steps, d) = some (new ++ steps, e) ∧
      new.map Step.answer = .review k.flow :: List.replicate cs.length (.status [] HW_OK) ∧
      e.tmpCtx.path = path ∧ e.tmpCtx.hash = platform.blake2b256 (start ++ stream) := by
  obtain ⟨hstreams, ha, hhash⟩ := hnext
  rw [System.replay_cons hstep]
  induction hcs generalizing c d a d' delivered steps with
  | nil =>
    rw [List.flatten_nil, List.append_nil] at hstream
    subst hstream
    rw [if_pos rfl] at ha
    exact ⟨[⟨d, c, a, d'⟩], d', rfl, by rw [ha]; rfl, hstreams.path, hhash rfl⟩
  | @cons c' chunk cs chunks hc hcs ih =>
    -- the stream is not complete, since the last chunk is not empty
    have hless : delivered.length < stream.length := by
      have hpos := flatten_length_pos (List.cons_ne_nil chunk chunks) hlast
      rw [← hstream, List.length_append]
      omega
    rw [if_neg hless.ne] at ha
    rw [List.flatten_cons, ← List.append_assoc] at hstream
    have hfront : delivered ++ chunk <+: stream := ⟨_, hstream⟩
    have hlastByte (hcomplete : (delivered ++ chunk).length = stream.length) (b : UInt8) :
        k.closed (chunk.getLast?.getD b) = true := by
      have hchunk : chunk ≠ [] := by
        rintro rfl
        rw [List.append_nil] at hcomplete
        exact hless.ne hcomplete
      have hb := hclosed b
      rwa [← hfront.eq_of_length hcomplete, List.getLast?_append_of_ne_nil _ hchunk] at hb
    obtain ⟨a₁, d₁, hstep₁, hstreams₁, ha₁, hhash₁⟩ :=
      hk.next_more hc hstreams hfront.length_le hlastByte
    have hrest : chunks.getLast? ≠ some [] := by
      cases chunks with
      | nil => nofun
      | cons => exact hlast
    obtain ⟨new, e, hreplay, hanswers, hend⟩ :=
      ih hstep₁ hrest hstream (⟨d, c, a, d'⟩ :: steps) hstreams₁ ha₁ hhash₁
    refine ⟨new ++ [⟨d, c, a, d'⟩], e, ?_, ?_, hend⟩
    · rw [System.replay_cons hstep₁, hreplay, List.append_assoc]
      rfl
    · rw [List.map_append, hanswers, List.map_singleton, ha, List.cons_append, List.length_cons,
        List.replicate_succ']

/-- The commands bring a stream: the first one its length and its first bytes behind a path of one
to ten words, and the others its rest in chunks, the last of which is not empty. -/
structure BringStream (ins : UInt8) (path : List UInt32) (stream first : List UInt8)
    (more : List (List UInt8)) (c : Command) (cs : List Command) : Prop where
  pos : 1 ≤ path.length
  ten : path.length ≤ 10
  length : stream.length < 2 ^ 32
  cut : first ++ more.flatten = stream
  last : more.getLast? ≠ some []
  begins : c.Brings ins P1_FIRST (beginningBytes path (UInt32.ofNat stream.length) first)
  goesOn : List.Forall₂ (fun c chunk => c.Brings ins P1_MORE chunk) cs more

/-- The length is sent as it is. -/
theorem BringStream.toNat_length {ins : UInt8} {path : List UInt32} {stream first : List UInt8}
    {more : List (List UInt8)} {c : Command} {cs : List Command}
    (h : BringStream ins path stream first more c cs) :
    (UInt32.ofNat stream.length).toNat = stream.length := by
  rw [UInt32.toNat_ofNat', Nat.mod_eq_of_lt h.length]

/-- A device answers the commands with success but for the last, which it shows for review with the
hash of these bytes and for this path. -/
def SignsWhole (platform : Platform) (flow : Flow) (path : List UInt32) (bytes : List UInt8)
    (cs : List Command) (d : Device) : Prop :=
  ∃ steps d', platform.device.replay cs ([], d) = some (steps, d') ∧
    steps.map Step.answer = .review flow :: List.replicate (cs.length - 1) (.status [] HW_OK) ∧
    d'.tmpCtx.path = path ∧ d'.tmpCtx.hash = platform.blake2b256 bytes

/-- **A stream in chunks** is signed whole. -/
theorem Stream.Handled.signsWhole (hk : k.Handled) {path : List UInt32} {stream first : List UInt8}
    {more : List (List UInt8)} {c : Command} {cs : List Command}
    (h : BringStream k.flow.instruction path stream first more c cs)
    (hopened : ∀ b, k.opened (first.head?.getD b) = true)
    (hclosed : ∀ b, k.closed (stream.getLast?.getD b) = true) (d : Device) :
    SignsWhole platform k.flow path
      (k.flow.signedPrefix (UInt32.ofNat stream.length) ++ stream) (c :: cs) d := by
  have hnat := h.toNat_length
  obtain ⟨hpos, hten, -, hcut, hlast, hfirst, hmore⟩ := h
  have hfits : first.length ≤ (UInt32.ofNat stream.length).toNat := by
    rw [hnat, ← hcut, List.length_append]
    omega
  have hlastByte (hcomplete : first.length = (UInt32.ofNat stream.length).toNat) (b : UInt8) :
      k.closed (first.getLast?.getD b) = true := by
    have hwhole : first = stream :=
      List.IsPrefix.eq_of_length ⟨more.flatten, hcut⟩ (hcomplete.trans hnat)
    rw [hwhole]
    exact hclosed b
  obtain ⟨a, d', hstep, hnext⟩ := hk.next_first hfirst hpos hten hopened hfits hlastByte d
  rw [hnat] at hnext
  obtain ⟨new, e, hreplay, hanswers, hend⟩ := hk.replay_next hclosed hstep hnext hmore hlast hcut []
  rw [List.append_nil] at hreplay
  exact ⟨new, e, hreplay, hanswers, hend⟩

/-- **Streaming is independent of the chunks**: a message or a certificate, in whatever chunks it is
brought to whatever device, is answered with success until it is complete, and then shown with the
hash of its bytes, those of a message behind the magic and its length. A chunk that is longer than
what remains is refused, which changes neither what remains nor what was hashed. -/
theorem stream_signsWhole (platform : Platform) :
    (∀ path message first more c cs,
      BringStream INS_SIGN_PERSONAL_MESSAGE path message first more c cs →
      ∀ d, SignsWhole platform .message path
        (SIGN_MAGIC ++ digitsText (numeral 10 message.length) ++ message) (c :: cs) d) ∧
    (∀ path certificate first more c cs,
      BringStream INS_SIGN_CERTIFICATE path certificate first more c cs → first ≠ [] →
      certificate.head? = some 123 → certificate.getLast? = some 125 →
      ∀ d, SignsWhole platform .certificate path certificate (c :: cs) d) ∧
    ∀ ins ∈ [INS_SIGN_PERSONAL_MESSAGE, INS_SIGN_CERTIFICATE], ∀ (c : Command) chunk,
      c.Brings ins P1_MORE chunk → ∀ d : Device, d.tmpCtx.remainingLength.toNat < chunk.length →
      ∃ d', platform.device.step c d = some (.status [] HW_NOT_ENOUGH_MEMORY_SPACE, d') ∧
        d'.tmpCtx.remainingLength = d.tmpCtx.remainingLength ∧ d'.blake2b = d.blake2b := by
  refine ⟨?_, ?_, ?_⟩
  · intro path message first more c cs h d
    have hsigns : SignsWhole platform _ _ _ _ d :=
      messageStream_handled.signsWhole h (fun _ => rfl) (fun _ => rfl) d
    have hstart : messageStream.flow.signedPrefix (UInt32.ofNat message.length) =
        SIGN_MAGIC ++ digitsText (numeral 10 message.length) := by
      show SIGN_MAGIC ++ digitsText (numeral 10 (UInt32.ofNat message.length).toNat) = _
      rw [h.toNat_length]
    rwa [hstart] at hsigns
  · intro path certificate first more c cs h hfirst hhead hlast d
    apply certificateStream_handled.signsWhole h
    · intro b
      rw [← h.cut, List.head?_append_of_ne_nil _ hfirst] at hhead
      rw [hhead]
      rfl
    · intro b
      rw [hlast]
      rfl
  · intro ins hins c chunk hc d hlong
    rcases List.mem_pair.mp hins with rfl | rfl
    · obtain ⟨d', hstep, hkept⟩ := messageStream_handled.too_long hc hlong
      exact ⟨d', hstep, hkept.remainingLength, hkept.blake2b⟩
    · obtain ⟨d', hstep, hkept⟩ := certificateStream_handled.too_long hc hlong
      exact ⟨d', hstep, hkept.remainingLength, hkept.blake2b⟩

/-- Two bytes that come one by one, as a message and as a certificate. -/
def splitStream (ins : UInt8) : Command × Command :=
  (.received [0xe0, ins, 0x00, 0x00, 0x0a, 0x01, 0x80, 0x00, 0x00, 0x00, 0x00, 0x00, 0x00, 0x02,
    0x7b], .received [0xe0, ins, 0x80, 0x00, 0x01, 0x7d])

/-- They are brought whole. -/
theorem splitStream_brings {ins : UInt8}
    (hins : ins = INS_SIGN_PERSONAL_MESSAGE ∨ ins = INS_SIGN_CERTIFICATE) :
    BringStream ins [0x80000000] [0x7b, 0x7d] [0x7b] [[0x7d]] (splitStream ins).1
      [(splitStream ins).2] := by
  refine ⟨by decide, by decide, by decide, rfl, by decide, ?_, .cons ?_ .nil⟩
  · rcases hins with rfl | rfl <;> constructor <;> decide +kernel
  · rcases hins with rfl | rfl <;> constructor <;> decide +kernel

theorem stream_signsWhole_split :
    SignsWhole (.recorded []) .message [0x80000000]
        (SIGN_MAGIC ++ digitsText (numeral 10 2) ++ [0x7b, 0x7d])
        [(splitStream INS_SIGN_PERSONAL_MESSAGE).1, (splitStream INS_SIGN_PERSONAL_MESSAGE).2]
        .boot ∧
      SignsWhole (.recorded []) .certificate [0x80000000] [0x7b, 0x7d]
        [(splitStream INS_SIGN_CERTIFICATE).1, (splitStream INS_SIGN_CERTIFICATE).2] .boot ∧
      ∃ d', (Platform.recorded []).device.step (splitStream INS_SIGN_CERTIFICATE).2 .boot =
          some (.status [] HW_NOT_ENOUGH_MEMORY_SPACE, d') ∧
        d'.tmpCtx.remainingLength = Device.boot.tmpCtx.remainingLength ∧
        d'.blake2b = Device.boot.blake2b := by
  obtain ⟨hmessage, hcertificate, hlong⟩ := stream_signsWhole (.recorded [])
  have hbrings := splitStream_brings (.inr rfl)
  refine ⟨hmessage _ _ _ _ _ _ (splitStream_brings (.inl rfl)) .boot,
    hcertificate _ _ _ _ _ _ hbrings (by decide) rfl rfl .boot, ?_⟩
  obtain ⟨hmore, -⟩ := List.forall₂_cons.mp hbrings.goesOn
  exact hlong INS_SIGN_CERTIFICATE (by decide) _ _ hmore .boot (by decide)

end AppVechain
