import AppVechain.Rlp.Encoding
import AppVechain.Ustream.RoundTrip

/-!
# Headers byte by byte

`rlpCanDecode` and `rlpDecodeLength` agree on where a header ends, and give back
what a canonical header was made for. A header with more than four length bytes
is not rejected by the check that was written for it: it never becomes complete,
and the loop that feeds the buffer faults when the buffer is full.
-/

namespace AppVechain

open Rlp

variable {F E : Type}

/-- No proper prefix of a header can be decoded, and all of it can. -/
theorem rlpCanDecode_writeBytes (buffer : RlpBuffer) {header : List UInt8} {h : Header}
    (hread : readHeader header = .complete h) (hsize : h.size = header.length) {k : ℕ}
    (hpos : 0 < k) (hk : k ≤ header.length) :
    rlpCanDecode (writeBytes buffer 0 (header.take k)) k =
      if k < header.length then none else some true := by
  have hfive : h.size ≤ 5 := (readHeader_size hread).2.1
  have htake : (header.take k).length = k := by rw [List.length_take, Nat.min_eq_left hk]
  have hbuffer := writeBytes_take buffer (show (header.take k).length ≤ 5 by omega)
  rw [htake] at hbuffer
  rw [rlpCanDecode_eq _ hpos (by omega), hbuffer]
  obtain hlt | rfl := Nat.lt_or_eq_of_le hk
  · rw [if_pos hlt]
    have hnot := readHeader_take_ne hread (k := k) (by omega)
    cases hshort : readHeader (header.take k) with
    | incomplete => rfl
    | unsupported => rfl
    | complete h' => exact absurd hshort (hnot h')
  · rw [if_neg (Nat.lt_irrefl _), List.take_length, hread]

/-- A whole header is decoded. -/
theorem rlpDecodeLength_writeBytes (buffer : RlpBuffer) {header : List UInt8} {h : Header}
    (hread : readHeader header = .complete h) (hlength : header.length ≤ 5) :
    rlpDecodeLength (writeBytes buffer 0 header) = some ⟨h.length, h.size, h.isList⟩ := by
  have hpos : 0 < header.length := List.length_pos_of_ne_nil (readHeader_size hread).2.2.2
  exact rlpDecodeLength_eq _ hpos (by rwa [writeBytes_take buffer hlength])

/-- A first byte that announces more than four length bytes. -/
def OverlongHeader (b : UInt8) : Prop := 0xbc ≤ b.toNat ∧ b.toNat ≤ 0xbf ∨ 0xfc ≤ b.toNat

/-- Nothing completes an overlong header. -/
theorem OverlongHeader.readHeader {b : UInt8} (hb : OverlongHeader b) (rest : List UInt8) :
    readHeader (b :: rest) = .unsupported := by
  rw [Rlp.readHeader, if_neg (by unfold OverlongHeader at hb; omega),
    if_neg (by unfold OverlongHeader at hb; omega)]
  obtain hstring | hlist := hb
  · rw [if_pos (by omega), readLong, if_pos (by omega)]
  · rw [if_neg (by omega), if_neg (by omega), readLong, if_pos (by omega)]

/-- Between two fields, with the header bytes `got` collected. -/
structure ParserState.AwaitsHeader (s : ParserState F E) (got : List UInt8) : Prop where
  processingField : s.processingField = false
  rlpBufferPos : s.rlpBufferPos = got.length
  rlpBuffer : s.rlpBuffer.toList.take got.length = got

/-- The bytes of an overlong header are collected up to the fifth, which faults. -/
theorem Parser.feed_overlong (p : Parser F E) {b : UInt8} (hb : OverlongHeader b)
    {s : ParserState F E} {got bytes rest : List UInt8} (hs : s.AwaitsHeader got)
    (hgot : got.length < 5) (hahead : s.workBuffer.ahead = bytes)
    (hheader : got ++ bytes = b :: rest) :
    if got.length + bytes.length < 5 then
      ∃ t, p.feed bytes.length s = .starved t ∧ t.AwaitsHeader (got ++ bytes) ∧
        t.currentField = s.currentField
    else ∃ t, p.feed bytes.length s = .fault t ∧ t.rlpBufferPos = 5 := by
  induction bytes generalizing s got with
  | nil =>
    rw [List.length_nil, Nat.add_zero, if_pos hgot, List.append_nil]
    exact ⟨s, rfl, hs, rfl⟩
  | cons c bytes ih =>
    obtain ⟨s₁, hpos₁, hbuffer₁, hproc₁, hfield₁, -, hwork₁, hfeed⟩ :=
      p.feed_cons hahead hs.rlpBufferPos hgot hs.rlpBuffer bytes.length
    obtain ⟨rest', hrest'⟩ : ∃ rest', got ++ [c] = b :: rest' := by
      cases got with
      | nil =>
        obtain ⟨rfl, -⟩ := List.cons.inj hheader
        exact ⟨[], rfl⟩
      | cons b' got =>
        obtain ⟨rfl, -⟩ := List.cons.inj hheader
        exact ⟨got ++ [c], rfl⟩
    rw [hrest', hb.readHeader] at hfeed
    simp only at hfeed
    rw [List.length_cons, hfeed]
    by_cases hfull : got.length + 1 = maxHeaderSize
    · have hfive : got.length + 1 = 5 := hfull
      rw [if_neg (by omega), if_pos hfull]
      exact ⟨s₁, rfl, by rw [hpos₁, hfive]⟩
    · have hroom : got.length + 1 ≠ 5 := hfull
      have hlength : (got ++ [c]).length = got.length + 1 := by simp
      have hwaits : s₁.AwaitsHeader (got ++ [c]) :=
        ⟨hproc₁.trans hs.processingField, by rw [hpos₁, hlength], by rw [hlength, hbuffer₁]⟩
      have hnext := ih hwaits (by omega) (by rw [hwork₁])
        (by rw [List.append_assoc]; exact hheader)
      rw [hlength, show got.length + 1 + bytes.length = got.length + (bytes.length + 1) by omega,
        List.append_assoc, List.singleton_append, hfield₁] at hnext
      rw [if_neg hfull]
      exact hnext

/-- A call of a parser with part of an overlong header. -/
theorem Parser.process_overlong (p : Parser F E) {b : UInt8} (hb : OverlongHeader b)
    {s : ParserState F E} {got chunk rest : List UInt8} (hdone : p.isDone s.currentField = false)
    (hs : s.AwaitsHeader got) (hgot : got.length < 5) (hchunk : chunk ≠ [])
    (hheader : got ++ chunk = b :: rest) :
    if got.length + chunk.length < 5 then
      ∃ t, p.process s chunk = .returned .processing t ∧ t.AwaitsHeader (got ++ chunk) ∧
        t.currentField = s.currentField
    else ∃ t, p.process s chunk = .returned .fault t ∧ t.rlpBufferPos = 5 := by
  rw [Parser.process, Parser.loop]
  generalize hu : ({ s with workBuffer := ⟨[], chunk⟩ } : ParserState F E) = u
  have hfield : u.currentField = s.currentField := by rw [← hu]
  have hahead : u.workBuffer.ahead = chunk := by rw [← hu]
  have hwaits : u.AwaitsHeader got := by
    rw [← hu]
    exact ⟨hs.processingField, hs.rlpBufferPos, hs.rlpBuffer⟩
  have hfeed := p.feed_overlong hb hwaits hgot hahead hheader
  have hlength : u.commandLength = chunk.length := by rw [ParserState.commandLength, hahead]
  have hsome : ¬chunk.length = 0 := fun h => hchunk (List.length_eq_zero_iff.mp h)
  have hgoes : ¬p.isDone u.currentField = true := by rw [hfield, hdone]; exact Bool.false_ne_true
  have hproc : ¬u.processingField = true := by
    rw [hwaits.processingField]
    exact Bool.false_ne_true
  simp only [Parser.turn, hlength, if_neg hgoes, if_neg hsome, if_neg hproc]
  split at hfeed
  case isTrue hfits =>
    obtain ⟨t, hstarved, ht, hsame⟩ := hfeed
    rw [hstarved, if_pos hfits]
    exact ⟨t, rfl, ht, hsame.trans hfield⟩
  case isFalse hfits =>
    obtain ⟨t, hfault, hpos⟩ := hfeed
    rw [hfault, if_neg hfits]
    exact ⟨t, rfl, hpos⟩

/-- A call of a parser with an empty chunk. -/
theorem Parser.process_nil (p : Parser F E) {s : ParserState F E}
    (hdone : p.isDone s.currentField = false) :
    p.process s [] = .returned p.exhausted { s with workBuffer := ⟨[], []⟩ } := by
  have hgoes : ¬p.isDone s.currentField = true := by rw [hdone]; exact Bool.false_ne_true
  rw [Parser.process, Parser.loop]
  simp only [Parser.turn, ParserState.commandLength, if_neg hgoes, List.length_nil, if_true]

/-- Calls of a parser with chunks in order, until the result is not `USTREAM_PROCESSING`. -/
def Parser.processChunks (p : Parser F E) :
    ParserState F E → List (List UInt8) → Result (ParserState F E)
  | s, [] => .returned .processing s
  | s, chunk :: chunks =>
    match p.process s chunk with
    | .returned .processing t => p.processChunks t chunks
    | result => result

/-- **An overlong header faults with its fifth byte**, however it is cut, and no more than
five of its bytes are ever held. -/
theorem Parser.processChunks_overlong (p : Parser F E) {b : UInt8} (hb : OverlongHeader b)
    {s : ParserState F E} {got rest : List UInt8} {chunks : List (List UInt8)}
    (hdone : p.isDone s.currentField = false) (hs : s.AwaitsHeader got) (hgot : got.length < 5)
    (hempty : p.exhausted = .processing ∨ [] ∉ chunks)
    (hheader : got ++ chunks.flatten = b :: rest) :
    ∃ t, p.processChunks s chunks =
        .returned (if rest.length + 1 < 5 then .processing else .fault) t ∧
      t.rlpBufferPos = min 5 (rest.length + 1) := by
  have hlength : got.length + chunks.flatten.length = rest.length + 1 := by
    rw [← List.length_append, hheader, List.length_cons]
  induction chunks generalizing s got with
  | nil =>
    rw [List.flatten_nil, List.length_nil] at hlength
    exact ⟨s, by rw [Parser.processChunks, if_pos (by omega)], by rw [hs.rlpBufferPos]; omega⟩
  | cons chunk chunks ih =>
    rw [List.flatten_cons, List.length_append] at hlength
    rw [List.flatten_cons, ← List.append_assoc] at hheader
    have hlater : p.exhausted = .processing ∨ [] ∉ chunks :=
      hempty.imp id fun h hmem => h (List.mem_cons_of_mem _ hmem)
    rw [Parser.processChunks]
    by_cases hnil : chunk = []
    · subst hnil
      have hexhausted := hempty.resolve_right fun h => h List.mem_cons_self
      rw [p.process_nil hdone, hexhausted]
      rw [List.append_nil] at hheader
      exact ih hdone ⟨hs.processingField, hs.rlpBufferPos, hs.rlpBuffer⟩ hgot hlater hheader
        (by simpa using hlength)
    · have hne : got ++ chunk ≠ [] := fun h => hnil (List.append_eq_nil_iff.mp h).2
      obtain ⟨b', front, hfront⟩ := List.exists_cons_of_ne_nil hne
      obtain ⟨rfl, -⟩ : b' = b ∧ _ := by
        rw [hfront, List.cons_append] at hheader
        exact List.cons.inj hheader
      have hcall := p.process_overlong hb hdone hs hgot hnil hfront
      split at hcall
      case isTrue hfits =>
        obtain ⟨t, hprocess, ht, hfield⟩ := hcall
        rw [hprocess]
        exact ih (hfield ▸ hdone) ht (by rwa [List.length_append]) hlater hheader
          (by rw [List.length_append]; omega)
      case isFalse hfits =>
        obtain ⟨t, hprocess, hpos⟩ := hcall
        rw [hprocess]
        exact ⟨t, by rw [if_neg (by omega)], by rw [hpos]; omega⟩

/-- **A canonical header is read back** when it is whole, and not before. -/
theorem rlpDecodeLength_encodeHeader (isList : Bool) {n : ℕ} (hn : n < 2 ^ 32)
    (buffer : RlpBuffer) :
    (∀ k, 0 < k → k < (encodeHeader isList n).length →
      rlpCanDecode (writeBytes buffer 0 ((encodeHeader isList n).take k)) k = none) ∧
    rlpCanDecode (writeBytes buffer 0 (encodeHeader isList n)) (encodeHeader isList n).length =
      some true ∧
    rlpDecodeLength (writeBytes buffer 0 (encodeHeader isList n)) =
      some ⟨n, (encodeHeader isList n).length, isList⟩ := by
  have hread := readHeader_encodeHeader isList hn []
  rw [List.append_nil] at hread
  obtain ⟨-, hfive, -, hne⟩ := readHeader_size hread
  refine ⟨fun k hpos hk => ?_, ?_, ?_⟩
  · rw [rlpCanDecode_writeBytes buffer hread rfl hpos hk.le, if_pos hk]
  · have hwhole := rlpCanDecode_writeBytes buffer hread rfl (List.length_pos_of_ne_nil hne) le_rfl
    rwa [List.take_length, if_neg (Nat.lt_irrefl _)] at hwhole
  · exact rlpDecodeLength_writeBytes buffer hread hfive

/-- A byte below `0x80` announces itself. -/
theorem rlpDecodeLength_single {b : UInt8} (hb : b.toNat < 0x80) (buffer : RlpBuffer) :
    rlpCanDecode (writeBytes buffer 0 [b]) 1 = some true ∧
      rlpDecodeLength (writeBytes buffer 0 [b]) = some ⟨1, 0, false⟩ := by
  have hread : readHeader [b] = .complete ⟨false, 1, 0⟩ := by rw [readHeader, if_pos hb]
  refine ⟨?_, rlpDecodeLength_writeBytes buffer hread (by simp)⟩
  have hbuffer := writeBytes_take buffer (show [b].length ≤ 5 by simp)
  rw [rlpCanDecode_eq _ (by omega) (by omega),
    show (writeBytes buffer 0 [b]).toList.take 1 = [b] from hbuffer, hread]

/-- **Headers are fed and read back.** A canonical header is decoded when it is whole, not
before, and announces the payload it was made for; a byte below `0x80` announces itself;
and a header with more than four length bytes ends in `USTREAM_FAULT` with its fifth byte. -/
theorem rlpHeader_roundTrip :
    (∀ (isList : Bool) (n : ℕ), n < 2 ^ 32 → ∀ buffer : RlpBuffer,
      (∀ k, 0 < k → k < (encodeHeader isList n).length →
        rlpCanDecode (writeBytes buffer 0 ((encodeHeader isList n).take k)) k = none) ∧
      rlpCanDecode (writeBytes buffer 0 (encodeHeader isList n)) (encodeHeader isList n).length =
        some true ∧
      rlpDecodeLength (writeBytes buffer 0 (encodeHeader isList n)) =
        some ⟨n, (encodeHeader isList n).length, isList⟩) ∧
    (∀ b : UInt8, b.toNat < 0x80 → ∀ buffer : RlpBuffer,
      rlpCanDecode (writeBytes buffer 0 [b]) 1 = some true ∧
      rlpDecodeLength (writeBytes buffer 0 [b]) = some ⟨1, 0, false⟩) ∧
    (∀ (F E : Type) (p : Parser F E) (s : ParserState F E) (b : UInt8) (rest : List UInt8)
      (chunks : List (List UInt8)), OverlongHeader b → p.isDone s.currentField = false →
      s.processingField = false → s.rlpBufferPos = 0 →
      (p.exhausted = .processing ∨ [] ∉ chunks) → chunks.flatten = b :: rest →
      ∃ t, p.processChunks s chunks =
          .returned (if rest.length + 1 < 5 then .processing else .fault) t ∧
        t.rlpBufferPos = min 5 (rest.length + 1)) := by
  refine ⟨fun isList n hn buffer => rlpDecodeLength_encodeHeader isList hn buffer,
    fun b hb buffer => rlpDecodeLength_single hb buffer, ?_⟩
  intro F E p s b rest chunks hb hdone hproc hpos hempty hbytes
  have hs : s.AwaitsHeader [] := ⟨hproc, hpos, rfl⟩
  exact p.processChunks_overlong hb hdone hs (Nat.succ_pos 4) hempty (by rwa [List.nil_append])

theorem rlpHeader_roundTrip_samples :
    rlpCanDecode (writeBytes (Vector.replicate 5 0xff) 0 ((encodeHeader true 323).take 2)) 2 =
        none ∧
      rlpDecodeLength (writeBytes (Vector.replicate 5 0xff) 0 (encodeHeader true 323)) =
        some ⟨323, 3, true⟩ ∧
      rlpDecodeLength (writeBytes (Vector.replicate 5 0xff) 0 [0x7f]) = some ⟨1, 0, false⟩ ∧
      ∃ t, (txParser .valid).processChunks (initTx .zero) [[0xfc], [0x01, 0x02, 0x03, 0x04]] =
        .returned .fault t ∧ t.rlpBufferPos = 5 := by
  obtain ⟨hcanonical, hsingle, hoverlong⟩ := rlpHeader_roundTrip
  obtain ⟨hpre, -, hread⟩ := hcanonical true 323 (by decide) (Vector.replicate 5 0xff)
  exact ⟨hpre 2 (by decide) (by decide), hread, (hsingle 0x7f (by decide) _).2,
    hoverlong _ _ (txParser .valid) (initTx .zero) 0xfc [0x01, 0x02, 0x03, 0x04]
      [[0xfc], [0x01, 0x02, 0x03, 0x04]] (.inr (by decide)) rfl rfl rfl (.inl rfl) rfl⟩

end AppVechain
