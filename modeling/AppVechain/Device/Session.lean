import AppVechain.Device.Lifecycle
import AppVechain.Ustream.FieldsLayout

/-!
# The session of a transaction

From an accepted `P1_FIRST` of `INS_SIGN` on the parser has read the payloads of
the commands, one after the other, as a machine does that started anew. The hash
is related to what was read as far as no other command used it.
-/

namespace AppVechain

open Rlp Streaming Numeral

/-- A number that was written over another one. -/
theorem TxInt256.number_write (old : TxInt256) {bytes : List UInt8} (h : bytes.length ≤ 32) :
    (old.write bytes).number = bigEndian bytes := by
  rw [TxInt256.number, (old.holds_write h).2]

/-- The same transaction in two sessions: the numbers and what else is used for the display. -/
structure SameContent (v v' : TxView) : Prop where
  coefLength : v.gaspricecoef.length ≤ 1 ∧ v'.gaspricecoef.length ≤ 1
  coef : v.gaspricecoef.number = v'.gaspricecoef.number
  gasLength : v.gas.length ≤ 8 ∧ v'.gas.length ≤ 8
  gas : v.gas.number = v'.gas.number
  firstClause : v.firstClause = v'.firstClause
  clausesLength : v.clausesLength = v'.clausesLength
  dataPresent : v.dataPresent = v'.dataPresent

/-- The sizes of what is kept of a transaction. -/
structure TxView.Bounded (v : TxView) : Prop where
  gaspricecoef : v.gaspricecoef.length ≤ 1
  gas : v.gas.length ≤ 8
  value : v.firstClause.value.length ≤ 32

/-- A complete transaction is kept within its sizes. -/
theorem txRules_run_bounded {scratch : Scratch} {content : TxContent} {xs unread : List UInt8}
    {t : FieldState RlpTxField TxData}
    (h : (txRules scratch).machine.run (txStart .zero content) xs = .halted t unread) :
    t.env.view.Bounded := by
  obtain ⟨l, -, hadmitted, clauses, hclauses, henv⟩ := txRules_run_halted scratch h
  have hread := clausesRules_run scratch (show Counted (.initial .zero) from ⟨rfl⟩) hclauses
  rw [henv]
  exact ⟨hadmitted.gasPriceCoef.2 1 rfl, hadmitted.gas.2 8 rfl,
    overlayClauses_value_length hread.firstClause (by decide)⟩

/-- A transaction that was read has the same content when it is read alone, over other numbers. -/
theorem txRules_run_again {scratch : Scratch} {content : TxContent} {xs unread : List UInt8}
    {t : FieldState RlpTxField TxData}
    (h : (txRules scratch).machine.run (txStart .zero content) xs = .halted t unread)
    (content' : TxContent) :
    ∃ bytes t', xs = bytes ++ unread ∧
      (txRules scratch).machine.run (txStart .zero content') bytes = .halted t' [] ∧
      SameContent t.env.view t'.env.view := by
  obtain ⟨l, hbytes, hadmitted, clauses, hclauses, henv⟩ := txRules_run_halted scratch h
  obtain ⟨t', hrun', henv'⟩ := txRules_run_layout scratch .zero content' l hadmitted hclauses []
  have hcoef : l.items.gasPriceCoef.payload.length ≤ 1 := hadmitted.gasPriceCoef.2 1 rfl
  have hgas : l.items.gas.payload.length ≤ 8 := hadmitted.gas.2 8 rfl
  rw [List.append_nil] at hrun'
  refine ⟨l.bytes, t', hbytes, hrun', ?_⟩
  rw [henv, henv']
  refine ⟨⟨hcoef, hcoef⟩, ?_, ⟨hgas, hgas⟩, ?_, rfl, rfl, rfl⟩
  · exact (TxInt256.number_write _ (by omega)).trans (TxInt256.number_write _ (by omega)).symm
  · exact (TxInt256.number_write _ (by omega)).trans (TxInt256.number_write _ (by omega)).symm

/-- What a command of `INS_SIGN` delivers: the data behind its path, or all of them. -/
def ApduBuffer.payload (G : ApduBuffer) : List UInt8 :=
  if G.p1 = P1_FIRST then G.bytes G.behindPath (G.lc.toNat - (1 + 4 * G.pathLength))
  else G.bytes OFFSET_CDATA G.lc.toNat

/-- The parser has read some bytes since it was initialised. Its hash transcript is related to
that of the machine by `H`. -/
structure Device.Session (platform : Platform) (H : List UInt8 → List UInt8 → Prop)
    (bytes : List UInt8) (d : Device) : Prop where
  fee : d.feeComputationContext = none
  parses : ∃ content t,
    Sim (txRules (platform.scratch d.session)) (txRelUpTo (platform.scratch d.session) H) d.tx t ∧
      (txRules (platform.scratch d.session)).machine.run (txStart .zero content) bytes = .running t

variable {platform : Platform} {H : List UInt8 → List UInt8 → Prop} {G : ApduBuffer}

/-- The parser is called on the payload. -/
theorem signBegin_payload {d : Device} {w : Work} (h : signBegin G d = .inr w) :
    G.bytes w.workBuffer w.dataLength.toNat = G.payload := by
  unfold ApduBuffer.payload
  rcases signBegin_p1 h with hp1 | hp1
  · obtain ⟨-, hwork, hdata, -⟩ := signBegin_first hp1 h
    rw [if_pos hp1, hwork, hdata]
  · rw [signBegin_more hp1, Sum.inr.injEq] at h
    subst h
    rw [if_neg (by rw [hp1]; decide)]
    exact congrArg (G.bytes OFFSET_CDATA) (UInt8.toNat_toUInt16 G.lc)

/-- `P1_FIRST` begins a session. -/
theorem signBegin_session (hH : H [] []) (hp1 : G.p1 = P1_FIRST) {d : Device} {w : Work}
    (h : signBegin G d = .inr w) : w.device.Session platform H [] := by
  obtain ⟨-, -, -, -, htx, hfee, -⟩ := signBegin_first hp1 h
  have hsim := initTx_sim (platform.scratch w.device.session) hH
    (d.setClauses ⟨0, false⟩ .zero).tx.env
  rw [← htx] at hsim
  exact ⟨hfee, _, _, hsim, Machine.run_nil rfl⟩

/-- **A call of the parser in a session** ends as a run on all that was delivered. -/
theorem Device.Session.processTx (hH : KeptByHashing H) {bytes : List UInt8} {d : Device}
    (h : d.Session platform H bytes) (chunk : List UInt8) :
    let scratch := platform.scratch d.session
    ∃ content, match (txRules scratch).machine.run (txStart .zero content) (bytes ++ chunk) with
    | .running t => ∃ tx, AppVechain.processTx scratch d.tx chunk = .returned .processing tx ∧
        Sim (txRules scratch) (txRelUpTo scratch H) tx t ∧ tx.consumed chunk = chunk
    | .halted t unread => ∃ tx, AppVechain.processTx scratch d.tx chunk = .returned .finished tx ∧
        Sim (txRules scratch) (txRelUpTo scratch H) tx t ∧ chunk = tx.consumed chunk ++ unread
    | .refused => ∃ tx, AppVechain.processTx scratch d.tx chunk = .returned .fault tx := by
  obtain ⟨content, t, hsim, hrun⟩ := h.parses
  have hcases := processTx_cases _ hH hsim chunk
  refine ⟨content, ?_⟩
  rw [Machine.run_append, hrun]
  show match (txRules (platform.scratch d.session)).machine.run t chunk with
    | .running t => _
    | .halted t unread => _
    | .refused => _
  cases hnext : (txRules (platform.scratch d.session)).machine.run t chunk with
  | running t' =>
    rw [hnext] at hcases
    exact hcases
  | halted t' unread =>
    rw [hnext] at hcases
    obtain ⟨tx, hprocess, hsim', hconsumed⟩ := hcases
    obtain ⟨read, hread, -⟩ := Machine.run_halted_split hnext
    refine ⟨tx, hprocess, hsim', ?_⟩
    rw [hconsumed, hread, List.length_append, Nat.add_sub_cancel, List.take_left]
  | refused =>
    rw [hnext] at hcases
    exact hcases

/-- The run that belongs to what a call of the parser returned. -/
theorem Device.Session.returned (hH : KeptByHashing H) {bytes : List UInt8} {d : Device}
    (h : d.Session platform H bytes) {chunk : List UInt8} {status : ParserStatus} {tx : TxState}
    (hprocess : AppVechain.processTx (platform.scratch d.session) d.tx chunk =
      .returned status tx) :
    let scratch := platform.scratch d.session
    ∃ content, match (txRules scratch).machine.run (txStart .zero content) (bytes ++ chunk) with
    | .running t => status = .processing ∧ Sim (txRules scratch) (txRelUpTo scratch H) tx t ∧
        tx.consumed chunk = chunk
    | .halted t unread => status = .finished ∧ Sim (txRules scratch) (txRelUpTo scratch H) tx t ∧
        chunk = tx.consumed chunk ++ unread
    | .refused => status = .fault := by
  obtain ⟨content, hrun⟩ := h.processTx hH chunk
  rw [hprocess] at hrun
  refine ⟨content, ?_⟩
  generalize (txRules (platform.scratch d.session)).machine.run (txStart .zero content)
    (bytes ++ chunk) = out at hrun ⊢
  cases out with
  | running t =>
    obtain ⟨tx', heq, hleft⟩ := hrun
    cases heq
    exact ⟨rfl, hleft⟩
  | halted t unread =>
    obtain ⟨tx', heq, hleft⟩ := hrun
    cases heq
    exact ⟨rfl, hleft⟩
  | refused =>
    obtain ⟨tx', heq⟩ := hrun
    cases heq
    rfl

/-- A session that goes on. -/
theorem Device.Session.next {bytes chunk : List UInt8} {d : Device} {content : TxContent}
    {tx : TxState} {t : FieldState RlpTxField TxData} (h : d.Session platform H bytes)
    (hsim : Sim (txRules (platform.scratch d.session))
      (txRelUpTo (platform.scratch d.session) H) tx t)
    (hrun : (txRules (platform.scratch d.session)).machine.run (txStart .zero content)
      (bytes ++ chunk) = .running t) :
    ({ d with tx := tx } : Device).Session platform H (bytes ++ chunk) :=
  ⟨h.fee, content, t, hsim, hrun⟩

end AppVechain
