import AppVechain.Ustream.Layout

/-!
# The hash covers the bytes that are parsed

Header bytes, payload bytes and clause bytes reach the hash in different places,
and a byte that is an item of its own is read twice. Every step of the machine
adds the byte it reads to the hash, once. The parser therefore has hashed the
bytes it consumed, whatever the cuts, and consumes all of them until it finishes.
-/

namespace AppVechain

open Rlp Streaming

/-- No single byte waits to be read as a payload. -/
def Settled (t : FieldState RlpTxField TxData) : Prop :=
  match t.phase with
  | .header _ => True
  | .body _ single _ _ => single = false

/-- Keeping payload bytes leaves the hash alone. -/
theorem TxData.keep_blake2b {scratch : Scratch} {f : RlpTxField} {pos : ℕ} {bytes : List UInt8}
    {d e : TxData} (h : d.keep scratch f pos bytes = some e) : e.blake2b = d.blake2b := by
  unfold TxData.keep at h
  split at h
  · obtain ⟨clauses, -, rfl⟩ := Option.map_eq_some_iff.mp h
    rfl
  · cases h
    rfl
  · cases h
    rfl
  · cases h
    rfl

/-- The end of a field leaves the hash alone. -/
theorem txRules_finish_blake2b (scratch : Scratch) (f : RlpTxField) (length : ℕ) (d : TxData) :
    ((txRules scratch).finish f length d).blake2b = d.blake2b := by
  cases f <;> rfl

/-- A payload byte is hashed unless it was read as a header. -/
theorem txRules_feedBody_blake2b (scratch : Scratch) {f : RlpTxField} {d : TxData}
    {isList single : Bool} {length pos : ℕ} {b : UInt8} {t : FieldState RlpTxField TxData}
    (h : (txRules scratch).feedBody f d isList single length pos b = some t) :
    t.env.blake2b = (d.hash single [b]).blake2b ∧
      t.phase = if pos + 1 = length then .header [] else .body isList single length (pos + 1) := by
  obtain ⟨e, hstore, rfl⟩ := Option.map_eq_some_iff.mp h
  obtain ⟨e', hkeep, rfl⟩ := Option.map_eq_some_iff.mp hstore
  have hblake2b : (e'.hash single [b]).blake2b = (d.hash single [b]).blake2b := by
    unfold TxData.hash
    split <;> simp only [TxData.keep_blake2b hkeep]
  by_cases hend : pos + 1 = length
  · rw [if_pos hend, if_pos hend]
    exact ⟨(txRules_finish_blake2b scratch f length _).trans hblake2b, rfl⟩
  · rw [if_neg hend, if_neg hend]
    exact ⟨hblake2b, rfl⟩

/-- Every byte is hashed once. -/
theorem txRules_step_blake2b (scratch : Scratch) {t t' : FieldState RlpTxField TxData} {b : UInt8}
    (ht : Settled t) (h : (txRules scratch).step t b = some t') :
    Settled t' ∧ t'.env.blake2b = t.env.blake2b ++ [b] := by
  obtain ⟨f, d, phase⟩ := t
  cases phase with
  | body isList single length pos =>
    obtain rfl : single = false := ht
    obtain ⟨hblake2b, hphase⟩ := txRules_feedBody_blake2b scratch h
    refine ⟨?_, hblake2b⟩
    unfold Settled
    rw [hphase]
    by_cases hend : pos + 1 = length
    · simp only [hend, if_true]
    · simp only [hend, if_false]
  | header got =>
    simp only [Rules.step] at h
    split at h
    · rename_i hd hread
      obtain ⟨u, hbegin, hfeed⟩ := Option.bind_eq_some_iff.mp h
      simp only [Rules.begin] at hbegin
      split_ifs at hbegin with hadmits hends
      · -- The field ends at its header.
        cases hbegin
        cases hfeed
        exact ⟨trivial, txRules_finish_blake2b scratch f _ _⟩
      · cases hbegin
        by_cases hsize : hd.size = 0
        · -- The single byte is hashed as a header, and then read as the whole payload.
          obtain rfl := readHeader_single hread hsize
          obtain ⟨hblake2b, hphase⟩ := txRules_feedBody_blake2b scratch hfeed
          refine ⟨?_, hblake2b⟩
          unfold Settled
          rw [hphase]
          trivial
        · simp only [Rules.feedSingle, hsize, decide_false, Option.some.injEq] at hfeed
          cases hfeed
          exact ⟨rfl, rfl⟩
    · split at h
      · cases h
        exact ⟨trivial, rfl⟩
      · cases h

/-- A run hashes the bytes it reads. -/
theorem txRules_run_blake2b (scratch : Scratch) {t : FieldState RlpTxField TxData}
    (ht : Settled t) (xs : List UInt8) :
    (∀ u, (txRules scratch).machine.run t xs = .running u →
      Settled u ∧ u.env.blake2b = t.env.blake2b ++ xs) ∧
    (∀ u unread, (txRules scratch).machine.run t xs = .halted u unread →
      Settled u ∧ u.env.blake2b ++ unread = t.env.blake2b ++ xs) := by
  induction xs generalizing t with
  | nil =>
    by_cases hf : (txRules scratch).machine.halted t = true
    · simp [Machine.run_of_halted hf, ht]
    · simp [Machine.run_nil (by simpa using hf : (txRules scratch).machine.halted t = false), ht]
  | cons b bs ih =>
    by_cases hf : (txRules scratch).machine.halted t = true
    · simp [Machine.run_of_halted hf, ht]
    · have hf' : (txRules scratch).isDone t.field = false := by simpa [Rules.machine] using hf
      rw [Rules.run_cons hf']
      cases hstep : (txRules scratch).step t b with
      | none => simp
      | some u =>
        obtain ⟨hu, hblake2b⟩ := txRules_step_blake2b scratch ht hstep
        obtain ⟨hrunning, hhalted⟩ := ih hu
        rw [hblake2b] at hrunning hhalted
        simpa [List.append_assoc] using And.intro hrunning hhalted

/-- The states reached by `initTx` and calls of `processTx` that do not fault, with
the status returned last, the bytes of all chunks, and the bytes consumed. -/
inductive TxReached (scratch : Scratch) (env : TxEnv) :
    ParserStatus → TxState → List UInt8 → List UInt8 → Prop where
  | initTx : TxReached scratch env .processing (initTx env) [] []
  | processTx {status status' : ParserStatus} {s s' : TxState}
      {received consumed chunk : List UInt8} :
      TxReached scratch env status s received consumed →
      processTx scratch s chunk = .returned status' s' → status' ≠ .fault →
      TxReached scratch env status' s' (received ++ chunk) (consumed ++ s'.consumed chunk)

/-- A reached state answers one run of the machine on all the bytes. -/
theorem TxReached.run {scratch : Scratch} {env : TxEnv} {status : ParserStatus} {s : TxState}
    {received consumed : List UInt8} (h : TxReached scratch env status s received consumed) :
    ∃ t, Sim (txRules scratch) (txRel scratch) s t ∧
      (status = .processing ∧ consumed = received ∧
          (txRules scratch).machine.run (txStart env.clauses.env.firstClause env.content) received =
            .running t ∨
        status = .finished ∧ ∃ unread, consumed ++ unread = received ∧
          (txRules scratch).machine.run (txStart env.clauses.env.firstClause env.content) received =
            .halted t unread) := by
  induction h with
  | initTx => exact ⟨_, initTx_sim scratch rfl env, .inl ⟨rfl, rfl, Machine.run_nil rfl⟩⟩
  | processTx hreached hcall hstatus ih =>
    rename_i status status' s s' received consumed chunk
    obtain ⟨t, hsim, ⟨-, rfl, hrun⟩ | ⟨-, unread, rfl, hrun⟩⟩ := ih
    · have hcases := processTx_cases scratch keptByHashing_eq hsim chunk
      have happend := Machine.run_append (txRules scratch).machine
        (txStart env.clauses.env.firstClause env.content) consumed chunk
      rw [hrun, Outcome.resume] at happend
      cases hnext : (txRules scratch).machine.run t chunk with
      | running t' =>
        rw [hnext] at hcases happend
        obtain ⟨u, hcall', hsim', hconsumed⟩ := hcases
        rw [hcall] at hcall'
        cases hcall'
        exact ⟨t', hsim', .inl ⟨rfl, by rw [hconsumed], happend⟩⟩
      | halted t' unread =>
        rw [hnext] at hcases happend
        obtain ⟨u, hcall', hsim', hconsumed⟩ := hcases
        rw [hcall] at hcall'
        cases hcall'
        obtain ⟨read, rfl, -⟩ := Machine.run_halted_split hnext
        refine ⟨t', hsim', .inr ⟨rfl, unread, ?_, happend⟩⟩
        rw [hconsumed, List.length_append, Nat.add_sub_cancel, List.take_left, List.append_assoc]
      | refused =>
        rw [hnext] at hcases
        obtain ⟨u, hcall'⟩ := hcases
        rw [hcall] at hcall'
        cases hcall'
        exact absurd rfl hstatus
    · -- After the end of the transaction a call consumes nothing.
      have hdone := Machine.halted_of_run_halted hrun
      have hcases := processTx_cases scratch keptByHashing_eq hsim chunk
      rw [Machine.run_of_halted hdone] at hcases
      obtain ⟨u, hcall', hsim', hconsumed⟩ := hcases
      rw [hcall] at hcall'
      cases hcall'
      refine ⟨t, hsim', .inr ⟨rfl, unread ++ chunk, ?_, ?_⟩⟩
      · rw [hconsumed, Nat.sub_self, List.take_zero, List.append_nil, List.append_assoc]
      · rw [Machine.run_append, hrun, Outcome.resume]

/-- **The hash covers exactly the consumed bytes**, in every reachable state: all
bytes of all chunks while the parser waits for more, and the bytes of one
transaction, to the end of its last field, after it has finished. -/
theorem txReached_blake2b {scratch : Scratch} {env : TxEnv} {status : ParserStatus} {s : TxState}
    {received consumed : List UInt8} (h : TxReached scratch env status s received consumed) :
    s.env.blake2b = consumed ∧
      (status = .processing → consumed = received) ∧
      (status = .finished → ∃ (l : TxLayout) (unread : List UInt8),
        l.items.Admitted ∧ consumed = l.bytes ∧ received = consumed ++ unread) := by
  obtain ⟨t, hsim, ⟨rfl, rfl, hrun⟩ | ⟨rfl, unread, rfl, hrun⟩⟩ := h.run
  · obtain ⟨hrunning, -⟩ := txRules_run_blake2b scratch
      (t := txStart env.clauses.env.firstClause env.content) trivial consumed
    have hblake2b : t.env.blake2b = consumed := (hrunning t hrun).2
    exact ⟨hsim.env.2.2.trans hblake2b, fun _ => rfl, nofun⟩
  · obtain ⟨-, hhalted⟩ := txRules_run_blake2b scratch
      (t := txStart env.clauses.env.firstClause env.content) trivial (consumed ++ unread)
    have hblake2b : t.env.blake2b = consumed := List.append_cancel_right (hhalted t unread hrun).2
    obtain ⟨l, hbytes, hadmitted, -⟩ := txRules_run_halted scratch hrun
    exact ⟨hsim.env.2.2.trans hblake2b, nofun,
      fun _ => ⟨l, unread, hadmitted, List.append_cancel_right hbytes, rfl⟩⟩

/-- A transaction whose outer list and nine items are empty. -/
def emptyTx : List UInt8 := [0xc0, 0x80, 0x80, 0x80, 0xc0, 0x80, 0x80, 0x80, 0x80, 0xc0]

theorem txReached_blake2b_emptyTx :
    ∃ s, TxReached .valid .zero .finished s (emptyTx ++ [0x2a]) emptyTx ∧
      s.env.blake2b = emptyTx := by
  obtain ⟨s, hcall, hconsumed⟩ : ∃ s : TxState,
      processTx .valid (initTx .zero) (emptyTx ++ [0x2a]) = .returned .finished s ∧
        s.consumed (emptyTx ++ [0x2a]) = emptyTx := ⟨_, rfl, rfl⟩
  have hreached := TxReached.processTx
    (TxReached.initTx : TxReached .valid .zero .processing _ [] []) hcall
    (by decide)
  rw [hconsumed] at hreached
  exact ⟨s, hreached, (txReached_blake2b hreached).1⟩

end AppVechain
