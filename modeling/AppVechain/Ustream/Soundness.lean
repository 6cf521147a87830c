import AppVechain.Ustream.Transcript

/-!
# What acceptance says about the bytes

An accepted transaction is a list header and nine items. The payload of the
clause list is a sequence of lists, the last of which may be cut off by the end
of the payload. Each of these holds an address, a value and data as far as it
goes: it may end earlier, and what follows its data is not read. Nothing relates
the length declared by the outer list to the bytes behind it.
-/

namespace AppVechain

open Rlp Streaming

/-- The kinds and sizes of the items of a clause: the recipient, the value, the data. -/
def clauseKinds : List (Bool × Option ℕ) := [(false, some 20), (false, some 32), (false, none)]

/-- A header of the given kind and size. -/
def HeaderFits (kind : Bool × Option ℕ) (h : Header) : Prop :=
  h.isList = kind.1 ∧ ∀ n ∈ kind.2, h.length ≤ n

/-- Bytes that hold items of the given kinds as far as they go. Fewer items than
kinds end in bytes that are not a complete item, but may begin one. -/
def RecordPrefix (kinds : List (Bool × Option ℕ)) (payload : List UInt8) : Prop :=
  ∃ (items : List Item) (rest : List UInt8), payload = itemsBytes items ++ rest ∧
    List.Forall₂ (fun kind i => Fits kind.1 kind.2 i) (kinds.take items.length) items ∧
    ∀ kind ∈ kinds[items.length]?,
      splitItem rest = none ∧ ∀ h, readHeader rest = .complete h → HeaderFits kind h

/-- The payload of a clause. -/
def ClausePayload (payload : List UInt8) : Prop := RecordPrefix clauseKinds payload

/-- Bytes that are a sequence of clauses, the last of which may be cut off. -/
def ClausesPayload (payload : List UInt8) : Prop :=
  ∃ (clauses : List Item) (rest : List UInt8), payload = itemsBytes clauses ++ rest ∧
    splitItem rest = none ∧
    (∀ clause ∈ clauses, clause.isList = true ∧ ClausePayload clause.payload) ∧
    ∀ h, readHeader rest = .complete h → h.isList = true ∧ ClausePayload (rest.drop h.size)

/-- Nothing is asked of bytes behind the last item. -/
theorem recordPrefix_nil (payload : List UInt8) : RecordPrefix [] payload :=
  ⟨[], payload, rfl, .nil, nofun⟩

/-- An item in front. -/
theorem RecordPrefix.cons {kind : Bool × Option ℕ} {kinds : List (Bool × Option ℕ)} {i : Item}
    {payload : List UInt8} (hi : Fits kind.1 kind.2 i) (h : RecordPrefix kinds payload) :
    RecordPrefix (kind :: kinds) (i.bytes ++ payload) := by
  obtain ⟨items, rest, rfl, hitems, hrest⟩ := h
  exact ⟨i :: items, rest, by rw [itemsBytes_cons, List.append_assoc], .cons hi hitems, hrest⟩

/-- No complete item. -/
theorem recordPrefix_of_cut {kind : Bool × Option ℕ} {kinds : List (Bool × Option ℕ)}
    {payload : List UInt8} (hsplit : splitItem payload = none)
    (hheader : ∀ h, readHeader payload = .complete h → HeaderFits kind h) :
    RecordPrefix (kind :: kinds) payload := by
  refine ⟨[], payload, rfl, .nil, fun kind' hkind => ?_⟩
  cases hkind
  exact ⟨hsplit, hheader⟩

/-- A run that does not refuse admits the header at the front. -/
theorem admits_of_run {F A : Type} {r : Rules F A} {f : F} {a : A} {xs : List UInt8} {h : Header}
    (hf : r.isDone f = false) (hrun : r.machine.run ⟨f, a, .header []⟩ xs ≠ .refused)
    (hread : readHeader xs = .complete h) : r.admits f h.isList h.length = true := by
  rw [Rules.run_field hf] at hrun
  by_contra hne
  simp only [Rules.fieldRun, hread, hne, if_false, FieldRun.outcome, ne_eq,
    not_true_eq_false] at hrun

/-- A field that does not refuse reads an item of its kind, after which the next field
does not refuse, or it does not get to the end of an item. -/
theorem recordPrefix_of_run {F A : Type} {r : Rules F A} {f : F} {kind : Bool × Option ℕ}
    {kinds : List (Bool × Option ℕ)} {a : A} {xs : List UInt8} (hf : r.isDone f = false)
    (hrun : r.machine.run ⟨f, a, .header []⟩ xs ≠ .refused)
    (hkind : ∀ h : Header, r.admits f h.isList h.length = true → HeaderFits kind h)
    (hnext : ∀ (i : Item) (rest : List UInt8), xs = i.bytes ++ rest →
      (r.skips f i.payload.length = false →
        ∃ a, r.machine.run ⟨r.next f, a, .header []⟩ rest ≠ .refused) → RecordPrefix kinds rest) :
    RecordPrefix (kind :: kinds) xs := by
  cases hsplit : splitItem xs with
  | none =>
    exact recordPrefix_of_cut hsplit fun h hread => hkind h (admits_of_run hf hrun hread)
  | some pair =>
    obtain ⟨i, rest⟩ := pair
    obtain rfl := splitItem_some hsplit
    have hfits := hkind _ (admits_of_run hf hrun (i.readHeader_bytes_append rest))
    refine RecordPrefix.cons hfits (hnext i rest rfl fun hskips => ?_)
    rw [Rules.run_item hf i hskips] at hrun
    cases hitem : r.readItem f i a with
    | none => exact absurd (by rw [hitem]; rfl) hrun
    | some a' => exact ⟨a', by rw [hitem] at hrun; exact hrun⟩

/-- A string up to a length. -/
private theorem headerFits_string {h : Header} {n : ℕ}
    (hadmits : (!h.isList && !decide (n < h.length)) = true) : HeaderFits (false, some n) h := by
  simpa [HeaderFits] using hadmits

/-- A clause that is not refused holds the items of a clause as far as it goes. -/
theorem clausePayload_of_run {content : ClauseContent} {payload : List UInt8}
    (h : clauseRules.machine.run (clauseStart content) payload ≠ .refused) :
    ClausePayload payload := by
  refine recordPrefix_of_run rfl h (fun _ => headerFits_string) fun toItem rest _ hto => ?_
  obtain ⟨content₁, h₁⟩ := hto rfl
  refine recordPrefix_of_run rfl h₁ (fun _ => headerFits_string) fun valueItem rest _ hvalue => ?_
  obtain ⟨content₂, h₂⟩ := hvalue rfl
  refine recordPrefix_of_run rfl h₂ (fun hd hadmits => ⟨?_, nofun⟩) fun _ rest _ _ =>
    recordPrefix_nil rest
  simpa [clauseRules, RlpClauseField.succ] using hadmits

/-- The payload fed to an entered clause holds the items of a clause. -/
theorem clausePayload_of_feed {scratch : Scratch} {d e : ClausesData} {payload : List UInt8}
    (h : (d.enter scratch).feed payload = some e) : ClausePayload payload := by
  obtain ⟨clause, hstate, -⟩ := Option.map_eq_some_iff.mp h
  have hne : clauseRules.machine.run (d.enter scratch).clause payload ≠ .refused := by
    intro hrefused
    rw [hrefused] at hstate
    cases hstate
  exact clausePayload_of_run hne

/-- Header bytes of a clause have no effect. -/
theorem clausesRules_headers (scratch : Scratch) (bytes : List UInt8) (d : ClausesData) :
    (clausesRules scratch).headers bytes d = d := by
  induction bytes with
  | nil => rfl
  | cons b bs ih => exact ih

/-- Reading a clause enters it and feeds its payload. -/
theorem clausesRules_readItem (scratch : Scratch) (i : Item) (d : ClausesData) :
    (clausesRules scratch).readItem .clause i d =
      if i.isList then
        ((d.enter scratch).feed i.payload).map
          ((clausesRules scratch).finish .clause i.payload.length)
      else none := by
  unfold Rules.readItem
  rw [clausesRules_storeAll, clausesRules_headers]
  rfl

/-- The clauses of a list hold the items of a clause. -/
theorem clausesPayload_of_run (scratch : Scratch) {d : ClausesData} {payload : List UInt8}
    (h : (clausesRules scratch).machine.run ⟨.clause, d, .header []⟩ payload ≠ .refused) :
    ClausesPayload payload := by
  obtain ⟨clauses, rest, rfl, hsplit⟩ := exists_items payload
  refine ⟨clauses, rest, rfl, hsplit, ?_⟩
  induction clauses generalizing d with
  | nil =>
    refine ⟨nofun, fun hd hread => ?_⟩
    have hadmits := admits_of_run rfl h hread
    have hlist : hd.isList = true := hadmits
    rw [itemsBytes, List.flatMap_nil, List.nil_append, Rules.run_cut rfl hread hsplit rfl,
      if_pos hadmits, clausesRules_storeAll, clausesRules_headers] at h
    refine ⟨hlist, ?_⟩
    cases hfeed : (d.enter scratch).feed (rest.drop hd.size) with
    | none =>
      rw [show ((clausesRules scratch).start .clause hd.length
        ((clausesRules scratch).enter d)).feed (rest.drop hd.size) = none from hfeed] at h
      exact absurd rfl h
    | some e => exact clausePayload_of_feed hfeed
  | cons clause clauses ih =>
    rw [itemsBytes_cons, List.append_assoc, Rules.run_item rfl clause rfl,
      clausesRules_readItem] at h
    by_cases hlist : clause.isList = true
    · rw [if_pos hlist] at h
      cases hfeed : (d.enter scratch).feed clause.payload with
      | none => exact absurd (by rw [hfeed]; rfl) h
      | some e =>
        rw [hfeed] at h
        obtain ⟨hclauses, hrest⟩ := ih h
        refine ⟨fun i hi => ?_, hrest⟩
        obtain rfl | hi := List.mem_cons.mp hi
        · exact ⟨hlist, clausePayload_of_feed hfeed⟩
        · exact hclauses i hi
    · rw [if_neg hlist] at h
      exact absurd rfl h

/-- A finished session is a run that halts, and consumes the bytes before the unread ones. -/
theorem run_of_finished {scratch : Scratch} {env : TxEnv} {chunks : List (List UInt8)} {s : TxState}
    {consumed : List UInt8}
    (h : processTxChunks scratch (initTx env) chunks = (.returned .finished s, consumed)) :
    ∃ t unread, Sim (txRules scratch) (txRel scratch) s t ∧ chunks.flatten = consumed ++ unread ∧
      (txRules scratch).machine.run (txStart env.clauses.env.firstClause env.content)
        chunks.flatten = .halted t unread := by
  have hsession := processTxChunks_run scratch env chunks
  cases hrun : (txRules scratch).machine.run (txStart env.clauses.env.firstClause env.content)
      chunks.flatten with
  | running t =>
    rw [hrun] at hsession
    obtain ⟨_, -, hprocess⟩ := hsession
    rw [h] at hprocess
    cases hprocess
  | halted t unread =>
    rw [hrun] at hsession
    obtain ⟨_, _, hsim, hprocess, hflatten⟩ := hsession
    rw [h] at hprocess
    cases hprocess
    exact ⟨t, unread, hsim, hflatten, rfl⟩
  | refused =>
    rw [hrun] at hsession
    obtain ⟨_, _, hprocess⟩ := hsession
    rw [h] at hprocess
    cases hprocess

/-- **What acceptance says**: the bytes consumed are a list header and nine items of
the kinds and sizes of their fields, and the payload of the clause list is a
sequence of clauses. -/
theorem processTxChunks_sound {scratch : Scratch} {env : TxEnv} {chunks : List (List UInt8)}
    {s : TxState} {consumed : List UInt8}
    (h : processTxChunks scratch (initTx env) chunks = (.returned .finished s, consumed)) :
    ∃ (l : TxLayout) (unread : List UInt8), chunks.flatten = consumed ++ unread ∧
      consumed = l.bytes ∧ l.items.Admitted ∧ ClausesPayload l.items.clauses.payload := by
  obtain ⟨t, unread, -, hflatten, hrun⟩ := run_of_finished h
  obtain ⟨l, hbytes, hadmitted, clauses, hclauses, -⟩ := txRules_run_halted scratch hrun
  have hne : (clausesRules scratch).machine.run (clausesStart env.clauses.env.firstClause)
      l.items.clauses.payload ≠ .refused := by
    intro hrefused
    rw [hrefused] at hclauses
    cases hclauses
  rw [hflatten] at hbytes
  exact ⟨l, unread, hflatten, List.append_cancel_right hbytes, hadmitted,
    clausesPayload_of_run scratch hne⟩

/-- A clause list without loose ends: complete lists of three complete strings each. -/
def ExactClauses (payload : List UInt8) : Prop :=
  ∃ clauses : List Item, payload = itemsBytes clauses ∧
    ∀ clause ∈ clauses, clause.isList = true ∧ ∃ fields : List Item,
      clause.payload = itemsBytes fields ∧ fields.map Item.isList = [false, false, false]

/-- An accepted transaction with a wrong outer length, a clause without fields and a
clause that is cut off. -/
def looseTx : List UInt8 :=
  [0xc0, 0x80, 0x80, 0x80, 0xc2, 0xc0, 0xc5, 0x80, 0x80, 0x80, 0x80, 0xc0]

theorem processTxChunks_sound_looseTx :
    ∃ (l : TxLayout) (unread : List UInt8), [looseTx ++ [0x2a]].flatten = looseTx ++ unread ∧
      looseTx = l.bytes ∧ l.items.Admitted ∧ ClausesPayload l.items.clauses.payload := by
  obtain ⟨s, hsession⟩ : ∃ s, processTxChunks .valid (initTx .zero) [looseTx ++ [0x2a]] =
      (.returned .finished s, looseTx) := ⟨_, rfl⟩
  exact processTxChunks_sound hsession

/-- Acceptance leaves a byte unread, declared lengths unchecked and clauses unfinished. -/
theorem processTxChunks_not_exact :
    ∃ s : TxState, processTxChunks .valid (initTx .zero) [looseTx ++ [0x2a]] =
        (.returned .finished s, looseTx) ∧ s.workBuffer.ahead ≠ [] ∧
      ∀ l : TxLayout, looseTx = l.bytes →
        l.declared ≠ (itemsBytes l.items.toList).length ∧
          ¬ExactClauses l.items.clauses.payload := by
  refine ⟨_, rfl, by decide, fun l hl => ?_⟩
  have hread : readHeader looseTx = .complete ⟨true, l.declared, l.outer.length⟩ := by
    rw [hl]
    exact readHeader_append l.outer_header _
  have hheader : readHeader looseTx = .complete ⟨true, 0, 1⟩ := by decide
  rw [hheader, HeaderRead.complete.injEq, Header.mk.injEq] at hread
  obtain ⟨-, hdeclared, houter⟩ := hread
  have hitems : itemsBytes l.items.toList = looseTx.drop 1 := by
    rw [hl, houter, TxLayout.bytes, List.drop_left]
  have hsplit : splitItems (looseTx.drop 1) = (l.items.toList, []) := by
    rw [← hitems, ← splitItems_itemsBytes l.items.toList [] rfl,
      List.append_nil]
  have hpayload : l.items.clauses.payload = [0xc0, 0xc5] := by
    have hpayloads : (splitItems (looseTx.drop 1)).1.map Item.payload =
        [[], [], [], [0xc0, 0xc5], [], [], [], [], []] := by decide
    rw [hsplit] at hpayloads
    simp only [TxItems.toList, List.map_cons, List.cons.injEq] at hpayloads
    exact hpayloads.2.2.2.1
  constructor
  · rw [← hdeclared, hitems]
    decide
  · rintro ⟨clauses, hclauses, -⟩
    have hrest : splitItems [0xc0, 0xc5] = (clauses, []) := by
      rw [← hpayload, hclauses, ← splitItems_itemsBytes clauses [] rfl,
        List.append_nil]
    have hcut : (splitItems [0xc0, 0xc5]).2 = [0xc5] := by decide
    rw [hrest] at hcut
    cases hcut

end AppVechain
