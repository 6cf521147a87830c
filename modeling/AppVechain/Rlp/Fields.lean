import AppVechain.Rlp.Header
import AppVechain.Streaming.Machine

/-!
# Reading RLP fields one byte at a time

A record is a sequence of RLP items, its fields. The machine here reads their
bytes one at a time: it collects header bytes until the header is complete,
then passes each payload byte on, and goes to the next field after the last
one. What a field does with its bytes is a parameter, the `Rules`. The main
result, `Rules.run_field`, says what a run does with the bytes from the start
of a field, without going through them one by one.
-/

namespace Rlp

open Streaming

/-- Where the reader stands within a field. -/
inductive Phase where
  /-- The header is incomplete; `got` are its bytes so far. -/
  | header (got : List UInt8)
  /-- `pos` of the `length` payload bytes are read. `single` marks a byte that
  is an item of its own. -/
  | body (isList single : Bool) (length pos : ℕ)
  deriving DecidableEq

/-- A reader in field `field`, with the data `env` that its fields write. -/
structure FieldState (F A : Type) where
  field : F
  env : A
  phase : Phase

/-- What the fields of a record do with the bytes they are given. -/
structure Rules (F A : Type) where
  /-- No field is left to read. -/
  isDone : F → Bool
  /-- The effect of a header byte. -/
  header : UInt8 → A → A
  /-- The effect of a complete header. -/
  enter : A → A
  /-- The kind and length are allowed for the field. -/
  admits : F → Bool → ℕ → Bool
  /-- The field ends at its header, without its payload being read. -/
  skips : F → ℕ → Bool
  /-- The effect of the start of a field of a given length. -/
  start : F → ℕ → A → A
  /-- The effect of the payload byte at a given position; `none` refuses it. -/
  store : F → Bool → ℕ → UInt8 → A → Option A
  /-- The effect of the end of a field of a given length. -/
  finish : F → ℕ → A → A
  /-- The field after a field. -/
  next : F → F

/-- No header has more bytes than this. -/
def maxHeaderSize : ℕ := 5

variable {F A : Type}

/-- Go to the next field. -/
def Rules.close (r : Rules F A) (f : F) (length : ℕ) (env : A) : FieldState F A :=
  ⟨r.next f, r.finish f length env, .header []⟩

/-- Start the payload of a field whose header is complete. -/
def Rules.begin (r : Rules F A) (f : F) (env : A) (isList single : Bool) (length : ℕ) :
    Option (FieldState F A) :=
  if r.admits f isList length then
    if r.skips f length || length = 0 then some (r.close f length (r.start f length env))
    else some ⟨f, r.start f length env, .body isList single length 0⟩
  else none

/-- Pass on one payload byte. -/
def Rules.feedBody (r : Rules F A) (f : F) (env : A) (isList single : Bool) (length pos : ℕ)
    (b : UInt8) : Option (FieldState F A) :=
  (r.store f single pos b env).map fun env =>
    if pos + 1 = length then r.close f length env
    else ⟨f, env, .body isList single length (pos + 1)⟩

/-- Pass on a byte that is an item of its own, unless its field has ended. -/
def Rules.feedSingle (r : Rules F A) (b : UInt8) (s : FieldState F A) : Option (FieldState F A) :=
  match s.phase with
  | .body isList true length pos => r.feedBody s.field s.env isList true length pos b
  | _ => some s

/-- Read one byte. A byte that is an item of its own is header and payload. -/
def Rules.step (r : Rules F A) (s : FieldState F A) (b : UInt8) : Option (FieldState F A) :=
  match s.phase with
  | .body isList single length pos => r.feedBody s.field s.env isList single length pos b
  | .header got =>
    match readHeader (got ++ [b]) with
    | .complete h =>
      (r.begin s.field (r.enter (r.header b s.env)) h.isList (h.size = 0) h.length).bind
        (r.feedSingle b)
    | _ =>
      if got.length + 1 < maxHeaderSize then
        some ⟨s.field, r.header b s.env, .header (got ++ [b])⟩
      else none

/-- The reader as a machine over bytes. -/
def Rules.machine (r : Rules F A) : Machine UInt8 (FieldState F A) where
  halted s := r.isDone s.field
  step s b := r.step s b

/-- Pass on payload bytes from a position. -/
def Rules.storeAll (r : Rules F A) (f : F) (single : Bool) : ℕ → List UInt8 → A → Option A
  | _, [], env => some env
  | pos, b :: bs, env => (r.store f single pos b env).bind (r.storeAll f single (pos + 1) bs)

/-- The effect of header bytes. -/
def Rules.headers (r : Rules F A) (bytes : List UInt8) (env : A) : A :=
  bytes.foldl (fun e b => r.header b e) env

/-- How reading from the start of a field ends. -/
inductive FieldRun (F A : Type) where
  /-- The bytes end within the field. -/
  | pending (s : FieldState F A)
  | refused
  /-- The field is read and `rest` follows it. -/
  | closed (env : A) (rest : List UInt8)

/-- Read a field from its start, header and payload as a whole. -/
def Rules.fieldRun (r : Rules F A) (f : F) (env : A) (xs : List UInt8) : FieldRun F A :=
  match readHeader xs with
  | .complete h =>
    let env := r.start f h.length (r.enter (r.headers (xs.take (max 1 h.size)) env))
    if r.admits f h.isList h.length then
      if r.skips f h.length then .closed (r.finish f h.length env) (xs.drop (max 1 h.size))
      else if xs.length < h.size + h.length then
        match r.storeAll f (h.size = 0) 0 (xs.drop h.size) env with
        | none => .refused
        | some env =>
          .pending ⟨f, env, .body h.isList (h.size = 0) h.length (xs.length - h.size)⟩
      else
        match r.storeAll f (h.size = 0) 0 ((xs.drop h.size).take h.length) env with
        | none => .refused
        | some env => .closed (r.finish f h.length env) (xs.drop (h.size + h.length))
    else .refused
  | _ =>
    if xs.length < maxHeaderSize then .pending ⟨f, r.headers xs env, .header xs⟩ else .refused

/-- Continue a run after a field. -/
def FieldRun.outcome (r : Rules F A) (f : F) : FieldRun F A → Outcome UInt8 (FieldState F A)
  | .pending s => .running s
  | .refused => .refused
  | .closed env rest => r.machine.run ⟨r.next f, env, .header []⟩ rest

variable {r : Rules F A}

/-- A reader with a field left reads its next byte. -/
theorem Rules.run_cons {s : FieldState F A} (hf : r.isDone s.field = false) (b : UInt8)
    (bs : List UInt8) :
    r.machine.run s (b :: bs) = (r.step s b).elim .refused fun t => r.machine.run t bs :=
  Machine.run_cons (m := r.machine) hf b bs

/-- Bytes that are stored one by one are stored as a block. -/
theorem Rules.storeAll_block {f : F} {single : Bool} (write : ℕ → List UInt8 → A → Option A)
    (hnil : ∀ pos a, write pos [] a = some a)
    (hcons : ∀ pos b bs a, write pos (b :: bs) a =
      (r.store f single pos b a).bind (write (pos + 1) bs)) (pos : ℕ) (xs : List UInt8) (a : A) :
    r.storeAll f single pos xs a = write pos xs a := by
  induction xs generalizing pos a with
  | nil => exact (hnil pos a).symm
  | cons b bs ih =>
    rw [hcons, Rules.storeAll]
    congr 1
    funext a'
    exact ih (pos + 1) a'

/-- A run over payload bytes that do not reach the end of the field. -/
theorem Rules.run_body_short {f : F} (hf : r.isDone f = false) {isList single : Bool}
    {length pos : ℕ} {xs : List UInt8} (h : pos + xs.length < length) (env : A) :
    r.machine.run ⟨f, env, .body isList single length pos⟩ xs =
      (r.storeAll f single pos xs env).elim .refused fun env =>
        .running ⟨f, env, .body isList single length (pos + xs.length)⟩ := by
  induction xs generalizing pos env with
  | nil => exact Machine.run_nil hf
  | cons b bs ih =>
    simp only [List.length_cons] at h
    rw [Rules.run_cons hf]
    simp only [Rules.step, Rules.feedBody, Rules.storeAll]
    cases r.store f single pos b env with
    | none => rfl
    | some e =>
      simp only [Option.map_some, Option.elim_some, Option.bind_some]
      rw [if_neg (by omega), ih (by omega) e, List.length_cons, Nat.add_assoc, Nat.add_comm 1]

/-- A run over payload bytes that reaches the end of the field. -/
theorem Rules.run_body {f : F} (hf : r.isDone f = false) {isList single : Bool}
    {length pos : ℕ} {body : List UInt8} (hpos : pos < length) (h : pos + body.length = length)
    (rest : List UInt8) (env : A) :
    r.machine.run ⟨f, env, .body isList single length pos⟩ (body ++ rest) =
      (r.storeAll f single pos body env).elim .refused fun env =>
        r.machine.run (r.close f length env) rest := by
  induction body generalizing pos env with
  | nil => simp only [List.length_nil] at h; omega
  | cons b bs ih =>
    simp only [List.length_cons] at h
    rw [List.cons_append, Rules.run_cons hf]
    simp only [Rules.step, Rules.feedBody, Rules.storeAll]
    cases r.store f single pos b env with
    | none => rfl
    | some e =>
      simp only [Option.map_some, Option.elim_some, Option.bind_some]
      by_cases hend : pos + 1 = length
      · have hnil : bs = [] := List.eq_nil_of_length_eq_zero (by omega)
        subst hnil
        simp [hend, Rules.storeAll]
      · rw [if_neg hend, ih (by omega) (by omega) e]

/-- One more header byte that does not complete the header. -/
theorem Rules.step_header {f : F} {got : List UInt8} {b : UInt8}
    (hincomplete : ∀ h, readHeader (got ++ [b]) ≠ .complete h) (env : A) :
    r.step ⟨f, env, .header got⟩ b =
      if got.length + 1 < maxHeaderSize then
        some ⟨f, r.header b env, .header (got ++ [b])⟩ else none := by
  simp only [Rules.step]

/-- Header bytes are collected as long as they do not complete a header. -/
theorem Rules.run_header_short {f : F} (hf : r.isDone f = false) (got : List UInt8)
    {xs : List UInt8}
    (hlength : (got ++ xs).length < maxHeaderSize)
    (hincomplete : ∀ h, readHeader (got ++ xs) ≠ .complete h) (env : A) :
    r.machine.run ⟨f, env, .header got⟩ xs =
      .running ⟨f, r.headers xs env, .header (got ++ xs)⟩ := by
  induction xs generalizing got env with
  | nil => rw [List.append_nil]; exact Machine.run_nil hf
  | cons b bs ih =>
    have hassoc : got ++ b :: bs = got ++ [b] ++ bs := by simp
    rw [hassoc] at hlength hincomplete ⊢
    have hroom : got.length + 1 < maxHeaderSize := by
      simp only [List.length_append, List.length_singleton] at hlength
      omega
    rw [Rules.run_cons hf,
      Rules.step_header (fun h hread => hincomplete h (readHeader_append hread bs)), if_pos hroom]
    exact ih _ hlength hincomplete _

/-- Header bytes that fill the largest header without completing one are refused. -/
theorem Rules.run_header_long {f : F} (hf : r.isDone f = false) (got : List UInt8) {xs : List UInt8}
    (hgot : got.length < maxHeaderSize) (hlength : maxHeaderSize ≤ (got ++ xs).length)
    (hincomplete : ∀ h, readHeader (got ++ xs) ≠ .complete h) (env : A) :
    r.machine.run ⟨f, env, .header got⟩ xs = .refused := by
  induction xs generalizing got env with
  | nil => simp only [List.append_nil] at hlength; omega
  | cons b bs ih =>
    have hassoc : got ++ b :: bs = got ++ [b] ++ bs := by simp
    rw [hassoc] at hlength hincomplete
    rw [Rules.run_cons hf,
      Rules.step_header (fun h hread => hincomplete h (readHeader_append hread bs))]
    by_cases hroom : got.length + 1 < maxHeaderSize
    · rw [if_pos hroom]
      exact ih _ (by simpa using hroom) hlength hincomplete _
    · rw [if_neg hroom]
      rfl

/-- A run over a complete header starts the payload, with the byte that is an
item of its own as its payload. -/
theorem Rules.run_header {f : F} (hf : r.isDone f = false) {xs : List UInt8} {h : Header}
    (hread : readHeader xs = .complete h) (env : A) :
    r.machine.run ⟨f, env, .header []⟩ xs =
      (r.begin f (r.enter (r.headers (xs.take (max 1 h.size)) env)) h.isList (h.size = 0)
        h.length).elim .refused fun t =>
          r.machine.run t (xs.drop (match t.phase with
            | .body .. => h.size
            | .header _ => max 1 h.size)) := by
  obtain ⟨hsize, hmax, hpos, hne⟩ := readHeader_size hread
  have hlen : max 1 h.size ≤ xs.length := by
    have := List.length_pos_iff.mpr hne
    omega
  obtain ⟨k, hk⟩ : ∃ k, max 1 h.size = k + 1 := ⟨max 1 h.size - 1, by omega⟩
  have hkx : k < xs.length := by omega
  have hsplit : xs = xs.take k ++ xs[k] :: xs.drop (k + 1) := by simp
  have htake : xs.take (k + 1) = xs.take k ++ [xs[k]] := by simp
  have hheader := readHeader_take hread
  rw [hk, htake] at hheader ⊢
  conv_lhs => rw [hsplit]
  rw [Machine.run_append, Rules.run_header_short hf []
    (by simp only [List.nil_append, List.length_take, maxHeaderSize]; omega)
    (by rw [List.nil_append]; exact readHeader_take_ne hread (by omega))]
  simp only [Outcome.resume, List.nil_append]
  rw [Rules.run_cons hf]
  simp only [Rules.step, hheader, Rules.headers, List.foldl_append, List.foldl_cons, List.foldl_nil]
  generalize r.enter (r.header xs[k] (List.foldl (fun e b => r.header b e) env (xs.take k))) = e
  simp only [Rules.begin]
  by_cases hadmits : r.admits f h.isList h.length = true
  · by_cases hends : (r.skips f h.length || decide (h.length = 0)) = true
    · simp [hadmits, hends, Rules.close, Rules.feedSingle]
    · simp only [hadmits, hends, Bool.false_eq_true, if_true, if_false, Option.bind_some,
        Option.elim_some]
      by_cases hsingle : h.size = 0
      · have hk0 : k = 0 := by omega
        subst hk0
        simp only [hsingle, decide_true, List.drop_zero]
        conv_rhs => rw [hsplit]
        rw [List.take_zero, List.nil_append, Rules.run_cons hf]
        rfl
      · have hsize' : h.size = k + 1 := by omega
        simp [hsize', Rules.feedSingle]
  · simp [hadmits]

/-- **Reading a field.** A run from the start of a field waits within the field,
refuses a byte of it, or continues with the next field after its last byte. -/
theorem Rules.run_field {f : F} (hf : r.isDone f = false) (env : A) (xs : List UInt8) :
    r.machine.run ⟨f, env, .header []⟩ xs = (r.fieldRun f env xs).outcome r f := by
  have hnone (hread : ∀ h, readHeader xs ≠ .complete h) :
      r.machine.run ⟨f, env, .header []⟩ xs =
        (if xs.length < maxHeaderSize then FieldRun.pending ⟨f, r.headers xs env, .header xs⟩
          else .refused).outcome r f := by
    by_cases hshort : xs.length < maxHeaderSize
    · rw [if_pos hshort]
      exact Rules.run_header_short hf [] hshort hread env
    · rw [if_neg hshort]
      exact Rules.run_header_long hf [] (by decide) (by simpa using hshort) hread env
  cases hread : readHeader xs with
  | incomplete => simpa only [Rules.fieldRun, hread] using hnone (by simp [hread])
  | unsupported => simpa only [Rules.fieldRun, hread] using hnone (by simp [hread])
  | complete h =>
    obtain ⟨hsize, -, hpos, -⟩ := readHeader_size hread
    rw [Rules.run_header hf hread]
    simp only [Rules.fieldRun, hread, Rules.begin]
    generalize r.start f h.length (r.enter (r.headers (xs.take (max 1 h.size)) env)) = e
    by_cases hadmits : r.admits f h.isList h.length = true
    swap
    · simp [hadmits, FieldRun.outcome]
    by_cases hskips : r.skips f h.length = true
    · simp [hadmits, hskips, FieldRun.outcome, Rules.close]
    have hskips' : r.skips f h.length = false := by simpa using hskips
    by_cases hempty : h.length = 0
    · have hmax : max 1 h.size = h.size := by omega
      rw [hempty] at hadmits hskips' ⊢
      have hnshort : ¬xs.length < h.size := by omega
      simp [hadmits, hskips', hmax, hnshort, Rules.storeAll, FieldRun.outcome, Rules.close]
    simp only [hadmits, hskips', hempty, decide_false, Bool.or_false, Bool.false_eq_true, if_true,
      if_false, Option.elim_some]
    by_cases hshort : xs.length < h.size + h.length
    · rw [if_pos hshort, Rules.run_body_short hf (by simp only [List.length_drop]; omega)]
      cases r.storeAll f (decide (h.size = 0)) 0 (xs.drop h.size) e with
      | none => rfl
      | some e' => simp [FieldRun.outcome]
    · rw [if_neg hshort]
      conv_lhs => rw [← List.take_append_drop h.length (xs.drop h.size)]
      rw [Rules.run_body hf (by omega) (by simp only [List.length_take, List.length_drop]; omega)]
      cases r.storeAll f (decide (h.size = 0)) 0 ((xs.drop h.size).take h.length) e with
      | none => rfl
      | some e' => simp [FieldRun.outcome, Rules.close, List.drop_drop]

end Rlp
