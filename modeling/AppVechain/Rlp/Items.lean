import AppVechain.Rlp.Fields

/-!
# Items and records

An `Item` is a complete RLP item with its bytes as they were written; the
encoding need not be canonical. Bytes split into the items at their front and a
remainder in which no item is complete. A run of the field machine reads an item
in one step (`Rules.run_item`), and a run that ends a record has read one item
for every field (`Rules.run_record`).
-/

namespace Rlp

open Streaming

/-- A complete item, with its header and payload as written. -/
structure Item where
  isList : Bool
  header : List UInt8
  payload : List UInt8
  valid : readHeader (header ++ payload) = .complete ⟨isList, payload.length, header.length⟩
  deriving DecidableEq

/-- The bytes of an item. -/
def Item.bytes (i : Item) : List UInt8 := i.header ++ i.payload

/-- The item is a single byte without a header. -/
def Item.single (i : Item) : Bool := i.header.length = 0

/-- The bytes that are read as a header. A single byte stands for its header. -/
def Item.headerBytes (i : Item) : List UInt8 := i.bytes.take (max 1 i.header.length)

/-- Bytes after an item do not change its header. -/
theorem Item.readHeader_bytes_append (i : Item) (rest : List UInt8) :
    readHeader (i.bytes ++ rest) = .complete ⟨i.isList, i.payload.length, i.header.length⟩ :=
  readHeader_append i.valid rest

/-- An item has at least one byte. -/
theorem Item.bytes_length_pos (i : Item) : 0 < i.bytes.length := by
  obtain ⟨-, -, -, hne⟩ := readHeader_size i.valid
  exact List.length_pos_iff.mpr hne

/-- The item that a complete header and enough bytes make. -/
theorem readHeader_item {xs : List UInt8} {h : Header} (hread : readHeader xs = .complete h)
    (hlength : h.size + h.length ≤ xs.length) :
    readHeader (xs.take h.size ++ (xs.drop h.size).take h.length) =
      .complete ⟨h.isList, ((xs.drop h.size).take h.length).length, (xs.take h.size).length⟩ := by
  obtain ⟨hsize, -, hpos, -⟩ := readHeader_size hread
  have hpayload : ((xs.drop h.size).take h.length).length = h.length := by
    rw [List.length_take, List.length_drop]
    omega
  have hheader : (xs.take h.size).length = h.size := by
    rw [List.length_take]
    omega
  rw [hpayload, hheader, ← List.take_add]
  have hmax : max 1 h.size ≤ h.size + h.length := by omega
  obtain ⟨k, hk⟩ := Nat.exists_eq_add_of_le hmax
  rw [hk, List.take_add]
  exact readHeader_append (readHeader_take hread) _

/-- Split the item at the front off, if it is complete. -/
def splitItem (xs : List UInt8) : Option (Item × List UInt8) :=
  match hread : readHeader xs with
  | .complete h =>
    if hlength : h.size + h.length ≤ xs.length then
      some (⟨h.isList, xs.take h.size, (xs.drop h.size).take h.length,
        readHeader_item hread hlength⟩, xs.drop (h.size + h.length))
    else none
  | _ => none

/-- An item is split off the bytes it is at the front of. -/
theorem splitItem_bytes_append (i : Item) (rest : List UInt8) :
    splitItem (i.bytes ++ rest) = some (i, rest) := by
  have hread := i.readHeader_bytes_append rest
  unfold splitItem
  split
  · rename_i h hread'
    rw [hread] at hread'
    cases hread'
    have hlength : i.header.length + i.payload.length ≤ (i.bytes ++ rest).length := by
      simp only [Item.bytes, List.length_append]
      omega
    rw [dif_pos hlength]
    obtain ⟨isList, header, payload, valid⟩ := i
    have hrest : (header ++ (payload ++ rest)).drop (header.length + payload.length) = rest := by
      rw [← List.append_assoc, List.drop_left' (List.length_append ..)]
    simp only [Item.bytes, hrest, List.append_assoc, List.take_left', List.drop_left']
  · rename_i hne
    exact absurd hread (hne _)

/-- What is split off and what is left make up the bytes. -/
theorem splitItem_some {xs rest : List UInt8} {i : Item} (h : splitItem xs = some (i, rest)) :
    xs = i.bytes ++ rest := by
  unfold splitItem at h
  split at h
  · split_ifs at h with hlength
    simp only [Option.some.injEq, Prod.mk.injEq] at h
    obtain ⟨rfl, rfl⟩ := h
    simp only [Item.bytes]
    rw [← List.take_add, List.take_append_drop]
  · simp at h

/-- The items at the front of some bytes, with a bound on their number. -/
def splitItemsUpTo : ℕ → List UInt8 → List Item × List UInt8
  | 0, xs => ([], xs)
  | n + 1, xs =>
    match splitItem xs with
    | none => ([], xs)
    | some (i, rest) => ((splitItemsUpTo n rest).1.cons i, (splitItemsUpTo n rest).2)

/-- The complete items at the front of some bytes, and the remainder. -/
def splitItems (xs : List UInt8) : List Item × List UInt8 := splitItemsUpTo xs.length xs

/-- The bytes of a sequence of items. -/
def itemsBytes (items : List Item) : List UInt8 := items.flatMap Item.bytes

/-- Items in front of other items. -/
theorem itemsBytes_cons (i : Item) (items : List Item) :
    itemsBytes (i :: items) = i.bytes ++ itemsBytes items := rfl

/-- As many items in front of other bytes are found again. -/
theorem itemsBytes_append_inj {items items' : List Item} (hlength : items.length = items'.length)
    {rest rest' : List UInt8} (h : itemsBytes items ++ rest = itemsBytes items' ++ rest') :
    items = items' ∧ rest = rest' := by
  induction items generalizing items' with
  | nil =>
    obtain rfl := List.length_eq_zero_iff.mp hlength.symm
    exact ⟨rfl, h⟩
  | cons i items ih =>
    cases items' with
    | nil => cases hlength
    | cons i' items' =>
      rw [itemsBytes_cons, itemsBytes_cons, List.append_assoc, List.append_assoc] at h
      have hsplit := splitItem_bytes_append i (itemsBytes items ++ rest)
      rw [h, splitItem_bytes_append, Option.some.injEq, Prod.mk.injEq] at hsplit
      obtain ⟨rfl, hrest⟩ := hsplit
      obtain ⟨rfl, rfl⟩ := ih (Nat.succ.inj hlength) hrest.symm
      exact ⟨rfl, rfl⟩

/-- A larger bound splits off the same items. -/
theorem splitItemsUpTo_of_le {n : ℕ} {items : List Item} {rest : List UInt8}
    (hrest : splitItem rest = none) (hn : items.length ≤ n) :
    splitItemsUpTo n (itemsBytes items ++ rest) = (items, rest) := by
  induction items generalizing n with
  | nil =>
    cases n with
    | zero => rfl
    | succ n => simp only [itemsBytes, List.flatMap_nil, List.nil_append, splitItemsUpTo, hrest]
  | cons i items ih =>
    obtain ⟨n, rfl⟩ :=
      Nat.exists_eq_add_of_le' (show 1 ≤ n by simp only [List.length_cons] at hn; omega)
    simp only [List.length_cons, Nat.add_le_add_iff_right] at hn
    rw [itemsBytes_cons, List.append_assoc]
    simp only [splitItemsUpTo, splitItem_bytes_append, ih hn]

/-- There are at least as many bytes as items. -/
theorem length_le_itemsBytes (items : List Item) : items.length ≤ (itemsBytes items).length := by
  induction items with
  | nil => simp
  | cons i items ih =>
    have := i.bytes_length_pos
    rw [itemsBytes_cons, List.length_append, List.length_cons]
    omega

/-- Items followed by bytes without a complete item are what is split off. -/
theorem splitItems_itemsBytes (items : List Item) (rest : List UInt8)
    (hrest : splitItem rest = none) : splitItems (itemsBytes items ++ rest) = (items, rest) := by
  have hlength := length_le_itemsBytes items
  exact splitItemsUpTo_of_le hrest (by rw [List.length_append]; omega)

/-- Bytes are made up of the items split off and the remainder, which holds none. -/
theorem exists_items (xs : List UInt8) :
    ∃ items rest, xs = itemsBytes items ++ rest ∧ splitItem rest = none := by
  induction hn : xs.length using Nat.strong_induction_on generalizing xs with
  | _ n ih =>
    cases hsplit : splitItem xs with
    | none => exact ⟨[], xs, rfl, hsplit⟩
    | some pair =>
      obtain ⟨i, ys⟩ := pair
      have hxs := splitItem_some hsplit
      have hpos := i.bytes_length_pos
      have hlt : ys.length < n := by
        rw [← hn, hxs, List.length_append]
        omega
      obtain ⟨items, rest, hys, hrest⟩ := ih _ hlt ys rfl
      exact ⟨i :: items, rest, by rw [hxs, hys, itemsBytes_cons, List.append_assoc], hrest⟩

variable {F A : Type}

/-- Read a complete item as a field. -/
def Rules.readItem (r : Rules F A) (f : F) (i : Item) (a : A) : Option A :=
  if r.admits f i.isList i.payload.length then
    (r.storeAll f i.single 0 i.payload
      (r.start f i.payload.length (r.enter (r.headers i.headerBytes a)))).map
        (r.finish f i.payload.length)
  else none

variable {r : Rules F A}

/-- **Reading an item.** A field that reads its payload reads a complete item in one step. -/
theorem Rules.run_item {f : F} (hf : r.isDone f = false) (i : Item)
    (hskips : r.skips f i.payload.length = false) (a : A) (rest : List UInt8) :
    r.machine.run ⟨f, a, .header []⟩ (i.bytes ++ rest) =
      (r.readItem f i a).elim .refused fun a =>
        r.machine.run ⟨r.next f, a, .header []⟩ rest := by
  have hlength : ¬(i.bytes ++ rest).length < i.header.length + i.payload.length := by
    simp only [Item.bytes, List.length_append]
    omega
  have hmax : max 1 i.header.length ≤ i.bytes.length := by
    have := i.bytes_length_pos
    simp only [Item.bytes, List.length_append] at this ⊢
    omega
  have hpayload : ((i.bytes ++ rest).drop i.header.length).take i.payload.length = i.payload := by
    simp [Item.bytes, List.append_assoc]
  have hrest : (i.bytes ++ rest).drop (i.header.length + i.payload.length) = rest := by
    rw [Item.bytes, List.drop_left' (List.length_append ..)]
  rw [Rules.run_field hf]
  simp only [Rules.fieldRun, i.readHeader_bytes_append rest, Rules.readItem]
  rw [if_neg hlength, hpayload, hrest, List.take_append_of_le_length hmax]
  by_cases hadmits : r.admits f i.isList i.payload.length = true
  · simp only [hadmits, hskips, if_true, Bool.false_eq_true, if_false,
      Item.single, Item.headerBytes]
    cases r.storeAll f (decide (i.header.length = 0)) 0 i.payload
      (r.start f i.payload.length
        (r.enter (r.headers (i.bytes.take (max 1 i.header.length)) a))) <;> rfl
  · simp only [hadmits, Bool.false_eq_true, if_false, Option.elim_none]
    rfl

/-- Bytes without a complete item that have a complete header end within its payload. -/
theorem splitItem_eq_none {xs : List UInt8} {h : Header} (hread : readHeader xs = .complete h) :
    splitItem xs = none ↔ xs.length < h.size + h.length := by
  unfold splitItem
  split
  · rename_i h' hread'
    rw [hread] at hread'
    cases hread'
    by_cases hlength : h.size + h.length ≤ xs.length
    · simp only [hlength, dif_pos, reduceCtorEq, false_iff, not_lt]
    · simp only [hlength, dif_neg, not_false_eq_true, true_iff]
      omega
  · rename_i hne
    exact absurd hread (hne h)

/-- A payload that is cut off is read as far as it goes. -/
theorem Rules.run_cut {f : F} (hf : r.isDone f = false) {xs : List UInt8} {h : Header}
    (hread : readHeader xs = .complete h) (hsplit : splitItem xs = none)
    (hskips : r.skips f h.length = false) (a : A) :
    r.machine.run ⟨f, a, .header []⟩ xs =
      if r.admits f h.isList h.length then
        (r.storeAll f (h.size = 0) 0 (xs.drop h.size)
          (r.start f h.length (r.enter (r.headers (xs.take (max 1 h.size)) a)))).elim .refused
            fun a => .running ⟨f, a, .body h.isList (h.size = 0) h.length (xs.length - h.size)⟩
      else .refused := by
  have hshort := (splitItem_eq_none hread).mp hsplit
  rw [Rules.run_field hf]
  simp only [Rules.fieldRun, hread, hskips, hshort, if_true, Bool.false_eq_true, if_false]
  by_cases hadmits : r.admits f h.isList h.length = true
  · simp only [hadmits, if_true]
    cases r.storeAll f (decide (h.size = 0)) 0 (xs.drop h.size)
      (r.start f h.length (r.enter (r.headers (xs.take (max 1 h.size)) a))) <;> rfl
  · simp only [hadmits, Bool.false_eq_true, if_false]
    rfl

/-- A header that is cut off is kept as far as it goes. -/
theorem Rules.run_no_header {f : F} (hf : r.isDone f = false) {xs : List UInt8}
    (hread : ∀ h, readHeader xs ≠ .complete h) (a : A) :
    r.machine.run ⟨f, a, .header []⟩ xs =
      if xs.length < maxHeaderSize then .running ⟨f, r.headers xs a, .header xs⟩ else .refused := by
  rw [Rules.run_field hf]
  cases hcase : readHeader xs with
  | complete h => exact absurd hcase (hread h)
  | incomplete => simp only [Rules.fieldRun, hcase]; split <;> rfl
  | unsupported => simp only [Rules.fieldRun, hcase]; split <;> rfl

/-- Without a complete item a field that reads its payload does not end. -/
theorem Rules.run_no_item {f : F} (hf : r.isDone f = false)
    (hskips : ∀ length, r.skips f length = false) {xs : List UInt8} (hsplit : splitItem xs = none)
    (a : A) :
    r.machine.run ⟨f, a, .header []⟩ xs = .refused ∨
      ∃ s, s.field = f ∧ r.machine.run ⟨f, a, .header []⟩ xs = .running s := by
  by_cases hread : ∃ h, readHeader xs = .complete h
  · obtain ⟨h, hread⟩ := hread
    rw [Rules.run_cut hf hread hsplit (hskips _)]
    by_cases hadmits : r.admits f h.isList h.length = true
    · rw [if_pos hadmits]
      cases r.storeAll f (decide (h.size = 0)) 0 (xs.drop h.size)
        (r.start f h.length (r.enter (r.headers (xs.take (max 1 h.size)) a))) with
      | none => exact .inl rfl
      | some a' => exact .inr ⟨_, rfl, rfl⟩
    · exact .inl (if_neg hadmits)
  · rw [Rules.run_no_header hf (fun h hcase => hread ⟨h, hcase⟩)]
    by_cases hlength : xs.length < maxHeaderSize
    · exact .inr ⟨_, rfl, if_pos hlength⟩
    · exact .inl (if_neg hlength)

/-- The fields of a record from a field on, in order. -/
def Rules.fieldsFrom (r : Rules F A) : ℕ → F → List F
  | 0, _ => []
  | n + 1, f => f :: r.fieldsFrom n (r.next f)

/-- Read complete items as the fields of a record. -/
def Rules.readItems (r : Rules F A) : F → List Item → A → Option A
  | _, [], a => some a
  | f, i :: items, a => (r.readItem f i a).bind (r.readItems (r.next f) items)

/-- **Reading a record.** A run that ends a record has read one item for every field. -/
theorem Rules.run_record {n : ℕ} {f : F}
    (hfields : ∀ g ∈ r.fieldsFrom n f, r.isDone g = false ∧ ∀ length, r.skips g length = false)
    (hdone : r.isDone (r.next^[n] f) = true) {a : A} {xs unread : List UInt8} {s : FieldState F A}
    (hrun : r.machine.run ⟨f, a, .header []⟩ xs = .halted s unread) :
    ∃ items, items.length = n ∧ xs = itemsBytes items ++ unread ∧
      r.readItems f items a = some s.env := by
  induction n generalizing f a xs with
  | zero =>
    have hdone' : r.machine.halted ⟨f, a, .header []⟩ = true := hdone
    rw [Machine.run_of_halted hdone'] at hrun
    cases hrun
    exact ⟨[], rfl, rfl, rfl⟩
  | succ n ih =>
    obtain ⟨hf, hskips⟩ := hfields f (List.mem_cons_self ..)
    cases hsplit : splitItem xs with
    | none =>
      obtain h | ⟨t, -, h⟩ := Rules.run_no_item hf hskips hsplit a
      · rw [h] at hrun
        cases hrun
      · rw [h] at hrun
        cases hrun
    | some pair =>
      obtain ⟨i, rest⟩ := pair
      obtain rfl := splitItem_some hsplit
      rw [Rules.run_item hf i (hskips _)] at hrun
      cases hread : r.readItem f i a with
      | none =>
        rw [hread] at hrun
        cases hrun
      | some a' =>
        rw [hread] at hrun
        obtain ⟨items, hlength, hrest, hitems⟩ :=
          ih (fun g hg => hfields g (List.mem_cons_of_mem f hg)) hdone hrun
        exact ⟨i :: items, by rw [List.length_cons, hlength],
          by rw [hrest, itemsBytes_cons, List.append_assoc],
          by rw [Rules.readItems, hread]; exact hitems⟩

/-- A run over one item for every field ends the record. -/
theorem Rules.run_itemsBytes {f : F} {items : List Item}
    (hfields : ∀ g ∈ r.fieldsFrom items.length f,
      r.isDone g = false ∧ ∀ length, r.skips g length = false) (a : A) (rest : List UInt8) :
    r.machine.run ⟨f, a, .header []⟩ (itemsBytes items ++ rest) =
      (r.readItems f items a).elim .refused fun a =>
        r.machine.run ⟨r.next^[items.length] f, a, .header []⟩ rest := by
  induction items generalizing f a with
  | nil => rfl
  | cons i items ih =>
    obtain ⟨hf, hskips⟩ := hfields f (List.mem_cons_self ..)
    rw [itemsBytes_cons, List.append_assoc, Rules.run_item hf i (hskips _), Rules.readItems]
    cases r.readItem f i a with
    | none => rfl
    | some a' => exact ih (fun g hg => hfields g (List.mem_cons_of_mem f hg)) a'

end Rlp
