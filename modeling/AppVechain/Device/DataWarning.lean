import AppVechain.Device.Lifecycle
import AppVechain.Ustream.FieldsLayout

/-!
# The warning for data

A transaction with data is refused or shown with a warning, unless its first
clause is the transfer of a known token. The flag for this is read through a
pointer into a block that was left, for all clauses but the first.
-/

namespace AppVechain

open Rlp Streaming

/-- With the setting off, a transaction whose data flag is set is not accepted. -/
theorem handleSign_refuses_data {platform : Platform} {settings : Settings} {G : ApduBuffer}
    {d parsed : Device} (hparse : signParse platform G d = .inr parsed)
    (hflag : parsed.clausesContent.dataPresent = true) (hsetting : settings.dataAllowed = false) :
    ∃ d', handleSign platform settings G d = .throw [] HW_INCORRECT_DATA d' := by
  have hchecks : ∃ d', signChecks platform settings parsed =
      .inl (.throw [] HW_INCORRECT_DATA d') := by
    refine ⟨_, if_pos ?_⟩
    rw [hsetting, Bool.not_false, Bool.and_true]
    exact hflag
  obtain ⟨d', hd'⟩ := hchecks
  refine ⟨d', ?_⟩
  rw [handleSign, signAccept, hparse]
  simp only [hd']

/-- Whatever its cuts and the storage, the parser finishes with the flag set if and only if
some clause has data, and then the transaction is refused when data are not allowed. -/
def DataLayout.FlagExact (l : DataLayout) : Prop :=
  ∀ (scratch : Scratch) (env : TxEnv) (chunks : List (List UInt8)), chunks.flatten = l.bytes →
    ∃ s, processTxChunks scratch (initTx env) chunks = (.returned .finished s, l.bytes) ∧
      (s.env.view.dataPresent = true ↔ ∃ data ∈ l.datas, data ≠ []) ∧
      ((∃ data ∈ l.datas, data ≠ []) →
        ∀ (platform : Platform) (settings : Settings) (G : ApduBuffer) (d parsed : Device),
          settings.dataAllowed = false → signParse platform G d = .inr parsed → parsed.tx = s →
          ∃ d', handleSign platform settings G d = .throw [] HW_INCORRECT_DATA d')

/-- Some flag is set if and only if there is some data. -/
theorem any_ne_nil (datas : List (List UInt8)) :
    (datas.map fun data => decide (data ≠ [])).any id = true ↔ ∃ data ∈ datas, data ≠ [] := by
  simp

/-- An empty string and an empty list. -/
def Item.emptyString : Item := ⟨false, [0x80], [], rfl⟩
def Item.emptyList : Item := ⟨true, [0xc0], [], rfl⟩

/-- Three hundred bytes of data, as they are encoded. -/
def longData : Item := ⟨false, [0xb9, 0x01, 0x2c], List.replicate 300 0x01, by decide +kernel⟩

/-- Two clauses: the first has no data, the second one has more than a command brings. -/
def secondWithData : DataLayout where
  outer := [0xf9, 0x01, 0x43]
  declared := 323
  outer_header := by decide +kernel
  items := {
    chainTag := Item.emptyString
    blockRef := Item.emptyString
    expiration := Item.emptyString
    clauses := ⟨true, [0xf9, 0x01, 0x38],
      [0xc3, 0x80, 0x80, 0x80, 0xf9, 0x01, 0x31, 0x80, 0x80] ++ longData.bytes, by decide +kernel⟩
    gasPriceCoef := Item.emptyString
    gas := Item.emptyString
    dependsOn := Item.emptyString
    nonce := Item.emptyString
    reserved := Item.emptyList }
  admitted := by constructor <;> decide +kernel
  datas := [[], longData.payload]
  clauseItems := [⟨true, [0xc3], [0x80, 0x80, 0x80], rfl⟩,
    ⟨true, [0xf9, 0x01, 0x31], [0x80, 0x80] ++ longData.bytes, by decide +kernel⟩]
  clauses_payload := by decide +kernel
  carry := by
    refine .cons ⟨[], [], rfl, Item.emptyString, Item.emptyString, Item.emptyString, [], ?_⟩
      (.cons ⟨[], [], rfl, Item.emptyString, Item.emptyString, longData, [], ?_⟩ .nil)
    · decide
    · decide +kernel

/-- The chunks in which three commands bring it: the header of the data comes with the first one,
and the end of their clause with the last. -/
def secondWithDataChunks : List (List UInt8) :=
  [secondWithData.bytes.take 100, (secondWithData.bytes.drop 100).take 120,
    secondWithData.bytes.drop 220]

/-- A clause, written over a cleared one, is the transfer of a known token. -/
def ClauseFields.TransfersToken (f : ClauseFields) : Prop :=
  ((f.over .zero).token?).isSome = true

instance (f : ClauseFields) : Decidable f.TransfersToken := by
  unfold ClauseFields.TransfersToken
  infer_instance

/-- When a transaction with these bytes was parsed in a new session and passes the checks, and
the flow without the warning is chosen, only the first clause has data, if any, and
then it is the transfer of a known token. -/
def FieldsLayout.Warns (l : FieldsLayout) (scratch : Scratch) : Prop :=
  ∀ (env : TxEnv) (chunks : List (List UInt8)) (s : TxState),
    env.clauses.env.firstClause = .zero → chunks.flatten = l.bytes →
    processTxChunks scratch (initTx env) chunks = (.returned .finished s, l.bytes) →
    ∀ (platform : Platform) (settings : Settings) (parsed checked : Device), parsed.tx = s →
      signChecks platform settings parsed = .inr checked →
      (recognizeToken checked).device.dataPresent = false →
      (∀ f ∈ l.fields.tail, f.data = []) ∧
        ∀ f ∈ l.fields.head?, f.data = [] ∨ f.TransfersToken

/-- With all settings on the checks pass. -/
theorem signChecks_allowed (platform : Platform) (parsed : Device) :
    ∃ checked, signChecks platform ⟨true, true⟩ parsed = .inr checked := by
  unfold signChecks
  simp

/-- The warning for data is chosen by the flag, unless a token is recognised. -/
theorem recognizeToken_dataPresent (d : Device) :
    (recognizeToken d).device.dataPresent =
      (d.dataPresent && !d.clauseContent.token?.isSome) := by
  unfold recognizeToken
  cases hflag : d.dataPresent with
  | false =>
    simp only [Bool.false_eq_true, if_false, Bool.false_and]
    exact hflag
  | true =>
    simp only [if_true, Bool.true_and]
    cases d.clauseContent.token? with
    | none => exact hflag
    | some token => rfl

/-- The choice of the flow for a parsed transaction. -/
theorem FieldsLayout.warning_eq (l : FieldsLayout) (hlength : l.fields.length ≤ 255)
    {scratch : Scratch} {env : TxEnv} {chunks : List (List UInt8)} {s : TxState}
    (hfirst : env.clauses.env.firstClause = .zero) (hchunks : chunks.flatten = l.bytes)
    (hsession : processTxChunks scratch (initTx env) chunks = (.returned .finished s, l.bytes))
    {platform : Platform} {settings : Settings} {parsed checked : Device} (hs : parsed.tx = s)
    (hchecks : signChecks platform settings parsed = .inr checked) :
    (recognizeToken checked).device.dataPresent =
      ((readFlags scratch 0 l.flags).any id &&
        !l.displayed.token?.isSome) := by
  obtain ⟨s', hsession', hview⟩ := l.session (by omega) scratch env hchunks
  rw [hsession] at hsession'
  cases hsession'
  rw [hfirst] at hview
  rw [signChecks_passed hchecks]
  have hdata : (parsed.checked platform).dataPresent = s.env.view.dataPresent := by
    rw [← hs]
    rfl
  have hclause : (parsed.checked platform).clauseContent = s.env.view.firstClause := by
    rw [← hs]
    rfl
  rw [recognizeToken_dataPresent, hdata, hclause, hview]
  rfl

/-- The fields of a transfer of ten units of the first token to an address of ones, and those
of a clause with a byte of data. -/
def tokenFields : ClauseFields where
  toAddress := [0, 0, 0, 0, 0, 0, 0, 0, 0, 0, 0, 0, 0, 0, 0x45, 0x6e, 0x65, 0x72, 0x67, 0x79]
  value := []
  data := TOKEN_TRANSFER_ID ++ List.replicate 12 0 ++ List.replicate 20 1 ++
    List.replicate 31 0 ++ [10]
def dataFields : ClauseFields := ⟨[], [], [1]⟩

/-- The transfer of a known token, followed by a clause with data. -/
def tokenThenData : FieldsLayout where
  outer := [0xf8, 108]
  declared := 108
  outer_header := by decide +kernel
  items := {
    chainTag := Item.emptyString
    blockRef := Item.emptyString
    expiration := Item.emptyString
    clauses := ⟨true, [0xf8, 98],
      [0xf8, 92, 0x94] ++ tokenFields.toAddress ++ [0x80, 0xb8, 68] ++ tokenFields.data ++
        [0xc3, 0x80, 0x80, 0x01], by decide +kernel⟩
    gasPriceCoef := Item.emptyString
    gas := Item.emptyString
    dependsOn := Item.emptyString
    nonce := Item.emptyString
    reserved := Item.emptyList }
  admitted := by constructor <;> decide +kernel
  fields := [tokenFields, dataFields]
  clauseItems := [⟨true, [0xf8, 92],
      [0x94] ++ tokenFields.toAddress ++ [0x80, 0xb8, 68] ++ tokenFields.data, by decide +kernel⟩,
    ⟨true, [0xc3], [0x80, 0x80, 0x01], rfl⟩]
  clauses_payload := by decide +kernel
  carry := by
    refine .cons ⟨rfl, ⟨false, [0x94], tokenFields.toAddress, by decide +kernel⟩, Item.emptyString,
      ⟨false, [0xb8, 68], tokenFields.data, by decide +kernel⟩, [], ?_⟩
      (.cons ⟨rfl, Item.emptyString, Item.emptyString, ⟨false, [], [0x01], rfl⟩, [], ?_⟩ .nil)
    · decide +kernel
    · decide +kernel

end AppVechain
