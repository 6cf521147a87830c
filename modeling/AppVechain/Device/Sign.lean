import AppVechain.Device.Bip32Path

/-!
# Signing a transaction

`handleSign` of `src/main.c`, cut at the places where a transaction may be
refused: the initialisation of the parser, the call of the parser, the checks of
the settings, the recognition of tokens, and the display. The tokens are those of
`src/tokens.c`.
-/

namespace AppVechain

/-- `tokenDefinition_t` -/
structure TokenDefinition where
  address : Vector UInt8 20
  ticker : List UInt8
  decimals : UInt8
  deriving DecidableEq

/-- A string literal in an array of six bytes. -/
def tickerArray (literal : String) : List UInt8 := (cString literal ++ List.replicate 6 0).take 6

/-- `TOKENS` -/
def TOKENS : List TokenDefinition := [
  ⟨#v[0x00, 0x00, 0x00, 0x00, 0x00, 0x00, 0x00, 0x00, 0x00, 0x00,
      0x00, 0x00, 0x00, 0x00, 0x45, 0x6e, 0x65, 0x72, 0x67, 0x79], tickerArray "VTHO ", 18⟩,
  ⟨#v[0x0c, 0xe6, 0x66, 0x1b, 0x4b, 0xa8, 0x6a, 0x0e, 0xa7, 0xca,
      0x2b, 0xd8, 0x6a, 0x0d, 0xe8, 0x7b, 0x0b, 0x86, 0x0f, 0x14], tickerArray "OCE ", 18⟩,
  ⟨#v[0x89, 0x82, 0x7f, 0x7b, 0xb9, 0x51, 0xfd, 0x8a, 0x56, 0xf8,
      0xef, 0x13, 0xc5, 0xbf, 0xee, 0x38, 0x52, 0x2f, 0x2e, 0x1f], tickerArray "PLA ", 18⟩,
  ⟨#v[0x1b, 0x8e, 0xc6, 0xc2, 0xa4, 0x5c, 0xca, 0x48, 0x1d, 0xa6,
      0xf2, 0x43, 0xdf, 0x0d, 0x7a, 0x57, 0x44, 0xaf, 0xc1, 0xf8], tickerArray "DBET ", 18⟩,
  ⟨#v[0xb6, 0x9d, 0xed, 0x9f, 0x0d, 0xa1, 0x5d, 0x24, 0x0e, 0xe6,
      0x80, 0x3d, 0xac, 0xd7, 0xfc, 0xf6, 0x87, 0x44, 0xe8, 0xff], tickerArray "VET+ ", 18⟩,
  ⟨#v[0x5d, 0xb3, 0xc8, 0xa9, 0x42, 0x33, 0x3f, 0x64, 0x68, 0x17,
      0x6a, 0x87, 0x0d, 0xb3, 0x6e, 0xef, 0x12, 0x0a, 0x34, 0xdc], tickerArray "SHA ", 18⟩,
  ⟨#v[0x46, 0x20, 0x9d, 0x5e, 0x5a, 0x49, 0xc1, 0xd4, 0x03, 0xf4,
      0xee, 0x3a, 0x0a, 0x88, 0xc3, 0xa2, 0x7e, 0x29, 0xe5, 0x8d], tickerArray "JUR ", 18⟩]

/-- `TOKEN_TRANSFER_ID` -/
def TOKEN_TRANSFER_ID : List UInt8 := [0xa9, 0x05, 0x9c, 0xbb]

/-- `P1_FIRST` clears the clauses, reads the path and initialises the parser; any other
value than `P1_MORE` is refused. -/
def signBegin (G : ApduBuffer) (d : Device) : Ending ⊕ Work :=
  if G.p1 = P1_FIRST then
    match beginPath G (d.setClauses ⟨0, false⟩ .zero) with
    | .inl ending => .inl ending
    | .inr w => .inr { w with device := { w.device with
        dataPresent := false
        tx := initTx w.device.tx.env
        feeComputationContext := none
        session := w.device.session + 1 } }
  else if G.p1 ≠ P1_MORE then .inl (.throw [] HW_INCORRECT_P1_P2 d)
  else .inr ⟨d, OFFSET_CDATA, G.lc.toUInt16⟩

/-- The checks before the parser is called. `currentField` of the transaction lies over
the most significant half of `baseGasPrice` in the union. -/
def signInitialized (G : ApduBuffer) (d : Device) : Option Ending :=
  if G.p2 ≠ 0 then some (.throw [] HW_INCORRECT_P1_P2 d)
  else
    match d.feeComputationContext with
    | some fee =>
      if fee.baseGasPrice.upper.upper = 0 then some (.throw [] HW_SW_TRANSACTION_CANCELLED d)
      else some (.stuck .overlaid)
    | none =>
      if d.tx.currentField = .none then some (.throw [] HW_SW_TRANSACTION_CANCELLED d)
      else if d.tx.env.clauses.currentField = .none then
        some (.throw [] HW_SW_TRANSACTION_CANCELLED d)
      else none

/-- The call of the parser; the handler goes on when the transaction is complete. -/
def signParse (platform : Platform) (G : ApduBuffer) (d : Device) : Ending ⊕ Device :=
  match signBegin G d with
  | .inl ending => .inl ending
  | .inr w =>
    match signInitialized G w.device with
    | some ending => .inl ending
    | none =>
      match processTx (platform.scratch w.device.session) w.device.tx
          (G.bytes w.workBuffer w.dataLength.toNat) with
      | .returned .finished tx => .inr { w.device with tx := tx }
      | .returned .processing tx => .inl (.throw [] HW_OK { w.device with tx := tx })
      | .returned .fault tx => .inl (.throw [] HW_INCORRECT_DATA { w.device with tx := tx })
      | .stuck e => .inl (.stuck e)

/-- `clausesContent.clausesLength > 1` -/
def Device.hasMultipleClauses (d : Device) : Bool := d.clausesContent.clausesLength > 1

/-- The hash is stored, and the settings are checked. -/
def signChecks (platform : Platform) (settings : Settings) (d : Device) : Ending ⊕ Device :=
  let d := { d with tmpCtx := { d.tmpCtx with hash := platform.blake2b256 d.blake2b } }
  let d := { d with dataPresent := d.clausesContent.dataPresent }
  if d.dataPresent && !settings.dataAllowed then .inl (.throw [] HW_INCORRECT_DATA d)
  else
    let d := { d with multipleClauses := d.hasMultipleClauses }
    if d.multipleClauses && !settings.multiClauseAllowed then .inl (.throw [] HW_INCORRECT_DATA d)
    else .inr d

/-- A transaction that is about to be displayed. -/
structure Shown where
  device : Device
  ticker : List UInt8
  decimals : UInt8

/-- The recipient and the amount of a token transfer are moved over those of its clause. -/
def ClauseContent.moveToken (c : ClauseContent) : ClauseContent :=
  { c with
    toLength := 20
    toAddress := writeBytes c.toAddress 0 ((c.data.toList.drop (4 + 12)).take 20)
    value := ⟨writeBytes c.value.value 0 ((c.data.toList.drop (4 + 32)).take 32), 32⟩ }

/-- The entry of `TOKENS` that a clause calls. -/
def ClauseContent.token? (c : ClauseContent) : Option TokenDefinition :=
  if c.data.toList.take 4 = TOKEN_TRANSFER_ID then
    TOKENS.find? fun token => token.address = c.toAddress
  else none

/-- A transfer of a known token is displayed as such, without the warning for data. -/
def recognizeToken (d : Device) : Shown :=
  match if d.dataPresent then d.clauseContent.token? else none with
  | some token =>
    ⟨{ d.setClauses d.clausesContent d.clauseContent.moveToken with dataPresent := false },
      token.ticker, token.decimals⟩
  | none => ⟨d, TICKER_VET, DECIMALS_VET⟩

/-- The statements of `handleSign` up to the display. -/
def signAccept (platform : Platform) (settings : Settings) (G : ApduBuffer) (d : Device) :
    Ending ⊕ Shown :=
  match signParse platform G d with
  | .inl ending => .inl ending
  | .inr d =>
    match signChecks platform settings d with
    | .inl ending => .inl ending
    | .inr d => .inr (recognizeToken d)

/-- The strings written for the display, and the fee computed on the way. -/
structure TxStrings where
  fullAddress : List UInt8
  fullAmount : List UInt8
  maxFee : List UInt8
  feeComputationContext : FeeComputationContext

/-- The calls that write the strings. -/
def Shown.strings (platform : Platform) (shown : Shown) : Option TxStrings := do
  let fullAmount ←
    sendAmountToDisplayString shown.device.clauseContent.value shown.ticker shown.decimals
  let (fee, maxFee) ← maxFeeToDisplayString shown.device.tx.env.content.gaspricecoef
    shown.device.tx.env.content.gas
  some ⟨addressToDisplayString platform.keccak256 shown.device.clauseContent.toAddress, fullAmount,
    maxFee, fee⟩

/-- The display of a transaction. The fee is computed over the contexts of the parser. -/
def signDisplay (platform : Platform) (shown : Shown) : Ending :=
  match shown.strings platform with
  | none => .stuck .diverges
  | some strings =>
    match CharArray.write? 43 strings.fullAddress, CharArray.write? 50 strings.fullAmount,
        CharArray.write? 60 strings.maxFee with
    | some fullAddress, some fullAmount, some maxFee =>
      .review (.transaction shown.device.dataPresent shown.device.multipleClauses)
        { shown.device with
          fullAddress := fullAddress
          fullAmount := fullAmount
          maxFee := maxFee
          feeComputationContext := some strings.feeComputationContext }
    | _, _, _ => .stuck .outOfBounds

/-- `handleSign` -/
def handleSign (platform : Platform) (settings : Settings) (G : ApduBuffer) (d : Device) : Ending :=
  match signAccept platform settings G d with
  | .inl ending => ending
  | .inr shown => signDisplay platform shown

end AppVechain
