import AppVechain.Device.KeyBinding

/-!
# Public keys

What `handleGetPublicKey` derives, and the reply in which it is sent, at once or when
the user has confirmed the address.
-/

namespace AppVechain

open Reactive

variable {platform : Platform} {G : ApduBuffer} {d d' : Device}

/-- A key that is sent, with its address and, if it was asked for, its chain code. -/
structure SentKey where
  publicKey : Vector UInt8 65
  address : List UInt8
  chainCode : Option (Vector UInt8 32)
  deriving DecidableEq

/-- Its bytes in the reply. -/
def SentKey.bytes (key : SentKey) : List UInt8 :=
  65 :: key.publicKey.toList ++ 40 :: key.address.take 40 ++
    (key.chainCode.map Vector.toList).getD []

/-- What is sent of the context. -/
def PublicKeyContext.sent (context : PublicKeyContext) : SentKey where
  publicKey := context.publicKey
  address := context.address
  chainCode := if context.getChaincode then some context.chainCode else none

/-- The reply is what is sent of the context. -/
theorem setResultGetPublicKey_eq (context : PublicKeyContext) :
    setResultGetPublicKey context = context.sent.bytes := by
  unfold setResultGetPublicKey SentKey.bytes PublicKeyContext.sent
  cases context.getChaincode <;> rfl

/-- The key of a path with its address, and with its chain code if that is asked for, unless a
function of the SDK fails. -/
def Platform.derive (platform : Platform) (path : List UInt32) (chainCode : Bool) :
    Option SentKey :=
  match platform.osDeriveBip32 path with
  | .failed _ _ => none
  | .done (rawPrivateKey, derived) =>
    match platform.ecfpInitPrivateKey (rawPrivateKey.toList.take 32) with
    | .failed _ _ => none
    | .done privateKey =>
      match platform.ecfpGeneratePair privateKey with
      | .failed _ _ => none
      | .done publicKey => some {
          publicKey := publicKey
          address := getVetAddressStringFromKey platform.keccak256 publicKey
          chainCode := if chainCode then some derived else none }

/-- **A key that is derived** is sent, whatever was in the context. -/
theorem sent_of_derive {path : List UInt32} {chainCode : Bool} {key : SentKey}
    (h : platform.derive path chainCode = some key) (context : PublicKeyContext) :
    (context.derive platform path chainCode).sent = key := by
  unfold Platform.derive at h
  unfold PublicKeyContext.derive cryptoDerivePrivateKey cryptoInitPublicKey
  cases hderive : platform.osDeriveBip32 path with
  | failed =>
    rw [hderive] at h
    cases h
  | done out =>
    obtain ⟨rawPrivateKey, derived⟩ := out
    rw [hderive] at h
    dsimp only at h ⊢
    cases hinit : platform.ecfpInitPrivateKey (rawPrivateKey.toList.take 32) with
    | failed =>
      rw [hinit] at h
      cases h
    | done privateKey =>
      rw [hinit] at h
      dsimp only at h ⊢
      cases hpair : platform.ecfpGeneratePair privateKey with
      | failed =>
        rw [hpair] at h
        cases h
      | done publicKey =>
        rw [hpair] at h
        cases h
        cases chainCode <;> rfl

/-- What is in `tmpCtx.publicKeyContext` when `handleGetPublicKey` has derived the key of a
command. -/
def ApduBuffer.derived (platform : Platform) (G : ApduBuffer) (d : Device) : PublicKeyContext :=
  (platform.underlay d.tmpCtx d.publicKeyContext).derive platform G.path (G.p2 = P2_CHAINCODE)

/-- The path that is read into the local variables of `handleGetPublicKey`. -/
theorem parseBip32Path_path (h : G.HasPath) :
    ∃ a, parseBip32Path G ⟨OFFSET_CDATA, G.lc.toUInt16, 0, Vector.replicate 10 0⟩ = .ok a ∧
      a.bip32Path.toList.take a.pathLength.toNat = G.path := by
  -- the local variables are those of a device that has just started
  obtain ⟨w, hbegin, hpath, -⟩ := beginPath_of_hasPath h .boot
  show ∃ a, parseBip32Path G ⟨OFFSET_CDATA, G.lc.toUInt16, Device.boot.tmpCtx.pathLength,
    Device.boot.tmpCtx.bip32Path⟩ = .ok a ∧ _
  rw [beginPath] at hbegin
  cases hparse : parseBip32Path G ⟨OFFSET_CDATA, G.lc.toUInt16, Device.boot.tmpCtx.pathLength,
      Device.boot.tmpCtx.bip32Path⟩ with
  | ok a =>
    rw [hparse] at hbegin
    simp only [Sum.inr.injEq, Work.mk.injEq] at hbegin
    rw [← hbegin.1] at hpath
    exact ⟨a, rfl, hpath⟩
  | throw a =>
    rw [hparse] at hbegin
    cases hbegin
  | stuck e =>
    rw [hparse] at hbegin
    cases hbegin

/-- **Deriving a key**: the context is written over the union, and the reply is sent or the
address shown. -/
theorem handleGetPublicKey_of_derives (hderives : G.DerivesKey) (d : Device) :
    handleGetPublicKey platform G d =
      if G.p1 = P1_NON_CONFIRM then
        .throw (setResultGetPublicKey (G.derived platform d)) HW_OK { d with
          tmpCtx := platform.overlay (G.derived platform d) d.tmpCtx
          publicKeyContext := G.derived platform d }
      else .review .publicKey { d with
        tmpCtx := platform.overlay (G.derived platform d) d.tmpCtx
        publicKeyContext := G.derived platform d
        fullAddress := publicKeyAddress (G.derived platform d).address } := by
  obtain ⟨hins, hp1, hp2, hpath⟩ := hderives
  obtain ⟨a, hparse, hwords⟩ := parseBip32Path_path hpath
  rw [handleGetPublicKey, if_neg (by tauto), if_neg (by tauto), hparse]
  simp only [hwords]
  rfl

/-- The address of a key says the last bytes of its hash, in forty digits and a NUL. -/
theorem getVetAddressStringFromKey_digits (keccak256 : List UInt8 → Vector UInt8 32)
    (publicKey : Vector UInt8 65) : ∃ digits,
      getVetAddressStringFromKey keccak256 publicKey = digits ++ [0] ∧ digits.length = 40 ∧
      (∀ c ∈ digits, c ≠ 0) ∧
      readHex digits = some ((keccak256 (publicKey.toList.drop 1)).toList.drop 12) := by
  refine ⟨_, rfl, ?_, fun c hc => checksum_ne_zero hc, ?_⟩
  · simp [List.length_flatMap, hexPair]
  · have hlast : (Vector.ofFn fun i : Fin 20 =>
        (keccak256 (publicKey.toList.drop 1))[12 + i.val]).toList =
        (keccak256 (publicKey.toList.drop 1)).toList.drop 12 := by
      apply List.ext_getElem
      · simp
      · intro i hi hi'
        rw [List.getElem_drop, Vector.getElem_toList, Vector.getElem_toList, Vector.getElem_ofFn]
    rw [← hlast]
    simpa only [Nat.zero_add] using readHex_checksum _ 0 _

/-- The address of a key: forty digits and a NUL. -/
theorem length_getVetAddressStringFromKey (keccak256 : List UInt8 → Vector UInt8 32)
    (publicKey : Vector UInt8 65) :
    (getVetAddressStringFromKey keccak256 publicKey).length = 41 := by
  obtain ⟨digits, hdigits, hlength, -, -⟩ := getVetAddressStringFromKey_digits keccak256 publicKey
  rw [hdigits, List.length_append, hlength]
  rfl

/-- The length of the reply for a key, without or with its chain code. -/
theorem length_setResultGetPublicKey {context : PublicKeyContext}
    (h : context.address.length = 41) : (setResultGetPublicKey context).length =
      if context.getChaincode then 139 else 107 := by
  have hchain : (if context.getChaincode then context.chainCode.toList else []).length =
      if context.getChaincode then 32 else 0 := by
    cases context.getChaincode with
    | true => exact Vector.length_toList
    | false => rfl
  rw [setResultGetPublicKey]
  simp only [List.cons_append, List.length_cons, List.length_append, Vector.length_toList, hchain,
    List.length_take, h]
  split <;> rfl

/-- The address that is derived has its digits and its NUL. -/
theorem length_derived_address (G : ApduBuffer) (d : Device) :
    (G.derived platform d).address.length = 41 :=
  length_getVetAddressStringFromKey _ _

/-- A review of an address is shown for a command that derives a key and asks to confirm it. -/
theorem address_of_review {c : Command}
    (h : platform.device.step c d = some (.review .publicKey, d')) :
    c.G.cla = CLA ∧ c.G.DerivesKey ∧ c.G.p1 ≠ P1_NON_CONFIRM ∧
      d'.publicKeyContext = c.G.derived platform d ∧
      d'.fullAddress = publicKeyAddress (c.G.derived platform d).address := by
  obtain ⟨hcla, hins⟩ := instruction_of_review h
  obtain ⟨d₁, hanswer, hd'⟩ := handleApdu_some h
  have hdispatch : dispatch platform c.settings c.G d = handleGetPublicKey platform c.G d := by
    rw [dispatch, if_neg (not_not.mpr hcla)]
    exact if_pos hins
  rw [hdispatch] at hanswer
  by_cases hderives : c.G.DerivesKey
  · rw [handleGetPublicKey_of_derives hderives] at hanswer
    by_cases hp1 : c.G.p1 = P1_NON_CONFIRM
    · rw [if_pos hp1] at hanswer
      cases hanswer
    · rw [if_neg hp1] at hanswer
      cases hanswer
      exact ⟨hcla, hderives, hp1, by rw [hd']; rfl, by rw [hd']; rfl⟩
  · obtain ⟨sw, hrefused⟩ := handleGetPublicKey_of_not_derives platform d hins hderives
    rw [hrefused] at hanswer
    cases hanswer

end AppVechain
