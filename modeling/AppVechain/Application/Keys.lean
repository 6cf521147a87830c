import AppVechain.Application.Reviews

/-!
# Keys

A key is sent for the path of the last command, at once or when the user has
confirmed the address on the screen, which is the one in the reply.
-/

namespace AppVechain

open Reactive

variable {platform : Platform} {sign : Signer} {storage : InternalStorage}

/-- Addresses are decided on a screen of their own. -/
theorem Flow.eq_publicKey {flow : Flow} (h : flow.lastScreen = .address) : flow = .publicKey := by
  cases flow with
  | publicKey => rfl
  | transaction => cases h
  | message => cases h
  | certificate => cases h

/-- The address in a reply with a key. -/
def replyAddress (reply : List UInt8) : List UInt8 := (reply.drop 67).take 40

/-- What is known of a reply with the key of a command: it holds the key that the context had then,
which is the one of the path where it was derived; the address in it says the last bytes of the
hash of the key, and is what was displayed. -/
structure KeyReply (platform : Platform) (G : ApduBuffer) (d : Device) (reply : List UInt8) :
    Prop where
  bytes : reply = (G.derived platform d).sent.bytes ++ statusBytes HW_OK
  ofPath : ∀ key, platform.derive G.path (G.p2 = P2_CHAINCODE) = some key →
    (G.derived platform d).sent = key
  chainCode : reply.length = 141 ↔ G.p2 = P2_CHAINCODE
  address : readHex (replyAddress reply) = some ((platform.keccak256
    ((G.derived platform d).publicKey.toList.drop 1)).toList.drop 12)
  shown : (publicKeyAddress (G.derived platform d).address).text =
    48 :: 120 :: replyAddress reply

/-- The reply with the key that a command derives. -/
theorem keyReply (G : ApduBuffer) (d : Device) :
    KeyReply platform G d
      (setResultGetPublicKey (G.derived platform d) ++ statusBytes HW_OK) := by
  obtain ⟨digits, hdigits, hlength, hnonzero, hread⟩ :=
    getVetAddressStringFromKey_digits platform.keccak256 (G.derived platform d).publicKey
  have haddress : (G.derived platform d).address = digits ++ [0] := hdigits
  have hkey : (G.derived platform d).publicKey.toList.length = 65 := Vector.length_toList
  have htake : (G.derived platform d).address.take 40 = digits := by
    rw [haddress, ← hlength, List.take_left]
  have hreplied :
      replyAddress (setResultGetPublicKey (G.derived platform d) ++ statusBytes HW_OK) =
        digits := by
    rw [replyAddress, setResultGetPublicKey, htake]
    simp only [List.cons_append, List.append_assoc, List.drop_succ_cons]
    rw [List.drop_append, hkey, List.drop_of_length_le (hkey.le.trans (by decide)),
      List.nil_append]
    exact List.take_left' hlength
  have hplain : ∀ c ∈ digits, decide (c ≠ 0) = true := fun c hc => decide_eq_true (hnonzero c hc)
  refine ⟨by rw [setResultGetPublicKey_eq], fun key hkey => sent_of_derive hkey _, ?_,
    by rw [hreplied]; exact hread, ?_⟩
  · rw [List.length_append, length_setResultGetPublicKey (length_derived_address G d)]
    show (if decide (G.p2 = P2_CHAINCODE) = true then 139 else 107) + 2 = 141 ↔ _
    by_cases hp2 : G.p2 = P2_CHAINCODE <;> simp [hp2]
  · rw [hreplied, haddress]
    show List.takeWhile (· ≠ 0) (48 :: 120 :: ((digits ++ [0]).takeWhile (· ≠ 0)).take 40 ++ [0]) =
      48 :: 120 :: digits
    rw [List.takeWhile_append_of_pos hplain, List.takeWhile_cons_of_neg (by decide),
      List.append_nil, List.take_of_length_le hlength.le, List.cons_append, List.cons_append,
      List.takeWhile_cons_of_pos (by decide), List.takeWhile_cons_of_pos (by decide),
      List.takeWhile_append_of_pos hplain, List.takeWhile_cons_of_neg (by decide),
      List.append_nil]

/-- While an address is displayed it is the one that the last command, which asks to confirm it,
has derived. -/
theorem derived_of_run {steps : List (Step Event Sent App)} {a : App}
    (h : Run (platform.app sign storage) steps a) (hscreen : a.screen = .address) :
    ∃ first rx, steps.find? takesCommand = some first ∧ first.event = .receive rx ∧
      (first.before.arrived rx).cla = CLA ∧ (first.before.arrived rx).DerivesKey ∧
      (first.before.arrived rx).p1 = P1_CONFIRM ∧
      a.device.publicKeyContext = (first.before.arrived rx).derived platform first.before.device ∧
      a.device.fullAddress = publicKeyAddress
        ((first.before.arrived rx).derived platform first.before.device).address := by
  obtain ⟨first, flow, hfirst, hshows, hdeciding⟩ := deciding_of_run h
    ((consistent_of_run h).awaiting.mpr (by simp [hscreen]))
  obtain ⟨hlast, -⟩ := hdeciding.reached.decided (by simp [hscreen]) (by simp [hscreen])
  rw [hscreen] at hlast
  obtain rfl := Flow.eq_publicKey hlast.symm
  obtain ⟨rx, hevent, -, hdevice⟩ := hshows.event
  obtain ⟨hcla, hderives, hp1, hcontext, haddress⟩ := address_of_review hdevice
  -- an error in between wipes the display context, which holds neither
  have hkept : a.device.publicKeyContext = first.after.device.publicKeyContext ∧
      a.device.fullAddress = first.after.device.fullAddress := by
    rcases hdeciding.device with hdevice | hdevice
    · rw [hdevice]
      exact ⟨rfl, rfl⟩
    · rw [hdevice]
      exact ⟨rfl, rfl⟩
  exact ⟨first, rx, hfirst, hevent, hcla, hderives, hderives.2.1.resolve_right hp1,
    hkept.1.trans hcontext, hkept.2.trans haddress⟩

/-- **Keys are those of the last command**, in every run: a reply of the length of a key,
without or with its chain code, holds what the last command has derived, which is the key for its
path unless the SDK fails; either that command asks for no confirmation, or the user has just
confirmed the address on the screen, which is the one in the reply. -/
theorem key_sent {step : Step Event Sent App} {steps : List (Step Event Sent App)} {a : App}
    (h : Run (platform.app sign storage) (step :: steps) a) {reply : List UInt8}
    (hsent : step.answer = some reply) (hlength : reply.length = 109 ∨ reply.length = 141) :
    ∃ command rx, (step :: steps).find? takesCommand = some command ∧
      command.event = .receive rx ∧ (command.before.arrived rx).cla = CLA ∧
      (command.before.arrived rx).DerivesKey ∧
      KeyReply platform (command.before.arrived rx) command.before.device reply ∧
      (((command.before.arrived rx).p1 = P1_NON_CONFIRM ∧ step = command) ∨
        (command.before.arrived rx).p1 = P1_CONFIRM ∧ step.event = .choice true ∧
          step.before.screen.pairs step.before.device =
            [("Verify VeChain address", 48 :: 120 :: replyAddress reply)]) := by
  obtain ⟨hbefore, hstep, -⟩ := h.after_head
  obtain ⟨a, e, sent, b⟩ := step
  have happ : AppStep platform sign a e (some reply) b := by
    rw [← show sent = some reply from hsent]
    exact appStep hstep
  have hstatus (sw : UInt16) :
      ¬((statusBytes sw).length = 109 ∨ (statusBytes sw).length = 141) := by
    show ¬(2 = 109 ∨ 2 = 141)
    decide
  cases happ with
  | @taken rx _ _ hawaiting htaken =>
    have htakes : takesCommand ⟨a, .receive rx, sent, b⟩ = true := by
      simp [takesCommand, hawaiting]
    cases htaken with
    | nothing => exact (hstatus _ hlength).elim
    | @status data sw d hne hdevice =>
      cases step_replies hdevice with
      | nothing => exact (hstatus _ hlength).elim
      | key hcla hderives hp1 =>
        exact ⟨_, rx, List.find?_cons_of_pos htakes, rfl, hcla, hderives, keyReply _ _,
          .inl ⟨hp1, rfl⟩⟩
      | configuration =>
        rw [List.length_append] at hlength
        exact absurd hlength (by simp [configurationBytes, statusBytes])
  | chosen hchosen =>
    cases hchosen with
    | cancelled => exact (hstatus _ hlength).elim
    | @signed signature =>
      rw [List.length_append, signature.length_bytes] at hlength
      exact absurd hlength (by simp [statusBytes])
    | address hscreen =>
      obtain ⟨first, rx, hfirst, hevent, hcla, hderives, hp1, hderived, haddress⟩ :=
        derived_of_run hbefore hscreen
      rw [hderived]
      refine ⟨first, rx, (List.find?_cons_of_neg Bool.false_ne_true).trans hfirst, hevent, hcla,
        hderives, keyReply _ _, .inr ⟨hp1, rfl, ?_⟩⟩
      show a.screen.pairs a.device = _
      rw [hscreen, Screen.pairs, haddress, (keyReply _ _).shown]

/-- An address that is confirmed. -/
def confirmedAddress : List Event := [
  .receive ⟨[0xe0, 0x02, 0x01, 0x01, 0x05] ++ onePath, by decide⟩,
  .choice true]

theorem key_sent_confirmed : ∃ step steps a reply,
    Run ((Platform.recorded []).app fixedSigner ⟨0, 0, 0⟩) (step :: steps) a ∧
      step.answer = some reply ∧
      ∃ command rx, (step :: steps).find? takesCommand = some command ∧
        command.event = .receive rx ∧
        KeyReply (.recorded []) (command.before.arrived rx) command.before.device reply := by
  have hreplay : (((Platform.recorded []).app fixedSigner ⟨0, 0, 0⟩).replay confirmedAddress
      ([], App.boot ⟨0, 0, 0⟩)).map (fun run => run.1.map fun step => step.answer.map List.length) =
      some [some 141, none] := by decide +kernel
  obtain ⟨steps, a, hrun, -, hanswers⟩ := exists_run hreplay
  cases steps with
  | nil => cases hanswers
  | cons step steps =>
    rw [List.map_cons, List.cons.injEq] at hanswers
    obtain ⟨reply, hsent, hlength⟩ := Option.map_eq_some_iff.mp hanswers.1
    obtain ⟨command, rx, hcommand, hevent, -, -, hreply, -⟩ := key_sent hrun hsent (.inr hlength)
    exact ⟨step, steps, a, reply, hrun, hsent, command, rx, hcommand, hevent, hreply⟩

end AppVechain
