import AppVechain.Application.Replies
import AppVechain.Device.Progress

/-!
# Progress

The application takes every event in every state that it comes to, but for three
kinds of events; these access memory out of the bounds of an array. What is not counted
is that the parser of a second clause writes to, and reads from, the variable of a block
that was left: it is assumed that nothing else is in that place of the storage.
-/

namespace AppVechain

open Reactive

variable {platform : Platform} {sign : Signer} {storage : InternalStorage}

/-- **Where the application gets stuck**, in every run: an accepted transaction has an amount that
is longer than its buffer, the beginning of a message or certificate ends within its length, or a
review is confirmed whose path is said to be longer than a path can be. The pointer into the block
that the parser of the clauses has left is assumed to do no harm. -/
theorem stuck_iff {steps : List (Step Event Sent App)} {a : App}
    (h : Run (platform.app sign storage) steps a) (e : Event) :
    (platform.app sign storage).step e a = none ↔
      (∃ rx, e = .receive rx ∧ a.awaiting = false ∧ rx.bytes ≠ [] ∧
        (⟨a.storage.settings, a.arrived rx⟩ : Command).Unanswered platform a.device) ∨
      (e = .choice true ∧ a.screen.signs = true ∧
        MAX_BIP32_PATH < a.device.tmpCtx.pathLength.toNat) := by
  rw [step_eq_none_iff h e]
  have hstuck (c : Command) := device_stuck_iff (run_device h) c
  simp only [hstuck]

/-- The beginning of a message that ends within its length. -/
def cutReceived : Received :=
  ⟨[0xe0, 0x08, 0x00, 0x00, 0x08, 0x01, 0x80, 0x00, 0x00, 0x00, 0x00, 0x01, 0x00], by decide⟩

theorem stuck_iff_cutReceived :
    ((Platform.recorded []).app fixedSigner ⟨0, 0, 0⟩).step (.receive cutReceived)
      (.boot ⟨0, 0, 0⟩) = none := by
  refine (stuck_iff .boot _).mpr (.inl ⟨cutReceived, rfl, rfl, List.cons_ne_nil _ _, ?_⟩)
  refine ⟨by decide +kernel, .inr ⟨.message, by decide +kernel, ?_⟩⟩
  constructor <;> decide +kernel

end AppVechain
