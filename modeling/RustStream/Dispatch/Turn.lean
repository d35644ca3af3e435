import Mathlib.Tactic

/-!
# The turn of a dispatch loop

## Main definitions

* `idle`: whether an idle subscription may skip a poll.
-/

namespace RustStream

/-- Whether an idle subscription may skip the poll of its stream and of its shutdown wait: only after a
poll that found both pending, only where the probe says that nothing is ready, and never once shutdown
is signalled. A probe that declares none is never asked. -/
def idle (gated parked mayBeReady cancelled : Bool) : Bool :=
  gated && parked && !mayBeReady && !cancelled

/-- Once shutdown is signalled no poll is skipped. -/
theorem idle_of_cancelled (gated parked mayBeReady : Bool) :
    idle gated parked mayBeReady true = false := by
  rw [idle, Bool.not_true, Bool.and_false]

end RustStream
