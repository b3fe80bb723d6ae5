/-!
# Trials

A trial advances a system step by step and asks an inspector for a verdict after each. It ends
with the first verdict that is not "still running", or fails when the steps run out: a system that
never answers has not passed.
-/

set_option autoImplicit false

namespace ArmBlocks

/-- What an inspector says about a system. -/
inductive Verdict where
  | running
  | success
  | failed
  | failedAt (what : String)
  deriving DecidableEq, Repr

/-- Why a trial did not pass. -/
inductive TrialFailure where
  | failed
  | failedAt (what : String)
  | timedOut
  deriving DecidableEq, Repr

/-- The text shown for a failed trial. -/
def TrialFailure.message : TrialFailure → String
  | .failed => "Test failed!"
  | .failedAt what => "Test failed: " ++ what ++ "!"
  | .timedOut => "Test timed out!"

namespace Trial

variable {σ : Type}

/-- Runs a trial of at most `steps` steps, answering how it ended and the system as it then is.
The inspector may touch the system it looks at. -/
def run (advance : σ → σ) (inspect : σ → Verdict × σ) :
    Nat → σ → Except TrialFailure Unit × σ
  | 0, system => (.error .timedOut, system)
  | steps + 1, system =>
    match inspect (advance system) with
    | (.running, system) => run advance inspect steps system
    | (.success, system) => (.ok (), system)
    | (.failed, system) => (.error .failed, system)
    | (.failedAt what, system) => (.error (.failedAt what), system)

end Trial

end ArmBlocks
