/-! The ids of steps: every step of every pipeline has its own. -/

namespace RecordFlow

structure StepId where
  number : Nat
  deriving DecidableEq, Repr

def StepId.text (id : StepId) : String := "#" ++ toString id.number

end RecordFlow
