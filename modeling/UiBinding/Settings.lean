namespace UiBinding

/-- How an evaluator resolves elements and reports fatal errors. -/
structure Settings where
  maxContextDepth : Nat
  logErrors : Bool
  depth_pos : 0 < maxContextDepth

namespace Settings

def standard : Settings := ⟨64, true, by decide⟩

instance : Inhabited Settings := ⟨standard⟩

def ofDepth? (depth : Int) (logErrors : Bool) : Option Settings :=
  if h : 0 < depth then some ⟨depth.toNat, logErrors, by omega⟩ else none

end Settings

structure Animation where
  durationMs : Nat
  loopCount : Nat
  easing : String
  deriving DecidableEq

namespace Animation

def ofCounts? (duration loops : Int) (easing : String) : Option Animation :=
  if 0 ≤ duration ∧ 0 ≤ loops then some ⟨duration.toNat, loops.toNat, easing⟩ else none

end Animation

end UiBinding
