import GatedNetwork.Circuit.Basic
import GatedNetwork.Double

/-!
# Settings and costs

What a training run in double precision starts from and what it is measured by: the settings of its
circuit, and two measures of how far an output vector is from its target. Sums run from the left and
start at negative zero, the neutral element of addition.
-/

namespace GatedNetwork

namespace Settings

/-- The settings of a circuit for which none are given. -/
def standard : Settings Double := ⟨1, .tenth, .tenth⟩

/-- What is wrong with the settings, if anything. -/
def fault? (s : Settings Double) : Option String :=
  if !(s.initRange.isFinite && !s.initRange.lessThan 0) then
    some "init_range must be finite and non-negative"
  else if !s.defaultRate.isFinite then some "default_rate must be finite"
  else none

end Settings

namespace Cost

/-- Negative zero: adding it changes no number. -/
def emptySum : Double := -0

/-- Sum from the left. -/
def sum (xs : List Double) : Double := xs.foldl (· + ·) emptySum

def squaredDifference (target output : Double) : Double := (target - output) * (target - output)

/-- Mean of squared differences. A pair of empty vectors scores zero. -/
def meanSquare (target output : List Double) : Except Error Double := do
  checkLength .output target.length output.length
  if output.isEmpty then return 0
  return sum (List.zipWith squaredDifference target output) / .ofWord (UInt64.ofNat output.length)

/-- 10 ^ -15: outputs are kept this far away from 0 and from 1. -/
def margin : Double := ⟨0x3CD203AF9EE75616⟩

/-- The nearest number between `low` and `high`. A NaN stays. -/
def clamp (low high x : Double) : Double :=
  if x.lessThan low then low else if high.lessThan x then high else x

/-- Binary cross entropy of one output. -/
def entropy (target output : Double) : Double :=
  let o := clamp margin (1 - margin) output
  Double.negate (target * o.log + (1 - target) * (1 - o).log)

/-- Binary cross entropy, summed over the outputs. -/
def crossEntropy (target output : List Double) : Except Error Double := do
  checkLength .output target.length output.length
  return sum (List.zipWith entropy target output)

end Cost

end GatedNetwork
