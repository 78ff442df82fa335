namespace LogReplica.Trial

structure Sampling where
  cases : Nat := 256
  maxShrinkSteps : Nat := 1000

namespace Sampling

def quick : Sampling := ⟨32, 100⟩

def runnerCases (s : Sampling) : Nat := s.cases

def runnerShrinkSteps (s : Sampling) : Nat := s.maxShrinkSteps

end Sampling

end LogReplica.Trial
