/-!
# Powers

Powers of numbers are those of the core library. Algebra gives numbers powers as well, which are the
same but look different; inside the namespace the instances here come first, so that a power is the
same term in every module. They are scoped and change nothing outside of it.
-/

namespace SleighForge

scoped instance natPow : Pow Nat Nat :=
  ⟨Nat.pow⟩

scoped instance intPow : Pow Int Nat :=
  ⟨Int.pow⟩

end SleighForge
