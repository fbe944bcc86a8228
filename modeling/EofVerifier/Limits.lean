/-! # Limits of a container

The bounds that a container has to respect.  The largest height a section may reach lies
one slot below the limit of the machine's stack, so that the one check left at run time,
the one made by a call, has room to fail. -/

namespace EofVerifier.Limits

/-- Number of items the machine's stack can hold. -/
def stackLimit : Nat := 1024

/-- Largest height a code section may reach. -/
def maxStackHeight : Nat := stackLimit - 1

/-- Largest number of code sections in one container. -/
def maxCodeSections : Nat := 1024

/-- Largest number of inputs a code section may declare. -/
def maxFunctionInputs : Nat := 0x7F

/-- Largest number of outputs a code section may declare. -/
def maxFunctionOutputs : Nat := 0x7F

end EofVerifier.Limits
