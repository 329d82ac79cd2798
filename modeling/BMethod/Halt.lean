/-!
# Ways not to end with a result

A search through a store of type variables ends only if no variable leads back to itself. A
computation that may fail for a reason of its own therefore has two ways to stop without a result,
and they are kept apart: `error` says why the input is refused, `divergence` says that following
the variables would never end.
-/

namespace BMethod

/-- Why a computation has no result. -/
inductive Halt (ε : Type) where
  | error (e : ε)
  | divergence
  deriving DecidableEq, Repr

end BMethod
