/-
**Hooks of `delegate.h`.**

A hook is the list of its subscribers, each a function with its user data. Functions are told apart by
their addresses; an invocation is recorded as the list of the calls that it makes.
-/

import Mathlib.Tactic.Common

namespace Vaudou

/-- `name##Entry`: a function and its user data. -/
structure HookEntry where
  func : Nat
  usrdata : Nat
deriving DecidableEq, Repr

/-- A call of a subscriber with the arguments of the invocation. -/
structure HookCall (Args : Type) where
  entry : HookEntry
  args : Args
deriving DecidableEq, Repr

/-- `VD_HOOK_INVOKE`: the calls, in order. -/
def hookInvoke {Args : Type} (hook : List HookEntry) (args : Args) : List (HookCall Args) :=
  hook.map fun entry => ⟨entry, args⟩

end Vaudou
