/-
**The list behind a hook of `delegate.h`.**

`hook.list` is a dynamic array of entries of 16 bytes, a function and its user data. The macros work on
its bytes; `none` is an access outside of the block, or an `int` that overflows. An index that is not
found is -1, and `&(a)[-1]` is in the header of the array.
-/

import Vaudou.Array.Dynamic
import Vaudou.Delegate.Hook

namespace Vaudou

open Vaudou.Memory

/-- The list of a hook, and the calls that each invocation made so far. -/
structure HookState (Args : Type) where
  list : ArrayState
  calls : List (List (HookCall Args))

/-- The operations on a hook: functions and user data are pointers. -/
inductive HookOp (Args : Type) where
  | subscribe (fptr usrdatavalue : UInt64)
  | unsubscribe (fptr : UInt64)
  | invoke (args : Args)

/-- `++i` of an `int`. -/
def intSucc (i : Nat) : Option Nat := if i + 1 < 2 ^ 31 then some (i + 1) else none

section Macros

variable (E : ArrayEnv)

/-- `VD_ARRAY_PUSH`. -/
def arrayPush (s : ArrayState) : Option ArrayState :=
  (arrayCheckGrow E s 1).bind fun s => (arrayLen s).bind fun len => arraySetLen s (len + 1)

/-- `&(a)[i]` of an index that may be negative. -/
def ArrayState.itemAt (s : ArrayState) (i : Int) : Nat := ((s.a + E.tsize * i) % 2 ^ 64).toNat

/-- `VD_ARRAY_DELSWAP` of an index that may be negative. -/
def arrayDelswapAt (s : ArrayState) (i : Int) : Option ArrayState :=
  (arrayLen s).bind fun len => (s.read (s.itemAt E (len - 1)) E.tsize).bind fun last =>
    (s.write (s.itemAt E i) last).bind fun s => arraySetLen s ((len + (2 ^ 64 - 1)) % 2 ^ 64)

/-- `hook.list[i].func`. -/
def hookFunc (s : ArrayState) (i : Nat) : Option Nat := (s.read (s.item E i) 8).map leValue

/-- `hook.list[i].usrdata`. -/
def hookUsrdata (s : ArrayState) (i : Nat) : Option Nat := (s.read (s.item E i + 8) 8).map leValue

/-- `VD_HOOK_INIT`, of a hook that is zero. -/
def hookInit (Args : Type) (mem : Mem) : Option (HookState Args) :=
  (arrayInit E ⟨mem, 0, (0, 0), []⟩).map fun list => ⟨list, []⟩

/-- `VD_HOOK_SUBSCRIBE`. -/
def hookSubscribe (s : ArrayState) (fptr usrdatavalue : Nat) : Option ArrayState :=
  (arrayLen s).bind fun len =>
    let lastidx := len % 2 ^ 32
    (arrayPush E s).bind fun s => (s.write (s.item E lastidx) (leBytes 8 fptr)).bind fun s =>
      s.write (s.item E lastidx + 8) (leBytes 8 usrdatavalue)

/-- The loop of `VD_HOOK_UNSUBSCRIBE` from index `i` on, with `left` entries to go: `_f`. -/
def hookFind (s : ArrayState) (fptr : Nat) : (i left : Nat) → Option Int
  | _, 0 => some (-1)
  | i, left + 1 => (hookFunc E s i).bind fun func =>
    if func = fptr then some i else (intSucc i).bind fun next => hookFind s fptr next left

/-- `VD_HOOK_UNSUBSCRIBE`. -/
def hookUnsubscribe (s : ArrayState) (fptr : Nat) : Option ArrayState :=
  (arrayLen s).bind fun len => (hookFind E s fptr 0 len).bind fun f =>
    if f ≠ 0 then arrayDelswapAt E s f else some s

/-- The loop of `VD_HOOK_INVOKE` from index `i` on, with `left` entries to go: the entries called. -/
def hookCalled (s : ArrayState) : (i left : Nat) → Option (List HookEntry)
  | _, 0 => some []
  | i, left + 1 => (hookFunc E s i).bind fun func => (hookUsrdata E s i).bind fun usrdata =>
    (intSucc i).bind fun next => (hookCalled s next left).map fun entries => ⟨func, usrdata⟩ :: entries

/-- An operation. The callbacks of an invocation do not change the hook. -/
def hookStep {Args : Type} (s : HookState Args) : HookOp Args → Option (HookState Args)
  | .subscribe fptr usrdatavalue =>
    (hookSubscribe E s.list fptr.toNat usrdatavalue.toNat).map fun list => { s with list := list }
  | .unsubscribe fptr => (hookUnsubscribe E s.list fptr.toNat).map fun list => { s with list := list }
  | .invoke args => (arrayLen s.list).bind fun len => (hookCalled E s.list 0 len).map fun entries =>
    { s with calls := s.calls ++ [hookInvoke entries args] }

end Macros

end Vaudou
