/-
**Buffers of the device, as the calls on them.**

Buffers are created with a size, copied into and freed; a log lists the calls, oldest first, with the
mesh that a buffer was created for. A log is sound if no buffer is created or freed twice and every copy
fits into the buffer as it was last created.

* `CallsSound.create`, `CallsSound.copy`, `CallsSound.free` — what one call needs for that.
-/

import Vaudou.Foundation.Resources
import Vaudou.Renderer.Types

namespace Vaudou

open Vaudou.Resources

/-- A call on a buffer. -/
inductive BufferCall where
  /-- `svma_create_buffer`, for a mesh -/
  | create (mesh : Nat) (buffer : Buffer) (size : Nat)
  /-- `vkCmdCopyBuffer`, into the buffer -/
  | copy (dst : Buffer) (size : Nat)
  /-- `svma_free_buffer` -/
  | free (buffer : Buffer)
deriving DecidableEq, Repr

/-- The buffer that a call creates. -/
def BufferCall.created : BufferCall → Option Buffer
  | .create _ buffer _ => some buffer
  | _ => none

/-- The buffer that a call frees. -/
def BufferCall.freed : BufferCall → Option Buffer
  | .free buffer => some buffer
  | _ => none

/-- The buffers created and freed. -/
def bufferLedger (calls : List BufferCall) : Ledger Buffer :=
  ⟨calls.filterMap BufferCall.created, calls.filterMap BufferCall.freed⟩

/-- The size of a buffer behind a call. -/
def sizeBehind (buffer : Buffer) (size : Option Nat) : BufferCall → Option Nat
  | .create _ created new => if created = buffer then some new else size
  | .copy _ _ => size
  | .free freed => if freed = buffer then none else size

/-- **The size with which a buffer was last created**; `none` if it does not exist. -/
def bufferSize (buffer : Buffer) (calls : List BufferCall) : Option Nat :=
  calls.foldl (sizeBehind buffer) none

/-- **Every copy fits into its buffer.** -/
def CopiesFit (calls : List BufferCall) : Prop :=
  ∀ before dst size after, calls = before ++ .copy dst size :: after →
    ∃ capacity, bufferSize dst before = some capacity ∧ size ≤ capacity

/-- A buffer of a mesh exists and has room. -/
def HoldsBuffer (calls : List BufferCall) (mesh : Nat) (buffer : Buffer) (size : Nat) : Prop :=
  ∃ capacity, .create mesh buffer capacity ∈ calls ∧ .free buffer ∉ calls ∧ size ≤ capacity

/-- A log in which every buffer is created and freed at most once, and every copy fits. -/
structure CallsSound (calls : List BufferCall) : Prop where
  ledger : (bufferLedger calls).Sound
  sizes : ∀ mesh buffer size, .create mesh buffer size ∈ calls → .free buffer ∉ calls →
    bufferSize buffer calls = some size
  owner : ∀ mesh mesh' buffer size size', .create mesh buffer size ∈ calls →
    .create mesh' buffer size' ∈ calls → mesh = mesh'
  copies : CopiesFit calls

section Calls

variable {calls more : List BufferCall} {mesh other size need : Nat} {buffer : Buffer}

theorem mem_created : buffer ∈ (bufferLedger calls).created ↔
    ∃ mesh size, .create mesh buffer size ∈ calls := by
  constructor
  · intro member
    obtain ⟨call, inside, same⟩ := List.mem_filterMap.mp member
    cases call with
    | create mesh created size =>
      cases same
      exact ⟨mesh, size, inside⟩
    | copy dst size => cases same
    | free freed => cases same
  · rintro ⟨mesh, size, inside⟩
    exact List.mem_filterMap.mpr ⟨_, inside, rfl⟩

theorem mem_freed : buffer ∈ (bufferLedger calls).destroyed ↔ .free buffer ∈ calls := by
  constructor
  · intro member
    obtain ⟨call, inside, same⟩ := List.mem_filterMap.mp member
    cases call with
    | free freed =>
      cases same
      exact inside
    | create mesh created size => cases same
    | copy dst size => cases same
  · intro inside
    exact List.mem_filterMap.mpr ⟨_, inside, rfl⟩

theorem bufferSize_append (call : BufferCall) :
    bufferSize buffer (calls ++ [call]) = sizeBehind buffer (bufferSize buffer calls) call := by
  simp [bufferSize, List.foldl_append]

/-- A call that creates nothing is no creation. -/
theorem old_create {call : BufferCall} (made : .create mesh buffer size ∈ calls ++ [call])
    (none : call.created = none) : .create mesh buffer size ∈ calls := by
  refine (List.mem_append.mp made).resolve_right fun now => ?_
  rw [← List.mem_singleton.mp now] at none
  cases none

/-- A copy more fits if it fits into what is there. -/
theorem CopiesFit.append (fit : CopiesFit calls) {call : BufferCall}
    (fits : ∀ dst size, call = .copy dst size →
      ∃ capacity, bufferSize dst calls = some capacity ∧ size ≤ capacity) :
    CopiesFit (calls ++ [call]) := by
  intro before dst size after split
  rcases List.eq_nil_or_concat after with rfl | ⟨front, last, rfl⟩
  · obtain ⟨rfl, same⟩ := List.append_inj' split rfl
    exact fits dst size (List.cons.inj same).1
  · rw [List.concat_eq_append, ← List.cons_append, ← List.append_assoc] at split
    obtain ⟨rfl, -⟩ := List.append_inj' split rfl
    exact fit before dst size front rfl

/-- **A buffer is created.** -/
theorem CallsSound.create (sound : CallsSound calls) (fresh : buffer ∉ (bufferLedger calls).created) :
    CallsSound (calls ++ [.create mesh buffer size]) where
  ledger := by
    have ledger : bufferLedger (calls ++ [.create mesh buffer size]) =
        (bufferLedger calls).create [buffer] := by
      simp [bufferLedger, Ledger.create, BufferCall.created, BufferCall.freed]
    rw [ledger]
    refine sound.ledger.create ⟨List.nodup_singleton _, fun r member => ?_⟩
    rwa [List.mem_singleton.mp member]
  sizes mesh' buffer' size' made live := by
    rw [bufferSize_append, sizeBehind]
    rcases List.mem_append.mp made with before | now
    · rw [if_neg]
      · exact sound.sizes mesh' buffer' size' before fun freed => live (List.mem_append_left _ freed)
      · rintro rfl
        exact fresh (mem_created.mpr ⟨mesh', size', before⟩)
    · cases List.mem_singleton.mp now
      exact if_pos rfl
  owner first second buffer' size' size'' made made' := by
    have old : ∀ mesh size, .create mesh buffer size ∈ calls → False := fun mesh size before =>
      fresh (mem_created.mpr ⟨mesh, size, before⟩)
    rcases List.mem_append.mp made with before | now
    · rcases List.mem_append.mp made' with before' | now'
      · exact sound.owner first second buffer' size' size'' before before'
      · cases List.mem_singleton.mp now'
        exact (old _ _ before).elim
    · cases List.mem_singleton.mp now
      rcases List.mem_append.mp made' with before' | now'
      · exact (old _ _ before').elim
      · cases List.mem_singleton.mp now'
        rfl
  copies := sound.copies.append fun dst size same => by cases same

/-- **A buffer that exists is freed.** -/
theorem CallsSound.free (sound : CallsSound calls) (held : HoldsBuffer calls mesh buffer need) :
    CallsSound (calls ++ [.free buffer]) where
  ledger := by
    have ledger : bufferLedger (calls ++ [.free buffer]) = (bufferLedger calls).destroy [buffer] := by
      simp [bufferLedger, Ledger.destroy, BufferCall.created, BufferCall.freed]
    obtain ⟨capacity, made, live, -⟩ := held
    rw [ledger]
    exact sound.ledger.destroy (mem_created.mpr ⟨mesh, capacity, made⟩) fun freed => live
      (mem_freed.mp freed)
  sizes mesh' buffer' size' made live := by
    rw [bufferSize_append, sizeBehind, if_neg]
    · refine sound.sizes mesh' buffer' size' ?_ fun freed => live (List.mem_append_left _ freed)
      exact old_create made rfl
    · rintro rfl
      exact live (List.mem_append_right _ (List.mem_singleton_self _))
  owner first second buffer' size' size'' made made' :=
    sound.owner first second buffer' size' size'' (old_create made rfl) (old_create made' rfl)
  copies := sound.copies.append fun dst size same => by cases same

/-- **A copy into a buffer with room.** -/
theorem CallsSound.copy (sound : CallsSound calls) (held : HoldsBuffer calls mesh buffer size) :
    CallsSound (calls ++ [.copy buffer size]) where
  ledger := by
    have ledger : bufferLedger (calls ++ [.copy buffer size]) = bufferLedger calls := by
      simp [bufferLedger, BufferCall.created, BufferCall.freed]
    rw [ledger]
    exact sound.ledger
  sizes mesh' buffer' size' made live := by
    rw [bufferSize_append, sizeBehind]
    refine sound.sizes mesh' buffer' size' ?_ fun freed => live (List.mem_append_left _ freed)
    exact old_create made rfl
  owner first second buffer' size' size'' made made' :=
    sound.owner first second buffer' size' size'' (old_create made rfl) (old_create made' rfl)
  copies := by
    refine sound.copies.append fun dst size' same => ?_
    cases same
    obtain ⟨capacity, made, live, room⟩ := held
    exact ⟨capacity, sound.sizes mesh buffer capacity made live, room⟩

/-- What is freed was created. -/
theorem CallsSound.freed_created (sound : CallsSound calls) (freed : .free buffer ∈ calls) :
    buffer ∈ (bufferLedger calls).created := by
  obtain ⟨held, accounts⟩ := sound.ledger
  exact accounts.balance.mem_iff.mpr (List.mem_append_left _ (mem_freed.mpr freed))

/-- **A buffer that was just created** has the room it was created with. -/
theorem HoldsBuffer.new (sound : CallsSound calls) (fresh : buffer ∉ (bufferLedger calls).created) :
    HoldsBuffer (calls ++ [.create mesh buffer size]) mesh buffer size := by
  refine ⟨size, List.mem_append_right _ (List.mem_singleton_self _), fun freed => ?_, Nat.le_refl _⟩
  rcases List.mem_append.mp freed with before | now
  · exact fresh (sound.freed_created before)
  · cases List.mem_singleton.mp now

theorem HoldsBuffer.created (held : HoldsBuffer calls mesh buffer need) :
    buffer ∈ (bufferLedger calls).created := by
  obtain ⟨capacity, made, -⟩ := held
  exact mem_created.mpr ⟨mesh, capacity, made⟩

/-- Less room is needed. -/
theorem HoldsBuffer.mono (held : HoldsBuffer calls mesh buffer need) (less : size ≤ need) :
    HoldsBuffer calls mesh buffer size := by
  obtain ⟨capacity, made, live, room⟩ := held
  exact ⟨capacity, made, live, Nat.le_trans less room⟩

/-- More calls leave a buffer that they do not free. -/
theorem HoldsBuffer.append (held : HoldsBuffer calls mesh buffer need) (kept : .free buffer ∉ more) :
    HoldsBuffer (calls ++ more) mesh buffer need := by
  obtain ⟨capacity, made, live, room⟩ := held
  refine ⟨capacity, List.mem_append_left _ made, fun freed => ?_, room⟩
  exact (List.mem_append.mp freed).elim live kept

/-- A buffer belongs to one mesh. -/
theorem HoldsBuffer.owner (sound : CallsSound calls) {need' : Nat}
    (first : HoldsBuffer calls mesh buffer need) (second : HoldsBuffer calls other buffer need') :
    mesh = other := by
  obtain ⟨capacity, made, -⟩ := first
  obtain ⟨capacity', made', -⟩ := second
  exact sound.owner mesh other buffer capacity capacity' made made'

end Calls

end Vaudou
