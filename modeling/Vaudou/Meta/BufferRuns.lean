/-
**The JSON text buffer as a byte string.**

The operations that append to a `VD_Meta__Buffer`, and runs of them. A run keeps the bytes that were pushed
since the last clear next to the buffer.

* `bufferOp_holds` — an operation whose sums fit a `size_t` appends what it is to append, and writes inside
  of the block.
* `inside_iff_fits` — it writes inside of the block only if they fit.
* `buffer_refines_iff` — whole runs.
-/

import Vaudou.Foundation.CString
import Vaudou.Meta.Buffer

namespace Vaudou

open Vaudou.Memory Vaudou.Run Vaudou.Text

/-- The calls on a buffer. A string is given by its address. -/
inductive BufferOp where
  | pushstr (s : Nat)
  | pushZeroes (size : Nat)
  | pushchar (c : UInt8)
  | terminate
  | clear
deriving DecidableEq, Repr

section Operations

variable (T : BlockAlloc)

/-- `vd_meta__buffer_pushstr`. -/
def bufferPushstr (b : MetaBuffer) (s : Nat) : Option MetaBuffer :=
  (strlen b.heap.mem s).bind fun len =>
    (bufferEnsureAdd T b len).map fun b =>
      { b with
        heap := { b.heap with mem := b.heap.mem.store (b.ptr + b.len) (b.heap.mem.load s len) }
        len := (b.len + len) % 2 ^ 64 }

/-- `vd_meta__buffer_push_zeroes`. -/
def bufferPushZeroes (b : MetaBuffer) (size : Nat) : Option MetaBuffer :=
  (bufferEnsureAdd T b size).map fun b =>
    { b with
      heap := { b.heap with mem := b.heap.mem.store (b.ptr + b.len) (List.replicate size 0) }
      len := (b.len + size) % 2 ^ 64 }

/-- A call on a buffer. -/
def bufferOp (b : MetaBuffer) : BufferOp → Option MetaBuffer
  | .pushstr s => bufferPushstr T b s
  | .pushZeroes size => bufferPushZeroes T b size
  | .pushchar c => bufferPush T b (.pushchar c)
  | .terminate => bufferPush T b .terminate
  | .clear => some (bufferClear b)

end Operations

/-- The bytes that a call is to push. -/
def pushedBytes (b : MetaBuffer) : BufferOp → List UInt8
  | .pushstr s => b.heap.mem.load s ((strlen b.heap.mem s).getD 0)
  | .pushZeroes size => List.replicate size 0
  | .pushchar c => [c]
  | .terminate => []
  | .clear => []

/-- The number of bytes that a call writes, from the length on. -/
def writtenLength (b : MetaBuffer) : BufferOp → Nat
  | .pushstr s => (strlen b.heap.mem s).getD 0
  | .pushZeroes size => size
  | .pushchar _ => 1
  | .terminate => 1
  | .clear => 0

/-- Everything pushed since the last clear, after a call. -/
def bytesAfter (b : MetaBuffer) (bytes : List UInt8) (op : BufferOp) : List UInt8 :=
  if op = .clear then [] else bytes ++ pushedBytes b op

/-- A call, with the bytes that were pushed so far. -/
def trackedOp (T : BlockAlloc) (s : MetaBuffer × List UInt8) (op : BufferOp) :
    Option (MetaBuffer × List UInt8) :=
  (bufferOp T s.1 op).map fun b => (b, bytesAfter s.1 s.2 op)

/-- The empty buffer. -/
def emptyBuffer (heap : BlockHeap) : MetaBuffer × List UInt8 := (⟨0, 0, 0, heap⟩, [])

/-- A string that is pushed is one, and it is in memory other than the buffer's block. -/
def StringOutside (s : MetaBuffer × List UInt8) : BufferOp → Prop
  | .pushstr p => ∃ content, IsCString s.1.heap.mem p content ∧
      (s.1.heap.release s.1.ptr).OwnsRange p (content.length + 1)
  | _ => True

/-- The sums that `vd_meta__buffer_ensure_add` computes for a call fit a `size_t`. -/
def SumsFit (s : MetaBuffer × List UInt8) (op : BufferOp) : Prop :=
  s.1.len + writtenLength s.1 op < 2 ^ 64 ∧
    (s.1.cap < s.1.len + writtenLength s.1 op → s.1.cap * 2 + writtenLength s.1 op < 2 ^ 64)

/-- A call writes inside of the block that the buffer has then, and a terminator is at the length. -/
structure WritesInside (T : BlockAlloc) (s : MetaBuffer × List UInt8) (op : BufferOp) : Prop where
  inside : ∀ b, bufferOp T s.1 op = some b → s.1.len + writtenLength s.1 op ≤ b.cap
  terminator : ∀ b, bufferOp T s.1 op = some b → op = .terminate → b.heap.mem (b.ptr + b.len) = 0

instance (s : MetaBuffer × List UInt8) (op : BufferOp) : Decidable (SumsFit s op) :=
  inferInstanceAs (Decidable (_ ∧ _))

/-- The first bytes of the buffer, as many as its length says, are the ones that were pushed. -/
structure HoldsBytes (s : MetaBuffer × List UInt8) : Prop where
  room : s.1.len ≤ s.1.cap
  length : s.1.len = s.2.length
  bytes : s.1.heap.mem.load s.1.ptr s.1.len = s.2

/-- They are in the block that was granted last, which is in one half of the address space. -/
structure BufferHolds (live : List (Nat × Nat)) (s : MetaBuffer × List UInt8) : Prop extends
    HoldsBytes s where
  top : s.1.OnTop live
  bounded : s.1.ptr + s.1.cap ≤ 2 ^ 63

/-! ### Single calls -/

section Calls

variable {T : BlockAlloc} {live : List (Nat × Nat)} {b b' : MetaBuffer} {bytes : List UInt8} {op : BufferOp}
  {n : Nat}

/-- A block is smaller than half of the address space. -/
theorem BufferHolds.cap_lt (holds : BufferHolds live (b, bytes)) : b.cap < 2 ^ 63 := by
  have bounded : b.ptr + b.cap ≤ 2 ^ 63 := holds.bounded
  by_cases zero : b.cap = 0
  · omega
  · obtain ⟨pos, -⟩ := holds.top.block zero
    have pos : 0 < b.ptr := pos
    omega

/-- **Growth** keeps the bytes, makes room, and leaves other memory as it is. -/
theorem BufferHolds.ensureAdd (holds : BufferHolds live (b, bytes)) (sum : b.len + n < 2 ^ 64)
    (capacity : b.cap < b.len + n → b.cap * 2 + n < 2 ^ 64) (grown : bufferEnsureAdd T b n = some b') :
    BufferHolds live (b', bytes) ∧ b'.len = b.len ∧ b.len + n ≤ b'.cap ∧
      ∀ x, (b.heap.release b.ptr).Owns x → b'.heap.mem x = b.heap.mem x := by
  have top := holds.top.ensureAdd grown
  have room : b.len ≤ b.cap := holds.room
  rw [bufferEnsureAdd, Nat.mod_eq_of_lt sum] at grown
  by_cases more : b.cap < b.len + n
  · have fits := capacity more
    have memory : (b.heap.release b.ptr).mem = b.heap.mem := by
      rw [BlockHeap.release]
      split <;> rfl
    rw [if_pos more] at grown
    dsimp only at grown
    rw [Nat.mod_eq_of_lt fits, BlockAlloc.realloc, if_neg (by omega), Option.map_map] at grown
    obtain ⟨⟨next, p⟩, granted, rfl⟩ := Option.map_eq_some_iff.mp grown
    have copied : (b.heap.mem.load b.ptr (min b.len (b.cap * 2 + n))).length = b.len := by
      rw [load_length]
      omega
    refine ⟨⟨⟨?_, holds.length, ?_⟩, top, T.bounded granted⟩, rfl, ?_, fun x owned => ?_⟩
    · show b.len ≤ b.cap * 2 + n
      omega
    · have stored := load_store_same next.mem p (b.heap.mem.load b.ptr (min b.len (b.cap * 2 + n)))
      rw [copied] at stored
      show (next.mem.store p _).load p b.len = bytes
      rw [stored, Nat.min_eq_left (by omega)]
      exact holds.bytes
    · show b.len + n ≤ b.cap * 2 + n
      omega
    · show next.mem.store p _ x = b.heap.mem x
      rw [BlockAlloc.store_outside granted (by omega) owned, T.keeps granted x owned, memory]
  · rw [if_neg more] at grown
    cases grown
    exact ⟨holds, rfl, Nat.not_lt.mp more, fun _ _ => rfl⟩

/-- **A write from the length on** leaves the bytes in front of it. -/
theorem BufferHolds.store (holds : BufferHolds live (b, bytes)) (added : List UInt8) :
    BufferHolds live
      ({ b with heap := { b.heap with mem := b.heap.mem.store (b.ptr + b.len) added } }, bytes) where
  top := holds.top.write _ _
  bounded := holds.bounded
  room := holds.room
  length := holds.length
  bytes := by
    have change := store_changedWithin b.heap.mem (b.ptr + b.len) added
    exact (load_congr (change.same (Or.inl le_rfl))).trans holds.bytes

/-- **An append**: a write from the length on that the length is then moved behind. -/
theorem BufferHolds.append (holds : BufferHolds live (b, bytes)) (added : List UInt8)
    (room : b.len + added.length ≤ b.cap) :
    BufferHolds live
      ({ b with
          heap := { b.heap with mem := b.heap.mem.store (b.ptr + b.len) added }
          len := b.len + added.length }, bytes ++ added) where
  top := holds.top.write _ _
  bounded := holds.bounded
  room := room
  length := by
    rw [List.length_append]
    exact congrArg (· + added.length) holds.length
  bytes := by
    have front : Mem.load _ b.ptr b.len = bytes := (holds.store added).bytes
    have back := load_store_same b.heap.mem (b.ptr + b.len) added
    show Mem.load _ b.ptr (b.len + added.length) = bytes ++ added
    rw [load_append, front, back]

/-- A cleared buffer holds nothing. -/
theorem BufferHolds.clear (holds : BufferHolds live (b, bytes)) : BufferHolds live (bufferClear b, []) where
  top := holds.top.clear
  bounded := holds.bounded
  room := Nat.zero_le _
  length := rfl
  bytes := rfl

/-- The bytes of a string that is pushed, in any memory that has what the buffer does not. -/
theorem StringOutside.load {p : Nat} {mem : Mem} (outside : StringOutside (b, bytes) (.pushstr p))
    (same : ∀ x, (b.heap.release b.ptr).Owns x → mem x = b.heap.mem x) :
    ∃ len, strlen b.heap.mem p = some len ∧ mem.load p len = b.heap.mem.load p len := by
  obtain ⟨content, is, owned⟩ := outside
  refine ⟨content.length, is.strlen, load_congr fun x low high => same x (owned x low ?_)⟩
  exact Nat.lt_succ_of_lt high

/-- **Every call** that fits appends what it is to append. -/
theorem bufferOp_holds (holds : BufferHolds live (b, bytes)) (fits : SumsFit (b, bytes) op)
    (outside : StringOutside (b, bytes) op) (called : bufferOp T b op = some b') :
    BufferHolds live (b', bytesAfter b bytes op) ∧ b.len + writtenLength b op ≤ b'.cap ∧
      (op = .terminate → b'.heap.mem (b'.ptr + b'.len) = 0) := by
  obtain ⟨sum, capacity⟩ := fits
  dsimp only at sum capacity
  cases op with
  | pushstr p =>
    obtain ⟨len, measured, called⟩ := Option.bind_eq_some_iff.mp called
    obtain ⟨grown, ensured, rfl⟩ := Option.map_eq_some_iff.mp called
    rw [writtenLength, measured, Option.getD_some] at sum capacity ⊢
    obtain ⟨held, same, room, frame⟩ := holds.ensureAdd sum capacity ensured
    obtain ⟨len', measured', loaded⟩ := outside.load frame
    obtain rfl := Option.some.inj (measured.symm.trans measured')
    have lengths : (grown.heap.mem.load p len).length = len := load_length
    have appended := held.append (grown.heap.mem.load p len) (by omega)
    rw [bytesAfter, if_neg BufferOp.noConfusion, pushedBytes, measured, Option.getD_some, ← loaded,
      Nat.mod_eq_of_lt (by omega)]
    rw [lengths] at appended
    exact ⟨appended, room, BufferOp.noConfusion⟩
  | pushZeroes size =>
    obtain ⟨grown, ensured, rfl⟩ := Option.map_eq_some_iff.mp called
    obtain ⟨held, same, room, -⟩ := holds.ensureAdd sum capacity ensured
    rw [writtenLength] at sum room
    have lengths : (List.replicate size (0 : UInt8)).length = size := List.length_replicate
    have appended := held.append (List.replicate size 0) (by omega)
    rw [bytesAfter, if_neg BufferOp.noConfusion, pushedBytes, Nat.mod_eq_of_lt (by omega)]
    rw [lengths] at appended
    exact ⟨appended, room, BufferOp.noConfusion⟩
  | pushchar c =>
    obtain ⟨grown, ensured, rfl⟩ := Option.map_eq_some_iff.mp called
    obtain ⟨held, same, room, -⟩ := holds.ensureAdd sum capacity ensured
    have appended := held.append [c] (by rw [same]; exact room)
    exact ⟨appended, room, BufferOp.noConfusion⟩
  | terminate =>
    obtain ⟨grown, ensured, rfl⟩ := Option.map_eq_some_iff.mp called
    obtain ⟨held, same, room, -⟩ := holds.ensureAdd sum capacity ensured
    have kept := held.store [0]
    refine ⟨?_, room, fun _ => ?_⟩
    · rw [bytesAfter, if_neg BufferOp.noConfusion, pushedBytes, List.append_nil]
      exact kept
    · have first : 0 < [(0 : UInt8)].length := Nat.one_pos
      exact store_inside first
  | clear =>
    cases called
    exact ⟨holds.clear, holds.room, BufferOp.noConfusion⟩

/-- Every call but a clear grows the buffer, and writes then. -/
theorem bufferOp_cap (called : bufferOp T b op = some b') :
    (op = .clear ∧ b' = bufferClear b) ∨
      ∃ grown, bufferEnsureAdd T b (writtenLength b op) = some grown ∧ b'.cap = grown.cap := by
  cases op with
  | pushstr p =>
    obtain ⟨len, measured, called⟩ := Option.bind_eq_some_iff.mp called
    obtain ⟨grown, ensured, rfl⟩ := Option.map_eq_some_iff.mp called
    refine Or.inr ⟨grown, ?_, rfl⟩
    rwa [writtenLength, measured, Option.getD_some]
  | pushZeroes size =>
    obtain ⟨grown, ensured, rfl⟩ := Option.map_eq_some_iff.mp called
    exact Or.inr ⟨grown, ensured, rfl⟩
  | pushchar c =>
    obtain ⟨grown, ensured, rfl⟩ := Option.map_eq_some_iff.mp called
    exact Or.inr ⟨grown, ensured, rfl⟩
  | terminate =>
    obtain ⟨grown, ensured, rfl⟩ := Option.map_eq_some_iff.mp called
    exact Or.inr ⟨grown, ensured, rfl⟩
  | clear =>
    cases called
    exact Or.inl ⟨rfl, rfl⟩

/-- **Room after growth** says that no sum was reduced: a sum that was is smaller than what it should
make room for. -/
theorem BufferHolds.fits_of_room (holds : BufferHolds live (b, bytes))
    (grown : bufferEnsureAdd T b n = some b') (room : b.len + n ≤ b'.cap) :
    b.len + n < 2 ^ 64 ∧ (b.cap < b.len + n → b.cap * 2 + n < 2 ^ 64) := by
  have small := holds.cap_lt
  have start : b.len ≤ b.cap := holds.room
  unfold bufferEnsureAdd at grown
  split at grown
  · obtain ⟨⟨heap', p⟩, granted, rfl⟩ := Option.map_eq_some_iff.mp grown
    have room : b.len + n ≤ (b.cap * 2 + n) % 2 ^ 64 := room
    omega
  · cases grown
    omega

/-- **A call writes inside of the block** exactly if its sums fit. -/
theorem writesInside_iff (holds : BufferHolds live (b, bytes)) (outside : StringOutside (b, bytes) op)
    (called : bufferOp T b op = some b') : WritesInside T (b, bytes) op ↔ SumsFit (b, bytes) op := by
  constructor
  · intro writes
    have room : b.len + writtenLength b op ≤ b'.cap := writes.inside b' called
    obtain ⟨rfl, -⟩ | ⟨grown, ensured, same⟩ := bufferOp_cap called
    · have small := holds.cap_lt
      have start : b.len ≤ b.cap := holds.room
      refine ⟨?_, fun more => ?_⟩
      · show b.len + 0 < 2 ^ 64
        omega
      · have more : b.cap < b.len + 0 := more
        omega
    · rw [same] at room
      exact holds.fits_of_room ensured room
  · intro fits
    obtain ⟨-, room, terminated⟩ := bufferOp_holds holds fits outside called
    refine ⟨fun other called' => ?_, fun other called' => ?_⟩ <;>
      obtain rfl := Option.some.inj (called.symm.trans called')
    · exact room
    · exact terminated

end Calls

/-! ### Runs -/

section Runs

variable {T : BlockAlloc} {live : List (Nat × Nat)} {s s' : MetaBuffer × List UInt8} {op : BufferOp}

/-- A tracked call is the call, and the bytes after it. -/
theorem trackedOp_some (called : trackedOp T s op = some s') :
    bufferOp T s.1 op = some s'.1 ∧ s'.2 = bytesAfter s.1 s.2 op := by
  obtain ⟨b, inner, rfl⟩ := Option.map_eq_some_iff.mp called
  exact ⟨inner, rfl⟩

/-- **A tracked call** that fits keeps the bytes and the buffer together. -/
theorem trackedOp_holds (holds : BufferHolds live s) (fits : SumsFit s op) (outside : StringOutside s op)
    (called : trackedOp T s op = some s') : BufferHolds live s' := by
  obtain ⟨called, same⟩ := trackedOp_some called
  have kept : BufferHolds live (s'.1, bytesAfter s.1 s.2 op) := (bufferOp_holds holds fits outside called).1
  rwa [← same] at kept

/-- A call that writes one byte at most fits always. -/
theorem BufferHolds.sumsFit (holds : BufferHolds live s) (small : writtenLength s.1 op ≤ 1) :
    SumsFit s op := by
  have below : s.1.cap < 2 ^ 63 := holds.cap_lt
  have start := holds.room
  exact ⟨by omega, fun _ => by omega⟩

/-- The empty buffer holds no bytes. -/
theorem emptyBuffer_holds (heap : BlockHeap) : BufferHolds heap.live (emptyBuffer heap) where
  top := ⟨fun _ => ⟨rfl, rfl⟩, fun absurd => (absurd rfl).elim⟩
  bounded := Nat.zero_le _
  room := le_rfl
  length := rfl
  bytes := rfl

end Runs

/-- **The buffer is a byte string.** In a run from the empty buffer, all writes are inside of the block of
their time, with a 0 behind the bytes after a terminate, and the buffer holds what was pushed since the
last clear in every state, exactly if the sums of every call fit a `size_t`. -/
theorem buffer_refines_iff (T : BlockAlloc) (heap : BlockHeap) (ops : List BufferOp)
    (final : MetaBuffer × List UInt8) (ran : run (trackedOp T) (emptyBuffer heap) ops = some final)
    (strings : Along (trackedOp T) StringOutside (emptyBuffer heap) ops) :
    (Along (trackedOp T) (WritesInside T) (emptyBuffer heap) ops ∧
      Throughout (trackedOp T) HoldsBytes (emptyBuffer heap) ops) ↔
      Along (trackedOp T) SumsFit (emptyBuffer heap) ops := by
  have writes : Along (trackedOp T) (WritesInside T) (emptyBuffer heap) ops ↔
      Along (trackedOp T) SumsFit (emptyBuffer heap) ops := by
    -- what is left of the run goes through, with strings outside of the buffer
    refine along_congr_left (I := fun s left => BufferHolds heap.live s ∧
      Along (trackedOp T) StringOutside s left ∧ ∃ final, run (trackedOp T) s left = some final)
      ?_ ?_ ⟨emptyBuffer_holds heap, strings, final, ran⟩
    · rintro s op rest ⟨holds, ⟨outside, -⟩, final, ran⟩
      obtain ⟨next, called, -⟩ := run_cons_some.mp ran
      exact writesInside_iff holds outside (trackedOp_some called).1
    · rintro s op rest next ⟨holds, ⟨outside, later⟩, final, ran⟩ fits called
      obtain ⟨next', called', ran⟩ := run_cons_some.mp ran
      obtain rfl := Option.some.inj (called.symm.trans called')
      exact ⟨trackedOp_holds holds fits outside called, later next called, final, ran⟩
  refine ⟨fun ⟨inside, _⟩ => writes.mp inside, fun fits => ⟨writes.mpr fits, ?_⟩⟩
  exact throughout_of_along (fun _ holds => holds.toHoldsBytes)
    (fun _ _ _ holds fits outside called => trackedOp_holds holds fits outside called)
    fits strings (emptyBuffer_holds heap)

/-- Memory with a string of two bytes at 1, in a block. -/
private def twoBytes : BlockHeap := ⟨Mem.store (fun _ => 0) 1 [104, 105, 0], [(1, 3)]⟩

/-- The string is pushed and terminated, then a byte and zeroes. -/
theorem buffer_refines_iff_twoBytes :
    Along (trackedOp .bump) (WritesInside .bump) (emptyBuffer twoBytes)
        [.pushstr 1, .terminate, .pushchar 33, .pushZeroes 2] ∧
      Throughout (trackedOp .bump) HoldsBytes (emptyBuffer twoBytes)
        [.pushstr 1, .terminate, .pushchar 33, .pushZeroes 2] := by
  have ran : ∃ final, run (trackedOp .bump) (emptyBuffer twoBytes)
      [.pushstr 1, .terminate, .pushchar 33, .pushZeroes 2] = some final := ⟨_, rfl⟩
  obtain ⟨final, ran⟩ := ran
  refine (buffer_refines_iff .bump twoBytes _ final ran ?_).mpr (by decide +kernel)
  refine ⟨⟨[104, 105], by decide +kernel, fun x low high => ⟨(1, 3), List.mem_singleton_self _, low, ?_⟩⟩,
    fun _ _ => ⟨trivial, fun _ _ => ⟨trivial, fun _ _ => ⟨trivial, fun _ _ => trivial⟩⟩⟩⟩
  exact high

private theorem pushZeroes_kept {T : BlockAlloc} {b : MetaBuffer} {size : Nat}
    (kept : bufferEnsureAdd T b size = some b) :
    ∃ b', bufferOp T b (.pushZeroes size) = some b' ∧ b'.cap = b.cap :=
  ⟨_, congrArg (Option.map _) kept, rfl⟩

/-- **Zeroes that reach around** the size type: no room is made for them, and all are written. -/
theorem pushZeroes_overruns :
    (run (trackedOp .bump) (emptyBuffer ⟨fun _ => 0, []⟩)
      [.pushchar 97, .pushZeroes (2 ^ 64 - 1)]).isSome = true ∧
    Along (trackedOp .bump) StringOutside (emptyBuffer ⟨fun _ => 0, []⟩)
      [.pushchar 97, .pushZeroes (2 ^ 64 - 1)] ∧
    ¬ Along (trackedOp .bump) (WritesInside .bump) (emptyBuffer ⟨fun _ => 0, []⟩)
      [.pushchar 97, .pushZeroes (2 ^ 64 - 1)] := by
  have pushed : ∃ s, trackedOp .bump (emptyBuffer ⟨fun _ => 0, []⟩) (.pushchar 97) = some s ∧
      s.1.len = 1 ∧ s.1.cap = 1 := ⟨_, rfl, rfl, rfl⟩
  obtain ⟨s, first, len, cap⟩ := pushed
  have kept : bufferEnsureAdd .bump s.1 (2 ^ 64 - 1) = some s.1 := by
    rw [bufferEnsureAdd, len, cap, if_neg (by decide)]
  obtain ⟨b, second, same⟩ := pushZeroes_kept kept
  refine ⟨?_, ⟨trivial, fun _ _ => ⟨trivial, fun _ _ => trivial⟩⟩, fun along => ?_⟩
  · rw [run_cons, first, Option.bind_some, run_cons, trackedOp, second]
    rfl
  · have beyond : s.1.len + (2 ^ 64 - 1) ≤ b.cap := (along.2 s first).1.inside b second
    omega

end Vaudou
