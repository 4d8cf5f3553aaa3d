/-
**Who owns the tails of long keys.**

A `TailRun` is a map with the blocks that were obtained for the keys that are in it. A tail is to be
released with its own size when its key is deleted. `vd__strmap_get_bin` passes `43 - key_len` instead,
which is never the size (`release_size_ne`), and `copy_key` asks what it finds in front of the bin, which is
an allocator in front of the first bin only.

* `strmapTails_iff` — the tails are owned in exactly the runs that delete no long key and store long keys
  where the map's allocator stands in front of the bin.
-/

import Vaudou.StrMap.Scans

namespace Vaudou

open Vaudou.Memory Vaudou.Links Vaudou.Run

/-- A map, and the block that was obtained for the tail of each of its keys. -/
structure TailRun where
  state : StrMapState
  tails : List UInt8 → Option (Nat × Nat)

/-- A block that a set obtained is the tail of its key, until the key is deleted. -/
def TailRun.after (r : TailRun) (op : StrMapOp) (s : StrMapState) : TailRun where
  state := s
  tails := match op with
    | .set key _ =>
      if s.heap.live = r.state.heap.live then r.tails
      else Function.update r.tails key s.heap.live.head?
    | .get _ => r.tails
    | .del key => Function.update r.tails key none

/-- One call. -/
def tailStep (A : BlockAlloc) (r : TailRun) (op : StrMapOp) : Option TailRun :=
  (strmapOpStep A r.state op).map (r.after op)

/-- What the call is to obtain and release: a set the tail of a long key that has none, and a deletion the
tail that the key has. -/
def TailRun.Moves (r : TailRun) (s : StrMapState) : StrMapOp → Prop
  | .set key _ => s.freed = r.state.freed ∧
    if 43 < key.length ∧ r.tails key = none then
      ∃ p, s.heap.live = (p, key.length - 43) :: r.state.heap.live
    else s.heap.live = r.state.heap.live
  | .get _ => s.freed = r.state.freed ∧ s.heap.live = r.state.heap.live
  | .del key => s.freed = r.state.freed ++ (r.tails key).toList ∧ s.heap.live = r.state.heap.live

/-- **The call treats tails as owned**: it is defined, so that no tail is asked of anything but the map's own
allocator, and obtains and releases what it is to. -/
def TailRun.Owns (A : BlockAlloc) (r : TailRun) (op : StrMapOp) : Prop :=
  ∃ s, strmapOpStep A r.state op = some s ∧ r.Moves s op

/-- The allocator of the map stands in front of the bin of a new long key, and grants the tail; and the key
that is deleted has none. -/
def TailRun.Keeps (A : BlockAlloc) (r : TailRun) : StrMapOp → Prop
  | .set key _ => 43 < key.length → r.tails key = none →
    r.state.map.headerAllocator (r.state.map.home key) = r.state.map.allocator ∧
      (A.alloc r.state.heap (key.length - 43)).isSome = true
  | .get _ => True
  | .del key => r.tails key = none

/-- What the home bin of a key has of it. -/
inductive TailRun.Bin (r : TailRun) (key : List UInt8) : Prop
  | absent (used : (r.state.map.bins (r.state.map.home key)).used = false)
      (rest : (r.state.map.bins (r.state.map.home key)).keyRest = 0) (tail : r.tails key = none)
  | short (used : (r.state.map.bins (r.state.map.home key)).used = true)
      (stored : KeyAt r.state.heap (r.state.map.bins (r.state.map.home key)) key)
      (le : key.length ≤ 43) (rest : (r.state.map.bins (r.state.map.home key)).keyRest = 0)
      (tail : r.tails key = none)
  | long (used : (r.state.map.bins (r.state.map.home key)).used = true)
      (stored : KeyAt r.state.heap (r.state.map.bins (r.state.map.home key)) key)
      (lt : 43 < key.length) (rest : (r.state.map.bins (r.state.map.home key)).keyRest ≠ 0)
      (tail : r.tails key =
        some ((r.state.map.bins (r.state.map.home key)).keyRest, key.length - 43))

/-- **The invariant** as long as tails are owned, for keys with different home bins. -/
structure TailRun.Sound (keys : List (List UInt8)) (r : TailRun) : Prop where
  map : r.state.Sound
  bins : ∀ key ∈ keys, r.Bin key
  apart : ∀ key ∈ keys, ∀ key' ∈ keys, r.state.map.home key = r.state.map.home key' → key = key'

section Tails

variable {A : BlockAlloc} {s s' : StrMapState} {r r' : TailRun} {keys : List (List UInt8)}
  {key value : List UInt8}

/-- `43 - key_len` is not the size of a tail. -/
theorem release_size_ne {n : Nat} (long : 43 < n) (bounded : n < 2 ^ 32) :
    (43 + 2 ^ 64 - n) % 2 ^ 64 ≠ n - 43 := by
  omega

theorem takeBin_freed {i : Nat} (took : takeBin A s key i = some s') : s'.freed = s.freed := by
  obtain ⟨copied, copy, rfl⟩ := Option.map_eq_some_iff.mp took
  obtain ⟨-, heap', p, -, rfl⟩ | ⟨-, rfl⟩ := copyKey_cases copy <;> rfl

/-- When `copy_key` is defined. -/
theorem takeBin_defined {i : Nat} : (∃ s', takeBin A s key i = some s') ↔
    (43 < key.length → s.map.headerAllocator i = s.map.allocator ∧
      (A.alloc s.heap (key.length - 43)).isSome = true) := by
  rw [takeBin, ← Option.isSome_iff_exists, Option.isSome_map, copyKey]
  by_cases long : 43 < key.length
  · simp only [if_pos long, forall_prop_of_true long]
    by_cases header : s.map.headerAllocator i = s.map.allocator
    · rw [if_neg (not_not.mpr header), Option.isSome_map]
      exact (and_iff_right header).symm
    · rw [if_pos header]
      exact iff_of_false Bool.false_ne_true fun both => header both.1
  · simp only [if_neg long]
    exact iff_of_true rfl fun lt => absurd lt long

/-- A set of a key that the home bin holds changes the value alone. -/
theorem strmapSet_used (sound : s.Sound) (used : (s.map.bins (s.map.home key)).used = true)
    (stored : KeyAt s.heap (s.map.bins (s.map.home key)) key) :
    strmapSet A s key value = some (s.setValue (s.map.home key) value, true) := by
  unfold strmapSet strmapGetBin
  rw [findBin_sound sound, if_pos ⟨used, stored.checkKey_iff.mpr rfl⟩]
  rfl

/-- A bin that is left alone has of its key what it had. -/
theorem TailRun.Bin.frame (bin : r.Bin key) (home : r'.state.map.home key = r.state.map.home key)
    (same : ∃ value, r'.state.map.bins (r.state.map.home key) =
      { r.state.map.bins (r.state.map.home key) with value := value })
    (kept : r.state.heap.Kept r'.state.heap 0 0) (tails : r'.tails key = r.tails key) : r'.Bin key := by
  obtain ⟨value, same⟩ := same
  have stored : KeyAt r.state.heap (r.state.map.bins (r.state.map.home key)) key →
      KeyAt r'.state.heap (r'.state.map.bins (r'.state.map.home key)) key := by
    intro stored
    rw [home, same]
    exact (stored.kept kept).congr rfl rfl rfl
  cases bin with
  | absent used rest tail =>
    exact .absent (by rw [home, same]; exact used) (by rw [home, same]; exact rest) (tails.trans tail)
  | short used is le rest tail =>
    exact .short (by rw [home, same]; exact used) (stored is) le (by rw [home, same]; exact rest)
      (tails.trans tail)
  | long used is lt rest tail =>
    exact .long (by rw [home, same]; exact used) (stored is) lt (by rw [home, same]; exact rest)
      (by rw [tails, tail, home, same])

/-- **One key changes**: its home bin, and what is known of its tail. -/
theorem TailRun.Sound.update (sound : r.Sound keys) (member : key ∈ keys) (map : r'.state.Sound)
    (home : ∀ k, r'.state.map.home k = r.state.map.home k) (bin : r'.Bin key)
    (others : ∀ i, i ≠ r.state.map.home key → r'.state.map.bins i = r.state.map.bins i)
    (kept : r.state.heap.Kept r'.state.heap 0 0) (tails : ∀ k, k ≠ key → r'.tails k = r.tails k) :
    r'.Sound keys where
  map := map
  bins k memberK := by
    by_cases same : k = key
    · rw [same]
      exact bin
    · have apart : r.state.map.home k ≠ r.state.map.home key := fun homes =>
        same (sound.apart k memberK key member homes)
      exact (sound.bins k memberK).frame (home k) ⟨_, others _ apart⟩ kept (tails k same)
  apart k memberK k' memberK' homes := by
    rw [home, home] at homes
    exact sound.apart k memberK k' memberK' homes

/-- A call that is decided: it treats tails as owned and keeps the invariant, or its condition is not met
and it does not. -/
def TailRun.Decided (A : BlockAlloc) (keys : List (List UInt8)) (r : TailRun) (op : StrMapOp) : Prop :=
  (r.Owns A op ∧ r.Keeps A op ∧ ∀ s, strmapOpStep A r.state op = some s → (r.after op s).Sound keys) ∨
    (¬ r.Owns A op ∧ ¬ r.Keeps A op)

/-- A defined call that moves tails as it is to. -/
theorem TailRun.Decided.of_moves {op : StrMapOp} (stepped : strmapOpStep A r.state op = some s)
    (moves : r.Moves s op) (keeps : r.Keeps A op) (sound : (r.after op s).Sound keys) :
    r.Decided A keys op := by
  refine Or.inl ⟨⟨s, stepped, moves⟩, keeps, fun s' stepped' => ?_⟩
  obtain rfl := Option.some.inj (stepped.symm.trans stepped')
  exact sound

/-- A value is overwritten. -/
theorem TailRun.Sound.overwrite (sound : r.Sound keys) (member : key ∈ keys)
    (used : (r.state.map.bins (r.state.map.home key)).used = true)
    (stored : KeyAt r.state.heap (r.state.map.bins (r.state.map.home key)) key)
    (tail : 43 < key.length → r.tails key ≠ none) : r.Decided A keys (.set key value) := by
  have stepped : strmapOpStep A r.state (.set key value) =
      some (r.state.setValue (r.state.map.home key) value) := by
    rw [strmapOpStep, strmapSet_used sound.map used stored]
    rfl
  refine .of_moves stepped ⟨rfl, ?_⟩ (fun lt none_ => absurd none_ (tail lt)) ?_
  · rw [if_neg fun both => tail both.1 both.2]
    rfl
  · have after : (r.after (.set key value) (r.state.setValue (r.state.map.home key) value)).tails =
        r.tails := if_pos rfl
    refine sound.update member (sound.map.setValue _ _) (fun _ => rfl) ?_
      (fun i other => r.state.setValue_other value other) (.refl _ _ _) fun k _ => by rw [after]
    refine (sound.bins key member).frame rfl ⟨value, ?_⟩ (.refl _ _ _) (by rw [after])
    exact Function.update_self _ _ _

/-- What the home bin has of a new key, up to its tail. -/
theorem StrMapState.Takes.homeBin {t : StrMapState} (takes : s.Takes key (s.map.home key) t)
    (value : List UInt8) :
    ((t.setValue (s.map.home key) value).map.bins
        ((t.setValue (s.map.home key) value).map.home key)).used = true ∧
      KeyAt t.heap ((t.setValue (s.map.home key) value).map.bins
        ((t.setValue (s.map.home key) value).map.home key)) key ∧
      ((t.setValue (s.map.home key) value).map.bins
        ((t.setValue (s.map.home key) value).map.home key)).keyRest =
          (t.map.bins (s.map.home key)).keyRest := by
  have home : (t.setValue (s.map.home key) value).map.home key = s.map.home key := takes.home key
  have bin : (t.setValue (s.map.home key) value).map.bins (s.map.home key) =
      { t.map.bins (s.map.home key) with value := value } := Function.update_self _ _ _
  rw [home, bin]
  exact ⟨takes.used, takes.stored.congr rfl rfl rfl, rfl⟩

/-- A new key changes its home bin alone. -/
theorem TailRun.Sound.created (sound : r.Sound keys) (member : key ∈ keys) {t : StrMapState}
    (takes : r.state.Takes key (r.state.map.home key) t)
    (state : r'.state = t.setValue (r.state.map.home key) value) (bin : r'.Bin key)
    (tails : ∀ k, k ≠ key → r'.tails k = r.tails k) : r'.Sound keys := by
  obtain ⟨_, _⟩ := r'
  obtain rfl := state
  refine sound.update member ((takes.sound sound.map).setValue _ _) (fun k => takes.home k) bin
    (fun i other => ?_) takes.kept tails
  exact (t.setValue_other value other).trans (takes.others i other)

/-- A new key that the home bin takes. -/
theorem TailRun.Sound.create_taken (sound : r.Sound keys) (member : key ∈ keys)
    (free : (r.state.map.bins (r.state.map.home key)).used = false)
    (rest : (r.state.map.bins (r.state.map.home key)).keyRest = 0) (tail : r.tails key = none)
    {t : StrMapState} (took : takeBin A r.state key (r.state.map.home key) = some t) :
    r.Decided A keys (.set key value) := by
  have takes := takeBin_takes took
  have freed : t.freed = r.state.freed := takeBin_freed took
  have keeps : r.Keeps A (.set key value) := fun lt _ => takeBin_defined.mp ⟨t, took⟩ lt
  have stepped : strmapOpStep A r.state (.set key value) =
      some (t.setValue (r.state.map.home key) value) := by
    rw [strmapOpStep, strmapSet_free sound.map free, took]
    rfl
  obtain ⟨used, stored, keyRest⟩ := takes.homeBin value
  cases takeBin_gets took with
  | short le heap keyRest' =>
    have same : (r.after (.set key value) (t.setValue (r.state.map.home key) value)).tails =
        r.tails := if_pos (congrArg BlockHeap.live heap)
    refine .of_moves stepped ⟨freed, ?_⟩ keeps
      (sound.created member takes rfl (.short used stored le ?_ ?_) fun k _ => by rw [same])
    · rw [if_neg fun both => absurd both.1 (Nat.not_lt.mpr le)]
      exact congrArg BlockHeap.live heap
    · exact keyRest.trans (keyRest'.trans rest)
    · rw [same, tail]
  | long lt heap' granted live =>
    have obtained : t.heap.live =
        ((t.map.bins (r.state.map.home key)).keyRest, key.length - 43) :: r.state.heap.live :=
      live.trans (A.live granted)
    have changed : ¬ t.heap.live = r.state.heap.live := by
      rw [obtained]
      exact List.cons_ne_self _ _
    have new : (r.after (.set key value) (t.setValue (r.state.map.home key) value)).tails =
        Function.update r.tails key t.heap.live.head? := if_neg changed
    refine .of_moves stepped ⟨freed, ?_⟩ keeps
      (sound.created member takes rfl (.long used stored lt ?_ ?_) fun k other => ?_)
    · rw [if_pos ⟨lt, tail⟩]
      exact ⟨_, obtained⟩
    · exact fun zero => Nat.ne_of_gt (A.nonnull granted) (keyRest.symm.trans zero)
    · rw [new, Function.update_self, obtained]
      exact congrArg (fun p => some (p, key.length - 43)) keyRest.symm
    · rw [new, Function.update_of_ne other]

/-- A new key. -/
theorem TailRun.Sound.create (sound : r.Sound keys) (member : key ∈ keys)
    (free : (r.state.map.bins (r.state.map.home key)).used = false)
    (rest : (r.state.map.bins (r.state.map.home key)).keyRest = 0) (tail : r.tails key = none) :
    r.Decided A keys (.set key value) := by
  by_cases defined : ∃ t, takeBin A r.state key (r.state.map.home key) = some t
  · obtain ⟨t, took⟩ := defined
    exact sound.create_taken member free rest tail took
  · refine Or.inr ⟨?_, fun keeps => defined (takeBin_defined.mpr fun lt => keeps lt tail)⟩
    rintro ⟨s, stepped, -⟩
    rw [strmapOpStep, strmapSet_free sound.map free] at stepped
    obtain ⟨placed, placing, -⟩ := Option.map_eq_some_iff.mp stepped
    obtain ⟨t, took, -⟩ := Option.map_eq_some_iff.mp placing
    exact defined ⟨t, took⟩

/-- A key that is not in the map is deleted. -/
theorem TailRun.Sound.del_absent (sound : r.Sound keys) (member : key ∈ keys)
    (free : (r.state.map.bins (r.state.map.home key)).used = false) (tail : r.tails key = none) :
    r.Decided A keys (.del key) := by
  have stepped : strmapOpStep A r.state (.del key) = some r.state := by
    rw [strmapOpStep, strmapDel, strmapGetBin, findBin_sound sound.map,
      if_neg fun both => absurd both.1 (Bool.eq_false_iff.mp free)]
    rfl
  have bin := sound.bins key member
  have same : (r.after (.del key) r.state).tails = r.tails := by
    show Function.update r.tails key none = r.tails
    rw [← tail, Function.update_eq_self]
  refine .of_moves stepped ⟨?_, rfl⟩ tail ?_
  · rw [tail]
    exact (List.append_nil _).symm
  · exact sound.update member sound.map (fun _ => rfl)
      (bin.frame rfl ⟨_, rfl⟩ (.refl _ _ _) (by rw [same])) (fun _ _ => rfl) (.refl _ _ _)
      fun k _ => by rw [same]

/-- A key of the map is deleted. -/
theorem TailRun.Sound.del_stored (sound : r.Sound keys) (member : key ∈ keys)
    (bounded : key.length < 2 ^ 32)
    (used : (r.state.map.bins (r.state.map.home key)).used = true)
    (stored : KeyAt r.state.heap (r.state.map.bins (r.state.map.home key)) key)
    (tail : (r.state.map.bins (r.state.map.home key)).keyRest = 0 ∧ r.tails key = none ∨
      43 < key.length ∧ (r.state.map.bins (r.state.map.home key)).keyRest ≠ 0 ∧
        r.tails key = some ((r.state.map.bins (r.state.map.home key)).keyRest, key.length - 43)) :
    r.Decided A keys (.del key) := by
  have stepped : strmapOpStep A r.state (.del key) =
      some (unuseBin r.state (r.state.map.home key)) := by
    rw [strmapOpStep, strmapDel, strmapGetBin, findBin_sound sound.map,
      if_pos ⟨used, stored.checkKey_iff.mpr rfl⟩]
    rfl
  rcases tail with ⟨rest, tail⟩ | ⟨lt, rest, tail⟩
  · refine .of_moves stepped ⟨?_, rfl⟩ tail ?_
    · rw [tail]
      exact (if_pos rest).trans (List.append_nil _).symm
    · have bin : (unuseBin r.state (r.state.map.home key)).map.bins (r.state.map.home key) =
          { r.state.map.bins (r.state.map.home key) with used := false } := Function.update_self _ _ _
      refine sound.update member (sound.map.unuse _) (fun _ => rfl) (.absent ?_ ?_ ?_)
        (fun i other => Function.update_of_ne other _ _) (.refl _ _ _)
        fun k other => Function.update_of_ne other _ _
      · exact congrArg StrBin.used bin
      · exact (congrArg StrBin.keyRest bin).trans rest
      · exact Function.update_self _ _ _
  · -- the size that is passed is not that of the tail
    refine Or.inr ⟨?_, fun keeps => ?_⟩
    · rintro ⟨s, stepped', freed, -⟩
      obtain rfl := Option.some.inj (stepped.symm.trans stepped')
      have released : (unuseBin r.state (r.state.map.home key)).freed = r.state.freed ++
          [((r.state.map.bins (r.state.map.home key)).keyRest, (43 + 2 ^ 64 -
            (r.state.map.bins (r.state.map.home key)).keyLen) % 2 ^ 64)] := if_neg rest
      rw [released, tail, stored.length] at freed
      have sizes := List.append_cancel_left freed
      simp only [Option.toList_some, List.cons.injEq, Prod.mk.injEq, true_and, and_true] at sizes
      exact release_size_ne lt bounded sizes
    · rw [TailRun.Keeps, tail] at keeps
      cases keeps

/-- **Every call is decided.** -/
theorem TailRun.Sound.decided (sound : r.Sound keys) (op : StrMapOp) (member : op.key ∈ keys)
    (bounded : op.key.length < 2 ^ 32) : r.Decided A keys op := by
  cases op with
  | set key value =>
    cases sound.bins key member with
    | absent used rest tail => exact sound.create member used rest tail
    | short used stored le _ _ =>
      exact sound.overwrite member used stored fun lt => absurd le (Nat.not_le.mpr lt)
    | long used stored _ _ tail =>
      refine sound.overwrite member used stored fun _ => ?_
      rw [tail]
      exact Option.some_ne_none _
  | get key =>
    obtain ⟨found, got⟩ : ∃ found, strmapGet A r.state key = some found := by
      rw [← Option.isSome_iff_exists, strmapGet, strmapGetBin, findBin_sound sound.map]
      split <;> rfl
    have stepped : strmapOpStep A r.state (.get key) = some r.state := by
      rw [strmapOpStep, got]
      rfl
    exact .of_moves stepped ⟨rfl, rfl⟩ trivial ⟨sound.map, sound.bins, sound.apart⟩
  | del key =>
    cases sound.bins key member with
    | absent used rest tail => exact sound.del_absent member used tail
    | short used stored _ rest tail =>
      exact sound.del_stored member bounded used stored (Or.inl ⟨rest, tail⟩)
    | long used stored lt rest tail =>
      exact sound.del_stored member bounded used stored (Or.inr ⟨lt, rest, tail⟩)

/-- A fresh map has no keys. -/
theorem strmapInit_tails {allocator tsize capTotal : Nat} {behind : Nat → StrBin} {heap : BlockHeap}
    (two : 2 ≤ capTotal) (apart : ∀ key ∈ keys, ∀ key' ∈ keys,
      vdHash key % reducedCap capTotal = vdHash key' % reducedCap capTotal → key = key') :
    TailRun.Sound keys ⟨⟨strmapInit allocator tsize capTotal behind, heap, []⟩, fun _ => none⟩ where
  map := strmapInit_sound two
  bins key _ := by
    have home : vdHash key % reducedCap capTotal < capTotal :=
      lt_of_lt_of_le (Nat.mod_lt _ (reducedCap_bounds two).1) (reducedCap_bounds two).2
    have zero : (strmapInit allocator tsize capTotal behind).bins (vdHash key % reducedCap capTotal) =
        .zero tsize := if_pos home
    exact .absent (congrArg StrBin.used zero) (congrArg StrBin.keyRest zero) rfl
  apart := apart

/-- **When tails are owned.** In a run of sets, overwrites and deletions of keys of any length with
different home bins, every tail is obtained from the map's own allocator and released once, with its size,
when its key is deleted, exactly if no deletion of the run finds a long key, and every new long key goes to
a bin with the map's allocator in front of it, and is granted its tail. -/
theorem strmapTails_iff (A : BlockAlloc) {allocator tsize capTotal : Nat} {behind : Nat → StrBin}
    {heap : BlockHeap} (two : 2 ≤ capTotal) {ops : List StrMapOp}
    (bounded : ∀ op ∈ ops, op.key.length < 2 ^ 32)
    (apart : ∀ op ∈ ops, ∀ op' ∈ ops, vdHash op.key % reducedCap capTotal =
      vdHash op'.key % reducedCap capTotal → op.key = op'.key) :
    let start : TailRun := ⟨⟨strmapInit allocator tsize capTotal behind, heap, []⟩, fun _ => none⟩
    Along (tailStep A) (TailRun.Owns A) start ops ↔ Along (tailStep A) (TailRun.Keeps A) start ops := by
  intro start
  have sound : start.Sound (ops.map StrMapOp.key) := by
    refine strmapInit_tails two fun key member key' member' homes => ?_
    obtain ⟨op, memberOp, rfl⟩ := List.mem_map.mp member
    obtain ⟨op', memberOp', rfl⟩ := List.mem_map.mp member'
    exact apart op memberOp op' memberOp' homes
  refine along_congr (I := TailRun.Sound (ops.map StrMapOp.key)) ?_ ?_ sound
  · intro r op member sound
    rcases sound.decided (A := A) op (List.mem_map_of_mem member) (bounded op member)
      with ⟨owns, keeps, -⟩ | ⟨owns, keeps⟩
    · exact iff_of_true owns keeps
    · exact iff_of_false owns keeps
  · intro r op member r' sound keeps stepped
    rcases sound.decided (A := A) op (List.mem_map_of_mem member) (bounded op member)
      with ⟨-, -, next⟩ | ⟨-, lost⟩
    · obtain ⟨s, called, rfl⟩ := Option.map_eq_some_iff.mp stepped
      exact next s called
    · exact absurd keeps lost

/-- A long key that is set twice. -/
theorem strmapTails_iff_overwrite : 2 ≤ 2 ∧
    let ops := [StrMapOp.set (List.replicate 50 97) [1], .set (List.replicate 50 97) [2]]
    (∀ op ∈ ops, op.key.length < 2 ^ 32) ∧
    (∀ op ∈ ops, ∀ op' ∈ ops, vdHash op.key % reducedCap 2 = vdHash op'.key % reducedCap 2 →
      op.key = op'.key) ∧
    let start : TailRun := ⟨emptyStrMap 2, fun _ => none⟩
    (Along (tailStep .bump) (TailRun.Owns .bump) start ops ↔
      Along (tailStep .bump) (TailRun.Keeps .bump) start ops) := by
  have bounded : ∀ op ∈ [StrMapOp.set (List.replicate 50 97) [1], .set (List.replicate 50 97) [2]],
      op.key.length < 2 ^ 32 := by decide
  have apart : ∀ op ∈ [StrMapOp.set (List.replicate 50 97) [1], .set (List.replicate 50 97) [2]],
      ∀ op' ∈ [StrMapOp.set (List.replicate 50 97) [1], .set (List.replicate 50 97) [2]],
        vdHash op.key % reducedCap 2 = vdHash op'.key % reducedCap 2 → op.key = op'.key := by
    decide +kernel
  exact ⟨by decide, bounded, apart, strmapTails_iff .bump (by decide) bounded apart⟩

/-- **A tail is released with another size** when its key is deleted. -/
theorem tail_released_wrong :
    ¬ Along (tailStep .bump) (TailRun.Owns .bump) ⟨emptyStrMap 2, fun _ => none⟩
      [.set (List.replicate 50 97) [1], .del (List.replicate 50 97)] := by
  rintro ⟨-, later⟩
  obtain ⟨⟨s, stepped, freed, -⟩, -⟩ := later
    ((tailStep .bump ⟨emptyStrMap 2, fun _ => none⟩ (.set (List.replicate 50 97) [1])).get
      (by decide +kernel)) (Option.some_get _).symm
  have released : (strmapOpStep .bump ((tailStep .bump ⟨emptyStrMap 2, fun _ => none⟩
      (.set (List.replicate 50 97) [1])).get (by decide +kernel)).state
        (.del (List.replicate 50 97))).map StrMapState.freed = some [(1, 2 ^ 64 - 7)] := by
    decide +kernel
  rw [stepped, Option.map_some, freed] at released
  exact absurd released (by decide +kernel)

end Tails

end Vaudou
