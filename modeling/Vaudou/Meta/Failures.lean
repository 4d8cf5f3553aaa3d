/-
**What a failed parse leaves behind.**

`metaParseJsonCall` is `vd_meta_parse_json` with its temporary memory. It has three exits: two early
returns, behind the type scan and where there is no descriptor, and the one behind the parse of the
object. The early ones do not free the arena and the buffer (`early_exit`); the late one frees them, but
leaves the object, and the strings that it has, behind in `*out_object` (`late_exit`).

* `metaParseJson_leaves` — no call that fails leaves everything as it was (`MetaCall.Unwinds`).
-/

import Mathlib.Data.List.Perm.Subperm
import Vaudou.Meta.Accepting
import Vaudou.Meta.Buffer
import Vaudou.Meta.IntrusiveArrays
import Vaudou.Meta.RoundTrip

namespace Vaudou

open Vaudou.Memory Vaudou.Run Vaudou.Text

/-! ### The call -/

/-- What a call returns and sets, and the temporary memory behind it. -/
structure MetaCall where
  parsed : MetaParsed
  temp : BlockHeap

section Calls

variable (P : MetaParser) (T : BlockAlloc)

/-- `vd_meta_parse_json` with the temporary allocator `T`. `scanned` and `parsed` are what the strings of
the text push to the buffer, in the type scan and in the parse of the object: any pushes here. -/
def metaParseJsonCall (scanned parsed : List BufferPush) (temp : BlockHeap) (expected : Nat)
    (heap : BlockHeap) (json : List UInt8) : Option MetaCall :=
  (metaArenaInit T temp).bind fun arena =>
    (run (bufferPush T) ⟨0, 0, 0, arena.1⟩ scanned).bind fun btemp =>
      (jsonGetObjectType P expected json).bind fun
        | .error code => some ⟨⟨heap, code, none, none⟩, (bufferClear btemp).heap⟩
        | .ok type =>
          match metaGetDescriptor P.reg type with
          | none => some ⟨⟨heap, metaDescriptorNotFound, none, none⟩, (bufferClear btemp).heap⟩
          | some descriptor =>
            (P.alloc.alloc heap descriptor.size).bind fun granted =>
              (parseJsonObject P (json.length + 1) (zeroedBlock granted descriptor.size) json type
                  granted.2).bind fun object =>
                (run (bufferPush T) (bufferClear btemp) parsed).map fun btemp =>
                  ⟨⟨object.1, resultCode object.2, some granted.2, some type⟩,
                    metaArenaFree (bufferFree btemp).heap arena.2⟩

end Calls

/-- **Nothing is left behind**: `*out_object` and `*options->out_type` have the values they had, and the
blocks that are outstanding, in the temporary memory and in the memory of objects, are among those from
before the call. -/
structure MetaCall.LeavesNothing (call : MetaCall) (heap temp : BlockHeap)
    (object type : Nat) : Prop where
  object : call.parsed.object.getD object = object
  type : call.parsed.type.getD type = type
  temp : call.temp.live.Subperm temp.live
  heap : call.parsed.heap.live.Subperm heap.live

/-- **A failed call unwinds** what it did. -/
def MetaCall.Unwinds (call : MetaCall) (heap temp : BlockHeap) (object type : Nat) : Prop :=
  call.parsed.ret ≠ 0 → call.LeavesNothing heap temp object type

section Exits

variable {P : MetaParser} {T : BlockAlloc} {scanned parsed : List BufferPush} {temp heap : BlockHeap}
  {expected : Nat} {json : List UInt8} {call : MetaCall}

/-- The call parses. -/
theorem metaParseJsonCall_parsed
    (ran : metaParseJsonCall P T scanned parsed temp expected heap json = some call) :
    metaParseJson P expected heap json = some call.parsed := by
  obtain ⟨arena, made, ran⟩ := Option.bind_eq_some_iff.mp ran
  obtain ⟨btemp, pushed, ran⟩ := Option.bind_eq_some_iff.mp ran
  obtain ⟨outcome, scan, ran⟩ := Option.bind_eq_some_iff.mp ran
  unfold metaParseJson
  rw [scan, Option.bind_some]
  cases outcome with
  | error code =>
    cases ran
    rfl
  | ok type =>
    dsimp only at ran ⊢
    cases found : metaGetDescriptor P.reg type with
    | none =>
      rw [found] at ran
      cases ran
      rfl
    | some descriptor =>
      rw [found] at ran
      obtain ⟨granted, alloc, ran⟩ := Option.bind_eq_some_iff.mp ran
      obtain ⟨object, parse, ran⟩ := Option.bind_eq_some_iff.mp ran
      obtain ⟨freed, _, rfl⟩ := Option.map_eq_some_iff.mp ran
      dsimp only
      rw [alloc, Option.bind_some]
      exact Option.map_eq_some_iff.mpr ⟨object, parse, rfl⟩

/-- The buffer is on top of the block of the arena. -/
theorem scanned_onTop {heap' : BlockHeap} {block : Nat} {btemp : MetaBuffer}
    (made : metaArenaInit T temp = some (heap', block))
    (pushed : run (bufferPush T) ⟨0, 0, 0, heap'⟩ scanned = some btemp) :
    btemp.OnTop ((block, 1056) :: temp.live) := by
  obtain ⟨-, arena⟩ := metaArenaInit_spec made
  have start : MetaBuffer.OnTop ⟨0, 0, 0, heap'⟩ heap'.live :=
    ⟨fun _ => ⟨rfl, rfl⟩, fun some_ => absurd rfl some_⟩
  exact arena ▸ start.pushes pushed

/-- **Early exits** set nothing, and leave the block of the arena in the temporary memory, and the block
of the buffer if there is one. -/
theorem early_exit (ran : metaParseJsonCall P T scanned parsed temp expected heap json = some call)
    (early : call.parsed.object = none) : call.parsed.type = none ∧ call.parsed.heap = heap ∧
      ∃ block, call.temp.live = block :: temp.live ∨
        ∃ buffer, call.temp.live = buffer :: block :: temp.live := by
  obtain ⟨⟨heap', block⟩, made, ran⟩ := Option.bind_eq_some_iff.mp ran
  obtain ⟨btemp, pushed, ran⟩ := Option.bind_eq_some_iff.mp ran
  obtain ⟨outcome, scan, ran⟩ := Option.bind_eq_some_iff.mp ran
  have top := scanned_onTop made pushed
  have left : ∃ block, (bufferClear btemp).heap.live = block :: temp.live ∨
      ∃ buffer, (bufferClear btemp).heap.live = buffer :: block :: temp.live := by
    by_cases empty : btemp.cap = 0
    · exact ⟨_, Or.inl (top.empty empty).2⟩
    · exact ⟨_, Or.inr ⟨_, (top.block empty).2⟩⟩
  cases outcome with
  | error code =>
    cases ran
    exact ⟨rfl, rfl, left⟩
  | ok type =>
    dsimp only at ran
    cases found : metaGetDescriptor P.reg type with
    | none =>
      rw [found] at ran
      cases ran
      exact ⟨rfl, rfl, left⟩
    | some descriptor =>
      rw [found] at ran
      obtain ⟨granted, -, ran⟩ := Option.bind_eq_some_iff.mp ran
      obtain ⟨object, -, ran⟩ := Option.bind_eq_some_iff.mp ran
      obtain ⟨freed, -, rfl⟩ := Option.map_eq_some_iff.mp ran
      exact nomatch early

/-- **The late exit** frees the temporary memory, and leaves more blocks outstanding than there were, the
object among them. -/
theorem late_exit (arrays : ∀ field, P.reg.HasField field →
    (field.intrusiveProps.getD P.reg.props).Outstanding)
    (ran : metaParseJsonCall P T scanned parsed temp expected heap json = some call) {object : Nat}
    (late : call.parsed.object = some object) :
    call.temp.live = temp.live ∧ heap.live.length < call.parsed.heap.live.length := by
  obtain ⟨⟨heap', block⟩, made, ran⟩ := Option.bind_eq_some_iff.mp ran
  obtain ⟨btemp, pushed, ran⟩ := Option.bind_eq_some_iff.mp ran
  obtain ⟨outcome, scan, ran⟩ := Option.bind_eq_some_iff.mp ran
  obtain ⟨nonnull, -⟩ := metaArenaInit_spec made
  have top := scanned_onTop made pushed
  cases outcome with
  | error code =>
    cases ran
    exact nomatch late
  | ok type =>
    dsimp only at ran
    cases found : metaGetDescriptor P.reg type with
    | none =>
      rw [found] at ran
      cases ran
      exact nomatch late
    | some descriptor =>
      rw [found] at ran
      obtain ⟨granted, alloc, ran⟩ := Option.bind_eq_some_iff.mp ran
      obtain ⟨parse, done, ran⟩ := Option.bind_eq_some_iff.mp ran
      obtain ⟨last, pushes, rfl⟩ := Option.map_eq_some_iff.mp ran
      refine ⟨release_last nonnull.ne' (top.clear.pushes pushes).freed, ?_⟩
      -- from the grant of the object on, no step leaves fewer blocks outstanding
      have frame : P.Frame fun later => heap.live.length < later.live.length := by
        refine ⟨fun _ _ more => more, fun later size later' p granted more => ?_,
          fun field has later array size later' added more => ?_⟩
        · rw [P.alloc.live granted, List.length_cons]
          exact more.trans (Nat.lt_succ_self _)
        · exact more.trans_le (arrays field has later array size later' added)
      have first : heap.live.length < (zeroedBlock granted descriptor.size).live.length := by
        show heap.live.length < granted.1.live.length
        rw [P.alloc.live alloc, List.length_cons]
        exact Nat.lt_succ_self _
      exact (parseJsonObject_leaves frame _ _ _ _ _ first _ _ done).1

/-- No call leaves everything as it was: there is the arena, or the object. -/
theorem call_leaves
    (arrays : ∀ field, P.reg.HasField field → (field.intrusiveProps.getD P.reg.props).Outstanding)
    (ran : metaParseJsonCall P T scanned parsed temp expected heap json = some call)
      (object type : Nat) :
    ¬ call.LeavesNothing heap temp object type := by
  intro nothing
  cases exit : call.parsed.object with
  | none =>
    obtain ⟨-, -, block, one | ⟨buffer, two⟩⟩ := early_exit ran exit
    · have fewer := nothing.temp.length_le
      rw [one, List.length_cons] at fewer
      omega
    · have fewer := nothing.temp.length_le
      rw [two, List.length_cons, List.length_cons] at fewer
      omega
  | some object' =>
    have more := (late_exit arrays ran exit).2
    exact absurd nothing.heap.length_le (Nat.not_le.mpr more)

/-- **A call that fails does not unwind**, whatever the registry, the type that is expected and the
text. -/
theorem metaParseJson_leaves
    (arrays : ∀ field, P.reg.HasField field → (field.intrusiveProps.getD P.reg.props).Outstanding)
    (ran : metaParseJsonCall P T scanned parsed temp expected heap json = some call)
    (failed : call.parsed.ret ≠ 0) (object type : Nat) : ¬ call.Unwinds heap temp object type :=
  fun unwinds => call_leaves arrays ran object type (unwinds failed)

end Exits

/-! ### A series -/

/-- A series is an array of numbers, and a name. -/
def seriesTypes : List MetaDescriptor :=
  [defaultPrimitive "int32_t" 4 .i32, ⟨ascii "CString", .string, 8, 0, .i8, [], .cstring⟩,
   ⟨ascii "Series", .object, 16, 0, .i8,
     [⟨ascii "numbers", 1, 0, 2, 0, none⟩, .plain "name" 2 8], .cstring⟩]

/-- The registry of the series. -/
def seriesRegistry : MetaRegistry := (metaRegisterAll (metaEmpty (.default .bump)) seriesTypes).1

def seriesParser : MetaParser := ⟨64, markFloats, seriesRegistry, .bump, []⟩

/-- A text that ends behind a name. -/
def seriesText : List UInt8 :=
  ascii "\x7b\"--vd-meta-type-name--\":\"Series\",\"numbers\":[1,2],\"name\":\"ab\""

theorem seriesRegistry_arrays (field : MetaField) (has : seriesRegistry.HasField field) :
    (field.intrusiveProps.getD seriesRegistry.props).Outstanding := by
  have props : seriesRegistry.props = .default .bump := rfl
  obtain ⟨type, descriptor, found, member⟩ := has
  have lists : seriesRegistry.Lists (metaRegisterAll (metaEmpty (.default .bump)) seriesTypes).2 :=
    metaRegisterAll_lists seriesTypes (metaEmpty_lists _)
  obtain ⟨registered, -⟩ := metaGetDescriptor_some lists found
  have inherits : field.intrusiveProps = none := by
    change descriptor ∈ [_, _, _] at registered
    simp only [List.mem_cons, List.not_mem_nil, or_false] at registered
    rcases registered with rfl | rfl | rfl
    · exact absurd member List.not_mem_nil
    · exact absurd member List.not_mem_nil
    · change field ∈ [_, _] at member
      simp only [List.mem_cons, List.not_mem_nil, or_false] at member
      rcases member with rfl | rfl <;> rfl
  rw [inherits, Option.getD_none, props]
  exact default_outstanding .bump

/-- A string of the text. -/
def stringPushes (name : String) : List BufferPush := (ascii name).map .pushchar ++ [.terminate]

/-- A call with empty memories. -/
def seriesCall (scanned parsed : List BufferPush) (json : List UInt8) : Option MetaCall :=
  metaParseJsonCall seriesParser .bump scanned parsed ⟨fun _ => 0, []⟩ 0 ⟨fun _ => 0, []⟩ json

/-- The type name is read twice, the other strings once. -/
def seriesScanned : List BufferPush := stringPushes "--vd-meta-type-name--" ++ stringPushes "Series"

def seriesParsed : List BufferPush :=
  stringPushes "--vd-meta-type-name--" ++ stringPushes "numbers" ++ stringPushes "name" ++ stringPushes "ab"

theorem metaParseJson_leaves_series : ∃ call, seriesCall seriesScanned seriesParsed seriesText =
    some call ∧
    ¬ call.Unwinds ⟨fun _ => 0, []⟩ ⟨fun _ => 0, []⟩ 0 0 := by
  have fails : (seriesCall seriesScanned seriesParsed seriesText).map (·.parsed.ret) = some (-2) := by
    decide +kernel
  obtain ⟨call, ran, ret⟩ := Option.map_eq_some_iff.mp fails
  have failed : call.parsed.ret ≠ 0 := by
    rw [ret]
    decide
  exact ⟨call, ran, metaParseJson_leaves seriesRegistry_arrays ran failed 0 0⟩

/-- **Both kinds of exits leave blocks behind**: a text that is no object the arena, and one that ends
too early the object with its array and its string. -/
theorem failed_parse_leaves :
    (∃ call, seriesCall [] [] (ascii "[]") = some call ∧ call.temp.live = [(1, 1056)] ∧
      ¬ call.Unwinds ⟨fun _ => 0, []⟩ ⟨fun _ => 0, []⟩ 0 0) ∧
    ∃ call, seriesCall seriesScanned seriesParsed seriesText = some call ∧ call.parsed.object = some 1 ∧
      call.parsed.heap.live = [(41, 3), (17, 24), (1, 16)] ∧
      ¬ call.Unwinds ⟨fun _ => 0, []⟩ ⟨fun _ => 0, []⟩ 0 0 := by
  constructor
  · have early : (seriesCall [] [] (ascii "[]")).map (fun call => (call.parsed.ret, call.temp.live)) =
        some (-2, [(1, 1056)]) := by decide +kernel
    obtain ⟨call, ran, same⟩ := Option.map_eq_some_iff.mp early
    obtain ⟨ret, live⟩ := Prod.mk.inj same
    refine ⟨call, ran, live, fun unwinds => ?_⟩
    have fewer := (unwinds (by rw [ret]; decide)).temp.length_le
    rw [live] at fewer
    exact absurd fewer (by decide)
  · have late : (seriesCall seriesScanned seriesParsed seriesText).map
        (fun call => (call.parsed.ret, call.parsed.object, call.parsed.heap.live)) =
          some (-2, some 1, [(41, 3), (17, 24), (1, 16)]) := by decide +kernel
    obtain ⟨call, ran, same⟩ := Option.map_eq_some_iff.mp late
    obtain ⟨ret, same⟩ := Prod.mk.inj same
    obtain ⟨object, live⟩ := Prod.mk.inj same
    refine ⟨call, ran, object, live, fun unwinds => ?_⟩
    have fewer := (unwinds (by rw [ret]; decide)).heap.length_le
    rw [live] at fewer
    exact absurd fewer (by decide)

end Vaudou
