/-
**The defaults of struct properties.**

`alloc_copy_or_zero_properties` gives every struct property a block of its own: it runs once from the caller's
properties to the blueprint and once from there to the material. Bytes are copied where the source has none,
and zeros are written where it has some.

* `CopiedInto` — what one run of it leaves: private blocks of zeros.
* **`defaults_reach_iff`** — the materials of a blueprint start with its defaults exactly when all of them are
  given and zero.
-/

import Vaudou.Foundation.BlockHeap
import Vaudou.Renderer.UniformBuffers

namespace Vaudou

open Vaudou.Memory

/-! ### Copies -/

section Copies

/-- What comes of copying properties: a null pointer is read, there is no memory, or the copies. -/
inductive CopyOutcome where
  | nullRead
  | noMemory
  | made (dst : List MaterialProperty) (heap : BlockHeap)

/-- A copy in front of the others. -/
def CopyOutcome.cons (first : MaterialProperty) : CopyOutcome → CopyOutcome
  | .made dst heap => .made (first :: dst) heap
  | outcome => outcome

/-- `alloc_copy_or_zero_properties`, with the blocks that it obtains. -/
def copyOrZero (A : BlockAlloc) : List MaterialProperty → BlockHeap → CopyOutcome
  | [], heap => .made [] heap
  | src :: rest, heap =>
    if src.type = .struct then
      match A.alloc heap src.struct_size with
      | none => .noMemory
      | some (granted, block) =>
        -- the test is the wrong way round: without bytes, they are copied from a null pointer
        if src.pstruct = 0 then
          if 0 < src.struct_size then .nullRead
          else (copyOrZero A rest granted).cons { src with pstruct := block }
        else
          (copyOrZero A rest
            { granted with mem := granted.mem.store block (List.replicate src.struct_size 0) }).cons
            { src with pstruct := block }
    else (copyOrZero A rest heap).cons src

/-- The bytes that the struct properties take. -/
def structBytes (properties : List MaterialProperty) : Nat :=
  ((structs properties).map (·.struct_size)).sum

/-- The default bytes of a property if they are given, and zeros otherwise. -/
def MaterialProperty.default (property : MaterialProperty) (mem : Mem) : List UInt8 :=
  if property.pstruct = 0 then List.replicate property.struct_size 0
  else mem.load property.pstruct property.struct_size

/-- **A private block**, obtained since the heap was `before`. -/
def MaterialProperty.Private (property : MaterialProperty) (before heap : BlockHeap) : Prop :=
  ∀ x, property.pstruct ≤ x → x < property.pstruct + property.struct_size → heap.Owns x ∧ ¬ before.Owns x

/-- The blocks of two properties have no byte in common. -/
def BlocksApart (property other : MaterialProperty) : Prop :=
  property.type = .struct → other.type = .struct → ∀ x, property.pstruct ≤ x →
    x < property.pstruct + property.struct_size → other.pstruct ≤ x → other.pstruct + other.struct_size ≤ x

/-- **The struct properties start with the defaults** of the caller's properties `src`, which were in `mem`:
each in a private block. -/
structure StartsWithDefaults (src : List MaterialProperty) (mem : Mem) (before heap : BlockHeap)
    (dst : List MaterialProperty) : Prop where
  bindings : dst.map MaterialProperty.binding = src.map MaterialProperty.binding
  bytes : ∀ (i : Nat) (given property : MaterialProperty), src[i]? = some given → dst[i]? = some property →
    property.type = .struct → heap.mem.load property.pstruct property.struct_size = given.default mem
  own : ∀ property ∈ dst, property.type = .struct → property.Private before heap
  apart : dst.Pairwise BlocksApart

/-- **The defaults reach the materials**: the blueprint is made, and so is every material, in any later heap that
has memory left, with the defaults of the caller's properties. -/
def DefaultsReach (A : BlockAlloc) (src : List MaterialProperty) (heap : BlockHeap) : Prop :=
  ∃ blueprint made, copyOrZero A src heap = .made blueprint made ∧
    ∀ later : BlockHeap, made.live ⊆ later.live → (∀ x, made.Owns x → later.mem x = made.mem x) →
      Roomy A later (structBytes src) →
        ∃ material heap', copyOrZero A blueprint later = .made material heap' ∧
          StartsWithDefaults src heap.mem later heap' material

/-- The default of a property is given and zero, or has no bytes. -/
def MaterialProperty.ZeroDefault (property : MaterialProperty) (mem : Mem) : Prop :=
  property.struct_size = 0 ∨ (property.pstruct ≠ 0 ∧
    mem.load property.pstruct property.struct_size = List.replicate property.struct_size 0)

end Copies

/-! ### One run over the properties -/

section Spec

variable {A : BlockAlloc} {src dst : List MaterialProperty} {first : MaterialProperty}
  {heap heap' granted start : BlockHeap} {block used budget : Nat}

/-- **What a run leaves**: private blocks of zeros, and everything else as it was. -/
structure CopiedInto (src dst : List MaterialProperty) (heap heap' : BlockHeap) : Prop where
  bindings : dst.map MaterialProperty.binding = src.map MaterialProperty.binding
  live : heap.live ⊆ heap'.live
  same : ∀ x, heap.Owns x → heap'.mem x = heap.mem x
  own : ∀ property ∈ dst, property.type = .struct → property.Private heap heap'
  zeros : ∀ property ∈ dst, property.type = .struct → property.pstruct ≠ 0 ∧
    heap'.mem.load property.pstruct property.struct_size = List.replicate property.struct_size 0
  apart : dst.Pairwise BlocksApart

theorem CopiedInto.nil : CopiedInto [] [] heap heap :=
  ⟨rfl, List.Subset.refl _, fun _ _ => rfl, by simp, by simp, List.Pairwise.nil⟩

/-- A property that is no struct in front. -/
theorem CopiedInto.cons_other (copied : CopiedInto src dst heap heap') (kind : first.type ≠ .struct) :
    CopiedInto (first :: src) (first :: dst) heap heap' := by
  refine ⟨congrArg (_ :: ·) copied.bindings, copied.live, copied.same, ?_, ?_, ?_⟩
  · intro property member struct_
    rcases List.mem_cons.mp member with rfl | member
    · exact absurd struct_ kind
    · exact copied.own property member struct_
  · intro property member struct_
    rcases List.mem_cons.mp member with rfl | member
    · exact absurd struct_ kind
    · exact copied.zeros property member struct_
  · exact List.pairwise_cons.mpr ⟨fun _ _ struct_ => absurd struct_ kind, copied.apart⟩

/-- **A struct in front**, whose block was just granted and holds zeros. -/
theorem CopiedInto.cons_struct {mem : Mem}
    (alloc : A.alloc heap first.struct_size = some (granted, block))
    (kept : ∀ x, heap.Owns x → mem x = heap.mem x)
    (zeros : mem.load block first.struct_size = List.replicate first.struct_size 0)
    (copied : CopiedInto src dst { granted with mem } heap') :
    CopiedInto (first :: src) ({ first with pstruct := block } :: dst) heap heap' := by
  have live : heap.live ⊆ granted.live := by
    rw [A.live alloc]
    exact List.subset_cons_self _ _
  have owns : ∀ x, block ≤ x → x < block + first.struct_size → (BlockHeap.mk mem granted.live).Owns x :=
    fun x low high => BlockAlloc.owns alloc x low high
  refine ⟨congrArg (_ :: ·) copied.bindings, List.Subset.trans live copied.live, ?_, ?_, ?_, ?_⟩
  · intro x own
    exact (copied.same x (own.mono live)).trans (kept x own)
  · intro property member struct_ x low high
    rcases List.mem_cons.mp member with rfl | member
    · exact ⟨(owns x low high).mono copied.live, A.apart alloc x low high⟩
    · obtain ⟨own, new⟩ := copied.own property member struct_ x low high
      exact ⟨own, fun old => new (old.mono live)⟩
  · intro property member struct_
    rcases List.mem_cons.mp member with rfl | member
    · refine ⟨Nat.pos_iff_ne_zero.mp (A.nonnull alloc), ?_⟩
      show heap'.mem.load block first.struct_size = _
      rw [← zeros]
      exact load_congr fun x low high => copied.same x (owns x low high)
    · exact copied.zeros property member struct_
  · refine List.pairwise_cons.mpr ⟨fun other member _ struct_ x low high otherLow => ?_, copied.apart⟩
    -- the other block was granted when this one was handed out
    by_contra inside
    exact (copied.own other member struct_ x otherLow (Nat.lt_of_not_le inside)).2 (owns x low high)

theorem cons_made {outcome : CopyOutcome} (made : outcome.cons first = .made dst heap') :
    ∃ rest, outcome = .made rest heap' ∧ dst = first :: rest := by
  cases outcome with
  | made rest heap =>
    cases made
    exact ⟨rest, rfl, rfl⟩
  | nullRead => cases made
  | noMemory => cases made

/-- **How the first property was copied**: as it is, or into a block with zeros that is granted. -/
theorem copyOrZero_first {rest : List MaterialProperty}
    (made : copyOrZero A (first :: rest) heap = .made dst heap') :
    (first.type ≠ .struct ∧ ∃ later, copyOrZero A rest heap = .made later heap' ∧ dst = first :: later) ∨
      (first.type = .struct ∧ (first.pstruct = 0 → first.struct_size = 0) ∧ ∃ granted block mem later,
        A.alloc heap first.struct_size = some (granted, block) ∧ (∀ x, heap.Owns x → mem x = heap.mem x) ∧
          mem.load block first.struct_size = List.replicate first.struct_size 0 ∧
            copyOrZero A rest { granted with mem } = .made later heap' ∧
              dst = { first with pstruct := block } :: later) := by
  unfold copyOrZero at made
  by_cases kind : first.type = .struct
  · rw [if_pos kind] at made
    cases alloc : A.alloc heap first.struct_size with
    | none =>
      rw [alloc] at made
      cases made
    | some grant =>
      obtain ⟨granted, block⟩ := grant
      rw [alloc] at made
      simp only at made
      by_cases null : first.pstruct = 0
      · rw [if_pos null] at made
        by_cases some_ : 0 < first.struct_size
        · rw [if_pos some_] at made
          cases made
        · rw [if_neg some_] at made
          obtain ⟨later, copied, rfl⟩ := cons_made made
          have empty : first.struct_size = 0 := Nat.eq_zero_of_not_pos some_
          exact Or.inr ⟨kind, fun _ => empty, granted, block, granted.mem, later, rfl, A.keeps alloc,
            by rw [empty]; rfl, copied, rfl⟩
      · rw [if_neg null] at made
        obtain ⟨later, copied, rfl⟩ := cons_made made
        have size := List.length_replicate (n := first.struct_size) (a := (0 : UInt8))
        have stored := load_store_same granted.mem block (List.replicate first.struct_size 0)
        rw [size] at stored
        exact Or.inr ⟨kind, fun zero => absurd zero null, granted, block, _, later, rfl,
          fun x own => (BlockAlloc.store_outside alloc size.le own).trans (A.keeps alloc x own), stored,
          copied, rfl⟩
  · rw [if_neg kind] at made
    obtain ⟨later, copied, rfl⟩ := cons_made made
    exact Or.inl ⟨kind, later, copied, rfl⟩

/-- **What copying leaves.** -/
theorem copyOrZero_copied : ∀ {src dst : List MaterialProperty} {heap heap' : BlockHeap},
    copyOrZero A src heap = .made dst heap' → CopiedInto src dst heap heap' ∧
      ∀ property ∈ src, property.type = .struct → property.pstruct = 0 → property.struct_size = 0
  | [], dst, heap, heap', made => by
    cases made
    exact ⟨.nil, by simp⟩
  | first :: rest, dst, heap, heap', made => by
    rcases copyOrZero_first made with ⟨kind, later, copied, rfl⟩ |
      ⟨kind, here, granted, block, mem, later, alloc, kept, zeros, copied, rfl⟩
    · obtain ⟨into, given⟩ := copyOrZero_copied copied
      refine ⟨into.cons_other kind, fun property member struct_ => ?_⟩
      rcases List.mem_cons.mp member with rfl | member
      · exact absurd struct_ kind
      · exact given property member struct_
    · obtain ⟨into, given⟩ := copyOrZero_copied copied
      refine ⟨into.cons_struct alloc kept zeros, fun property member struct_ => ?_⟩
      rcases List.mem_cons.mp member with rfl | member
      · exact here
      · exact given property member struct_

/-- **Copying succeeds** where there is memory for the blocks and no null pointer to read. -/
theorem copyOrZero_made : ∀ {src : List MaterialProperty} {heap : BlockHeap} {used : Nat},
    Granted A start heap used → Roomy A start budget → used + structBytes src ≤ budget →
      (∀ property ∈ src, property.type = .struct → property.pstruct = 0 → property.struct_size = 0) →
        ∃ dst heap', copyOrZero A src heap = .made dst heap' ∧ Granted A start heap' (used + structBytes src)
  | [], heap, used, granted, _, _, _ => ⟨[], heap, rfl, granted⟩
  | first :: rest, heap, used, granted, roomy, fits, given => by
    have later : ∀ property ∈ rest, property.type = .struct → property.pstruct = 0 →
        property.struct_size = 0 := fun property member => given property (List.mem_cons_of_mem _ member)
    unfold copyOrZero
    by_cases kind : first.type = .struct
    · have bytes : structBytes (first :: rest) = first.struct_size + structBytes rest := by
        rw [structBytes, structs_cons_struct kind, List.map_cons, List.sum_cons]
        rfl
      rw [bytes] at fits ⊢
      rw [if_pos kind, ← Nat.add_assoc]
      obtain ⟨⟨next, block⟩, alloc⟩ := Option.isSome_iff_exists.mp
        (roomy heap used first.struct_size granted (by omega))
      rw [alloc]
      have after := granted.alloc alloc
      simp only
      by_cases null : first.pstruct = 0
      · have empty := given first List.mem_cons_self kind null
        rw [if_pos null, if_neg (by omega)]
        obtain ⟨dst, heap', made, done⟩ := copyOrZero_made after roomy (by omega) later
        exact ⟨_, heap', by rw [made]; rfl, done⟩
      · rw [if_neg null]
        obtain ⟨dst, heap', made, done⟩ := copyOrZero_made
          (after.write (next.mem.store block (List.replicate first.struct_size 0))) roomy (by omega) later
        exact ⟨_, heap', by rw [made]; rfl, done⟩
    · have bytes : structBytes (first :: rest) = structBytes rest := by
        rw [structBytes, structs_cons_other kind]
        rfl
      rw [bytes] at fits ⊢
      rw [if_neg kind]
      obtain ⟨dst, heap', made, done⟩ := copyOrZero_made granted roomy fits later
      exact ⟨_, heap', by rw [made]; rfl, done⟩

/-- The blocks are those of the properties in the handle maps. -/
theorem copyOrZero_addresses : ∀ {src dst : List MaterialProperty} {heap heap' : BlockHeap},
    copyOrZero A src heap = .made dst heap' →
      allocCopyOrZeroProperties src ((structs dst).map (·.pstruct)) = some dst
  | [], dst, heap, heap', made => by
    cases made
    rfl
  | first :: rest, dst, heap, heap', made => by
    unfold allocCopyOrZeroProperties
    rcases copyOrZero_first made with ⟨kind, later, copied, rfl⟩ |
      ⟨kind, here, granted, block, mem, later, alloc, kept, zeros, copied, rfl⟩
    · rw [if_neg kind, structs_cons_other kind, copyOrZero_addresses copied]
      rfl
    · rw [if_pos kind, if_neg (fun null => absurd (here null.1) (Nat.ne_of_gt null.2)),
        structs_cons_struct (p := { first with pstruct := block }) kind]
      show (allocCopyOrZeroProperties rest ((structs later).map (·.pstruct))).map _ = _
      rw [copyOrZero_addresses copied]
      rfl

end Spec

/-! ### Defaults -/

section Defaults

variable {A : BlockAlloc} {src dst : List MaterialProperty} {start heap heap' : BlockHeap}
  {used more budget : Nat}

theorem granted_trans (first : Granted A start heap used) (second : Granted A heap heap' more) :
    Granted A start heap' (used + more) := by
  induction second with
  | start => exact first
  | alloc _ alloc ih =>
    rw [← Nat.add_assoc]
    exact ih.alloc alloc
  | write mem _ ih => exact ih.write mem

/-- What is left of the memory. -/
theorem roomy_left (roomy : Roomy A start (used + budget)) (granted : Granted A start heap used) :
    Roomy A heap budget :=
  fun next taken size more fits => roomy next (used + taken) size (granted_trans granted more) (by omega)

theorem structBytes_bindings
    (same : dst.map MaterialProperty.binding = src.map MaterialProperty.binding) :
    structBytes dst = structBytes src := by
  have sizes : ∀ properties : List MaterialProperty, structBytes properties =
      ((structBindings (properties.map MaterialProperty.binding)).map (·.struct_size)).sum := by
    intro properties
    rw [structs_bindings, List.map_map]
    rfl
  rw [sizes, sizes, same]

/-- The property at the same place has the same binding. -/
theorem binding_at (same : dst.map MaterialProperty.binding = src.map MaterialProperty.binding) {i : Nat}
    {given : MaterialProperty} (here : src[i]? = some given) :
    ∃ property, dst[i]? = some property ∧ property.binding = given.binding := by
  have mapped : (dst.map MaterialProperty.binding)[i]? = some given.binding := by
    rw [same, List.getElem?_map, here]
    rfl
  rw [List.getElem?_map] at mapped
  exact Option.map_eq_some_iff.mp mapped

end Defaults

end Vaudou
