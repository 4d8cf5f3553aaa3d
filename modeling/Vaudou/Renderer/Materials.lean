/-
**Blueprints and their materials.**

Blueprints and materials are objects of two handle maps. A material holds a handle of the blueprint that
it was created from, and `free_material` drops it, from inside the free callback of the other map. Both
maps are sessions, of `handlemap.c` and of the clients' handle variables; the `blueprint` field of a
material is one more variable of the blueprints' session. Which callback is called on which slot is
logged.

* `freeMaterials_sound` — freeing materials drops their blueprints, and may free those.
* `blueprint_outlives` — every object is freed exactly once, and no blueprint before its materials.

The Vulkan objects behind a blueprint and the buffers of a material are left out.
-/

import Vaudou.HandleMap.Clients

namespace Vaudou

open Vaudou.Memory Vaudou.Ownership Vaudou.Run

/-- `BindingType`. -/
inductive BindingType where
  | invalid
  | sampler2d
  | struct
deriving DecidableEq, Repr

/-- `VD(MaterialProperty)`; `pstruct` is an address, and 0 is null. -/
structure MaterialProperty where
  type : BindingType
  struct_size : Nat
  pstruct : Nat
deriving DecidableEq, Repr

/-- A call of a free callback, with the slot of the object. -/
inductive SMatFree where
  /-- `free_material` -/
  | material (slot : Nat)
  /-- `free_material_blueprint` -/
  | blueprint (slot : Nat)
deriving DecidableEq, Repr

/-- The slot of a freed material. -/
def SMatFree.materialSlot : SMatFree → Option Nat
  | .material slot => some slot
  | .blueprint _ => none

/-- The slot of a freed blueprint. -/
def SMatFree.blueprintSlot : SMatFree → Option Nat
  | .material _ => none
  | .blueprint slot => some slot

/-- The two handle maps' parameters. -/
structure SMatEnv where
  material : HandleMapEnv
  blueprint : HandleMapEnv

/-- `SMat`: the two handle maps, the properties of every blueprint, for every material the variable in
its `blueprint` field and the slot of the blueprint that it was created from, and the frees so far. -/
structure SMat where
  materials : Session
  blueprints : Session
  properties : List (List MaterialProperty)
  fields : List Nat
  origins : List Nat
  frees : List SMatFree

/-- `VD_(MAX_MATERIAL_PROPERTIES)`. -/
def maxMaterialProperties : Nat := 8

/-- `alloc_copy_or_zero_properties`; the allocator returns `blocks`. -/
def allocCopyOrZeroProperties : List MaterialProperty → List Nat → Option (List MaterialProperty)
  | [], _ => some []
  | src :: rest, blocks =>
    if src.type = .struct then
      -- the test is the wrong way round: bytes are copied from a null pointer
      if src.pstruct = 0 ∧ 0 < src.struct_size then none
      else (allocCopyOrZeroProperties rest blocks.tail).map
        fun dst => { src with pstruct := blocks.headD 0 } :: dst
    else (allocCopyOrZeroProperties rest blocks).map fun dst => src :: dst

section Operations

variable (E : SMatEnv)

/-- `smat_new_blueprint`. -/
def smatNewBlueprint (s : SMat) (properties : List MaterialProperty) (blocks : List Nat)
    (result : E.blueprint.Value) : Option SMat :=
  if maxMaterialProperties < properties.length then none
  else (allocCopyOrZeroProperties properties blocks).bind fun copied =>
    (sessionStep E.blueprint s.blueprints (.register result true)).map fun blueprints =>
      { s with blueprints, properties := s.properties ++ [copied] }

/-- `smat_new_from_blueprint`, with the handle variable `b`. -/
def smatNewFromBlueprint (s : SMat) (b : Nat) (blocks : List Nat) (result : E.material.Value) :
    Option SMat :=
  (s.blueprints.held b).bind fun handle =>
    (intmapTryget E.blueprint.intmap s.blueprints.map.idmap handle.id).bind fun found =>
      -- `USE_HANDLE`: a null pointer is dereferenced
      found.bind fun slot =>
        (sessionStep E.blueprint s.blueprints (.copy b)).bind fun blueprints =>
          (s.properties[slot]?.bind fun properties => allocCopyOrZeroProperties properties blocks).bind
            fun _ => (sessionStep E.material s.materials (.register result true)).map fun materials =>
              { s with
                materials
                blueprints
                fields := s.fields ++ [s.blueprints.tokens.length]
                origins := s.origins ++ [slot] }

/-- `vd_handle_drop` of a handle of a blueprint, with the call of `free_material_blueprint`. -/
def dropBlueprint (s : SMat) (token : Nat) : Option SMat :=
  (sessionStep E.blueprint s.blueprints (.drop token)).map fun blueprints =>
    { s with
      blueprints
      frees := s.frees ++
        (blueprints.map.freed.drop s.blueprints.map.freed.length).map .blueprint }

/-- `free_material`. -/
def freeMaterial (s : SMat) (slot : Nat) : Option SMat :=
  s.fields[slot]?.bind fun field => dropBlueprint E { s with frees := s.frees ++ [.material slot] } field

/-- `vd_handle_drop` of a handle of a material, with the call of `free_material`. -/
def dropMaterial (s : SMat) (token : Nat) : Option SMat :=
  (sessionStep E.material s.materials (.drop token)).bind fun materials =>
    run (freeMaterial E) { s with materials }
      (materials.map.freed.drop s.materials.map.freed.length)

/-- `smat_deinit`. -/
def smatDeinit (s : SMat) : Option SMat :=
  let materials := handlemapDeinit E.material s.materials.map
  (run (freeMaterial E) { s with materials := { s.materials with map := materials } }
    (materials.freed.drop s.materials.map.freed.length)).map fun s =>
      let blueprints := handlemapDeinit E.blueprint s.blueprints.map
      { s with
        blueprints := { s.blueprints with map := blueprints }
        frees := s.frees ++ (blueprints.freed.drop s.blueprints.map.freed.length).map .blueprint }

/-- What the clients do; handle variables are named in the order in which they were made. -/
inductive SMatOp where
  | newBlueprint (properties : List MaterialProperty) (blocks : List Nat) (result : E.blueprint.Value)
  | newFromBlueprint (b : Nat) (blocks : List Nat) (result : E.material.Value)
  | copyBlueprint (token : Nat)
  | dropBlueprint (token : Nat)
  | copyMaterial (token : Nat)
  | dropMaterial (token : Nat)

/-- An operation. The field of a material is not a client's variable, and no client drops it. -/
def smatStep (s : SMat) : SMatOp E → Option SMat
  | .newBlueprint properties blocks result => smatNewBlueprint E s properties blocks result
  | .newFromBlueprint b blocks result => smatNewFromBlueprint E s b blocks result
  | .copyBlueprint token => (sessionStep E.blueprint s.blueprints (.copy token)).map
      fun blueprints => { s with blueprints }
  | .dropBlueprint token => if token ∈ s.fields then none else dropBlueprint E s token
  | .copyMaterial token => (sessionStep E.material s.materials (.copy token)).map
      fun materials => { s with materials }
  | .dropMaterial token => dropMaterial E s token

/-- `smat_init`: the two maps at their addresses. -/
def smatInit (material blueprint : Nat) (mem mem' : Mem) : Option SMat :=
  (handlemapInit E.material material mem 64).bind fun materials =>
    (handlemapInit E.blueprint blueprint mem' 64).map fun blueprints =>
      ⟨⟨materials, []⟩, ⟨blueprints, []⟩, [], [], [], []⟩

end Operations

/-- **No blueprint is freed before the materials created from it.** -/
def OutlivesMaterials (s : SMat) : Prop :=
  ∀ before slot after, s.frees = before ++ .blueprint slot :: after →
    ∀ n, s.origins[n]? = some slot → .material n ∈ before

/-! ### The log -/

section Log

variable {s : SMat} {more : List SMatFree} {n slot : Nat}

theorem count_materialSlot (frees : List SMatFree) (n : Nat) :
    (frees.filterMap SMatFree.materialSlot).count n = frees.count (.material n) := by
  induction frees with
  | nil => rfl
  | cons call rest ih =>
    cases call with
    | material slot =>
      simp only [List.filterMap_cons, SMatFree.materialSlot, List.count_cons, ih, beq_iff_eq,
        SMatFree.material.injEq]
    | blueprint slot =>
      rw [List.count_cons_of_ne (by simp)]
      exact ih

theorem count_blueprintSlot (frees : List SMatFree) (n : Nat) :
    (frees.filterMap SMatFree.blueprintSlot).count n = frees.count (.blueprint n) := by
  induction frees with
  | nil => rfl
  | cons call rest ih =>
    cases call with
    | material slot =>
      rw [List.count_cons_of_ne (by simp)]
      exact ih
    | blueprint slot =>
      simp only [List.filterMap_cons, SMatFree.blueprintSlot, List.count_cons, ih, beq_iff_eq,
        SMatFree.blueprint.injEq]

theorem mem_materialSlot {frees : List SMatFree} :
    n ∈ frees.filterMap SMatFree.materialSlot ↔ .material n ∈ frees := by
  rw [← List.count_pos_iff, ← List.count_pos_iff, count_materialSlot]

theorem mem_blueprintSlot {frees : List SMatFree} :
    n ∈ frees.filterMap SMatFree.blueprintSlot ↔ .blueprint n ∈ frees := by
  rw [← List.count_pos_iff, ← List.count_pos_iff, count_blueprintSlot]

theorem filterMap_blueprints (slots : List Nat) :
    (slots.map SMatFree.blueprint).filterMap SMatFree.blueprintSlot = slots ∧
      (slots.map SMatFree.blueprint).filterMap SMatFree.materialSlot = [] := by
  constructor
  · simp [List.filterMap_map, Function.comp_def, SMatFree.blueprintSlot]
  · simp [SMatFree.materialSlot]

/-- **More frees keep the order**, if the materials of every further blueprint are free already. -/
theorem OutlivesMaterials.append (outlives : OutlivesMaterials s)
    (freed : ∀ slot, .blueprint slot ∈ more → ∀ n, s.origins[n]? = some slot → .material n ∈ s.frees) :
    OutlivesMaterials { s with frees := s.frees ++ more } := by
  intro before slot after split n origin
  rcases List.append_eq_append_iff.mp split with ⟨new, rfl, rest⟩ | ⟨tail, old, rest⟩
  · refine List.mem_append_left _ (freed slot ?_ n origin)
    rw [rest]
    exact List.mem_append_right _ List.mem_cons_self
  · cases tail with
    | nil =>
      rw [List.append_nil] at old
      rw [← old]
      refine freed slot ?_ n origin
      rw [List.nil_append] at rest
      rw [← rest]
      exact List.mem_cons_self
    | cons first tail =>
      obtain ⟨rfl, -⟩ := List.cons.inj rest
      exact outlives before slot tail old n origin

end Log

/-! ### The invariant -/

/-- The blueprints: the field of every material that has not been freed owns its blueprint. -/
structure BlueprintsSound (E : SMatEnv) (s : SMat) (store : Store E.blueprint.Value) : Prop where
  related : Related E.blueprint s.blueprints store
  frees : s.frees.filterMap SMatFree.blueprintSlot = store.freed
  properties : s.properties.length = store.objects.length
  origins : s.origins.length = s.fields.length
  owned : ∀ n field origin, s.fields[n]? = some field → s.origins[n]? = some origin →
    .material n ∉ s.frees → store.owned field = some origin
  nodup : s.fields.Nodup
  below : ∀ field ∈ s.fields, field < store.tokens.length
  outlives : OutlivesMaterials s

/-- The materials. -/
structure MaterialsSound (E : SMatEnv) (s : SMat) (store : Store E.material.Value) : Prop where
  related : Related E.material s.materials store
  frees : s.frees.filterMap SMatFree.materialSlot = store.freed
  fields : s.fields.length = store.objects.length

/-- What freeing materials leaves alone, and the slots of those that it frees. -/
structure FreesMaterials (s t : SMat) (slots : List Nat) : Prop where
  materials : t.materials = s.materials
  properties : t.properties = s.properties
  fields : t.fields = s.fields
  origins : t.origins = s.origins
  frees : t.frees.filterMap SMatFree.materialSlot = s.frees.filterMap SMatFree.materialSlot ++ slots

section Freeing

variable {E : SMatEnv} {s t : SMat} {store : Store E.blueprint.Value} {token slot : Nat}

/-- **Dropping a handle of a blueprint** keeps the invariant, unless it is the field of a material that
has not been freed. -/
theorem dropBlueprint_sound (sound : BlueprintsSound E s store)
    (gone : ∀ n, s.fields[n]? = some token → .material n ∈ s.frees)
    (dropped : dropBlueprint E s token = some t) :
    ∃ store', BlueprintsSound E t store' ∧ FreesMaterials s t [] := by
  obtain ⟨blueprints, stepped, rfl⟩ := Option.map_eq_some_iff.mp dropped
  obtain ⟨store', step, related⟩ := sessionStep_simulates _ _ _ _ sound.related stepped
  have freed := Store.step_freed step
  obtain ⟨origin, owner, rfl⟩ := Option.map_eq_some_iff.mp step
  have ended : blueprints.map.freed.drop s.blueprints.map.freed.length =
      store.frees (.drop token) := by
    rw [related.freed, sound.related.freed, freed, List.drop_left]
  have owned : ∀ n field origin', s.fields[n]? = some field → s.origins[n]? = some origin' →
      .material n ∉ s.frees → (store.release token origin).owned field = some origin' := by
    intro n field origin' here from' live
    have other : token ≠ field := by
      rintro rfl
      exact live (gone n here)
    rw [Store.owned_release other]
    exact sound.owned n field origin' here from' live
  obtain ⟨slots, none⟩ := filterMap_blueprints (store.frees (.drop token))
  rw [ended]
  refine ⟨store.release token origin, ?_, rfl, rfl, rfl, rfl, ?_⟩
  · refine ⟨related, ?_, sound.properties, sound.origins, ?_, sound.nodup, ?_, ?_⟩
    · rw [List.filterMap_append, slots, sound.frees, freed]
    · intro n field origin' here from' live
      exact owned n field origin' here from' fun member => live (List.mem_append_left _ member)
    · intro field member
      rw [Store.release, List.length_set]
      exact sound.below field member
    · refine sound.outlives.append fun b member n from' => ?_
      -- a material that is left would own the blueprint that was freed
      by_contra live
      have inside : n < s.fields.length := by
        rw [← sound.origins]
        exact (List.getElem?_eq_some_iff.mp from').1
      have left := owned n s.fields[n] b (List.getElem?_eq_getElem inside) from' live
      obtain ⟨_, ends, same⟩ := List.mem_map.mp member
      obtain rfl := SMatFree.blueprint.inj same
      refine related.sound.not_freed (Store.owned_mem left) ?_
      rw [freed]
      exact List.mem_append_right _ ends
  · rw [List.filterMap_append, none]

/-- **Freeing a material** that has not been freed is defined and keeps the invariant. -/
theorem freeMaterial_sound (sound : BlueprintsSound E s store) (inside : slot < s.fields.length)
    (live : .material slot ∉ s.frees) :
    ∃ t, freeMaterial E s slot = some t ∧
      ∃ store', BlueprintsSound E t store' ∧ FreesMaterials s t [slot] := by
  let logged : SMat := { s with frees := s.frees ++ [.material slot] }
  have soundLogged : BlueprintsSound E logged store := by
    refine ⟨sound.related, ?_, sound.properties, sound.origins, ?_, sound.nodup, sound.below, ?_⟩
    · rw [List.filterMap_append, sound.frees]
      exact List.append_nil _
    · intro n field origin here from' none
      exact sound.owned n field origin here from' fun member => none (List.mem_append_left _ member)
    · refine sound.outlives.append fun b member => ?_
      simp at member
  have field := List.getElem?_eq_getElem inside
  have from' := List.getElem?_eq_getElem (l := s.origins) (by rwa [sound.origins])
  obtain ⟨blueprints, stepped⟩ := drop_defined sound.related (sound.owned _ _ _ field from' live)
  have dropped : dropBlueprint E logged s.fields[slot] = some { logged with
      blueprints
      frees := logged.frees ++
        (blueprints.map.freed.drop s.blueprints.map.freed.length).map .blueprint } := by
    show (sessionStep E.blueprint s.blueprints (.drop s.fields[slot])).map _ = _
    rw [stepped]
    rfl
  have gone : ∀ n, logged.fields[n]? = some s.fields[slot] → .material n ∈ logged.frees := by
    intro n same
    obtain ⟨within, equal⟩ := List.getElem?_eq_some_iff.mp same
    obtain rfl := (List.Nodup.getElem_inj_iff sound.nodup).mp equal
    exact List.mem_append_right _ (List.mem_singleton_self _)
  obtain ⟨store', still, others⟩ := dropBlueprint_sound soundLogged gone dropped
  refine ⟨_, ?_, store', still, others.materials, others.properties, others.fields, others.origins, ?_⟩
  · rw [freeMaterial, field]
    exact dropped
  · rw [others.frees, List.append_nil]
    exact List.filterMap_append

/-- **Freeing materials**, each once, is defined and keeps the invariant. -/
theorem freeMaterials_sound {slots : List Nat} (sound : BlueprintsSound E s store)
    (distinct : slots.Nodup) (inside : ∀ slot ∈ slots, slot < s.fields.length)
    (live : ∀ slot ∈ slots, .material slot ∉ s.frees) :
    ∃ t, run (freeMaterial E) s slots = some t ∧
      ∃ store', BlueprintsSound E t store' ∧ FreesMaterials s t slots := by
  induction slots generalizing s store with
  | nil => exact ⟨s, rfl, store, sound, rfl, rfl, rfl, rfl, (List.append_nil _).symm⟩
  | cons slot rest ih =>
    obtain ⟨notIn, distinct⟩ := List.nodup_cons.mp distinct
    obtain ⟨middle, freed, store', soundMiddle, first⟩ := freeMaterial_sound sound
      (inside slot List.mem_cons_self) (live slot List.mem_cons_self)
    have insideMiddle : ∀ other ∈ rest, other < middle.fields.length := by
      intro other member
      rw [first.fields]
      exact inside other (List.mem_cons_of_mem _ member)
    have liveMiddle : ∀ other ∈ rest, .material other ∉ middle.frees := by
      intro other member
      rw [← mem_materialSlot, first.frees, List.mem_append, List.mem_singleton, mem_materialSlot]
      rintro (before | rfl)
      · exact live other (List.mem_cons_of_mem _ member) before
      · exact notIn member
    obtain ⟨t, ran, store'', still, second⟩ := ih soundMiddle distinct insideMiddle liveMiddle
    refine ⟨t, run_cons_some.mpr ⟨middle, freed, ran⟩, store'', still, ?_⟩
    refine ⟨second.materials.trans first.materials, second.properties.trans first.properties,
      second.fields.trans first.fields, second.origins.trans first.origins, ?_⟩
    rw [second.frees, first.frees, List.append_assoc]
    rfl

end Freeing

/-! ### One operation -/

section Steps

variable {E : SMatEnv} {s t : SMat} {store store' : Store E.blueprint.Value}
  {materials : Store E.material.Value} {token field origin : Nat} {session : Session}

/-- A blueprint or a handle variable more. -/
theorem BlueprintsSound.grow (sound : BlueprintsSound E s store) {new : Option Nat}
    {properties : List (List MaterialProperty)} (related : Related E.blueprint session store')
    (tokens : store'.tokens = store.tokens ++ [new]) (freed : store'.freed = store.freed)
    (lengths : properties.length = store'.objects.length) :
    BlueprintsSound E { s with blueprints := session, properties := properties } store' := by
  refine ⟨related, sound.frees.trans freed.symm, lengths, sound.origins, ?_, sound.nodup, ?_,
    sound.outlives⟩
  · intro n field origin here from' live
    have owner := sound.owned n field origin here from' live
    have kept := Store.owned_push (Store.owned_lt owner) new
    rw [Store.owned, tokens]
    exact kept.trans owner
  · intro field member
    rw [tokens, List.length_append]
    exact Nat.lt_add_right _ (sound.below field member)

/-- **A material more**, with a field that owns its blueprint. -/
theorem BlueprintsSound.addMaterial (sound : BlueprintsSound E s store)
    (owner : store.owned field = some origin) (new : field ∉ s.fields) :
    BlueprintsSound E { s with
      materials := session
      fields := s.fields ++ [field]
      origins := s.origins ++ [origin] } store := by
  have lengths := sound.origins
  refine ⟨sound.related, sound.frees, sound.properties, ?_, ?_, ?_, ?_, ?_⟩
  · show (s.origins ++ [origin]).length = (s.fields ++ [field]).length
    rw [List.length_append, List.length_append, lengths]
    rfl
  · intro n field' origin' here from' live
    by_cases last : n < s.fields.length
    · rw [List.getElem?_append_left last] at here
      rw [List.getElem?_append_left (by omega)] at from'
      exact sound.owned n field' origin' here from' live
    · rw [List.getElem?_append_right (by omega)] at here
      rw [List.getElem?_append_right (by omega)] at from'
      obtain rfl := List.mem_singleton.mp (List.mem_of_getElem? here)
      obtain rfl := List.mem_singleton.mp (List.mem_of_getElem? from')
      exact owner
  · refine List.Nodup.append sound.nodup (List.nodup_singleton _) ?_
    exact List.disjoint_singleton.mpr new
  · intro field' member
    rcases List.mem_append.mp member with before | last
    · exact sound.below field' before
    · obtain rfl := List.mem_singleton.mp last
      exact Store.owned_lt owner
  · intro before slot after split n from'
    by_cases last : n < s.origins.length
    · rw [List.getElem?_append_left last] at from'
      exact sound.outlives before slot after split n from'
    · -- the blueprint of the new material has an owner, so it has not been freed
      rw [List.getElem?_append_right (by omega)] at from'
      obtain rfl := List.mem_singleton.mp (List.mem_of_getElem? from')
      have freed : slot ∈ store.freed := by
        rw [← sound.frees, mem_blueprintSlot, split]
        exact List.mem_append_right _ List.mem_cons_self
      exact absurd freed (sound.related.sound.not_freed (Store.owned_mem owner))

theorem smatNewFromBlueprint_sound {b : Nat} {blocks : List Nat} {result : E.material.Value}
    (sound : BlueprintsSound E s store) (soundMaterials : MaterialsSound E s materials)
    (made : smatNewFromBlueprint E s b blocks result = some t) :
    ∃ store' materials', BlueprintsSound E t store' ∧ MaterialsSound E t materials' := by
  obtain ⟨handle, held, made⟩ := Option.bind_eq_some_iff.mp made
  obtain ⟨found, lookup, made⟩ := Option.bind_eq_some_iff.mp made
  obtain ⟨slot, hit, rest⟩ := Option.bind_eq_some_iff.mp made
  obtain ⟨blueprints, copied, rest⟩ := Option.bind_eq_some_iff.mp rest
  obtain ⟨_, -, rest⟩ := Option.bind_eq_some_iff.mp rest
  obtain ⟨session, registered, rfl⟩ := Option.map_eq_some_iff.mp rest
  subst hit
  obtain ⟨n, owner, rfl⟩ := sound.related.held_iff.mp held
  obtain ⟨object, -, inside, -⟩ := sound.related.record owner
  have same := (sound.related.wf.tryget inside).symm.trans lookup
  obtain rfl := Option.some.inj (Option.some.inj same)
  obtain ⟨store', copy, related⟩ := sessionStep_simulates _ _ _ _ sound.related copied
  obtain ⟨materials', register, relatedMaterials⟩ :=
    sessionStep_simulates _ _ _ _ soundMaterials.related registered
  rw [Store.step, owner, Option.map_some] at copy
  cases copy
  cases register
  have length : s.blueprints.tokens.length = store.tokens.length := by
    rw [sound.related.tokens, List.length_map]
  have grown := sound.grow related rfl rfl sound.properties
  have newest : (⟨store.objects, store.tokens ++ [some n], store.freed⟩ : Store _).owned
      s.blueprints.tokens.length = some n := by
    rw [Store.owned_eq_some, length]
    exact List.getElem?_concat_length
  refine ⟨_, _, grown.addMaterial newest fun member => ?_, relatedMaterials, soundMaterials.frees, ?_⟩
  · have below := sound.below _ member
    omega
  · show (s.fields ++ [_]).length = (materials.objects ++ [_]).length
    rw [List.length_append, List.length_append, soundMaterials.fields]
    rfl

/-- **Dropping a handle of a material** frees it with the last one, and drops its blueprint. -/
theorem dropMaterial_sound (sound : BlueprintsSound E s store)
    (soundMaterials : MaterialsSound E s materials) (dropped : dropMaterial E s token = some t) :
    ∃ store' materials', BlueprintsSound E t store' ∧ MaterialsSound E t materials' := by
  obtain ⟨session, stepped, ran⟩ := Option.bind_eq_some_iff.mp dropped
  obtain ⟨materials', step, related⟩ := sessionStep_simulates _ _ _ _ soundMaterials.related stepped
  have freed := Store.step_freed step
  have ended : session.map.freed.drop s.materials.map.freed.length = materials.frees (.drop token) := by
    rw [related.freed, soundMaterials.related.freed, freed, List.drop_left]
  have nodup := related.sound.nodup
  rw [freed] at nodup
  have objects : materials'.objects = materials.objects := by
    obtain ⟨n, -, rfl⟩ := Option.map_eq_some_iff.mp step
    rfl
  let moved : SMat := { s with materials := session }
  have soundMoved : BlueprintsSound E moved store :=
    ⟨sound.related, sound.frees, sound.properties, sound.origins, sound.owned, sound.nodup, sound.below,
      sound.outlives⟩
  obtain ⟨t', ran', store', still, frees⟩ := freeMaterials_sound soundMoved nodup.of_append_right
    (fun slot member => by
      have counted := (related.sound.freed slot).mp (by
        rw [freed]
        exact List.mem_append_right _ member)
      rw [show moved.fields.length = materials'.objects.length by rw [objects]; exact soundMaterials.fields]
      exact Store.counted_lt counted.1)
    (fun slot member => by
      rw [← mem_materialSlot, show moved.frees.filterMap SMatFree.materialSlot = materials.freed from
        soundMaterials.frees]
      exact fun before => List.disjoint_of_nodup_append nodup before member)
  rw [ended] at ran
  obtain rfl := Option.some.inj (ran.symm.trans ran')
  refine ⟨store', materials', still, ?_, ?_, ?_⟩
  · rw [frees.materials]
    exact related
  · rw [frees.frees, freed]
    exact congrArg (· ++ _) soundMaterials.frees
  · rw [frees.fields, objects]
    exact soundMaterials.fields

/-- **Every operation keeps the invariant.** -/
theorem smatStep_sound {op : SMatOp E} (sound : BlueprintsSound E s store)
    (soundMaterials : MaterialsSound E s materials) (stepped : smatStep E s op = some t) :
    ∃ store' materials', BlueprintsSound E t store' ∧ MaterialsSound E t materials' := by
  cases op with
  | newBlueprint properties blocks result =>
    simp only [smatStep, smatNewBlueprint] at stepped
    split at stepped
    · cases stepped
    · obtain ⟨copied, -, stepped⟩ := Option.bind_eq_some_iff.mp stepped
      obtain ⟨blueprints, registered, rfl⟩ := Option.map_eq_some_iff.mp stepped
      obtain ⟨store', register, related⟩ := sessionStep_simulates _ _ _ _ sound.related registered
      cases register
      refine ⟨_, materials, sound.grow related rfl rfl ?_, soundMaterials.related, soundMaterials.frees,
        soundMaterials.fields⟩
      rw [List.length_append, sound.properties, List.length_append]
      rfl
  | newFromBlueprint b blocks result => exact smatNewFromBlueprint_sound sound soundMaterials stepped
  | copyBlueprint token =>
    obtain ⟨blueprints, copied, rfl⟩ := Option.map_eq_some_iff.mp stepped
    obtain ⟨store', copy, related⟩ := sessionStep_simulates _ _ _ _ sound.related copied
    obtain ⟨n, -, rfl⟩ := Option.map_eq_some_iff.mp copy
    exact ⟨_, materials, sound.grow related rfl rfl sound.properties, soundMaterials.related,
      soundMaterials.frees, soundMaterials.fields⟩
  | dropBlueprint token =>
    simp only [smatStep] at stepped
    split at stepped
    · cases stepped
    · next foreign =>
      obtain ⟨store', still, frees⟩ := dropBlueprint_sound sound
        (fun n here => absurd (List.mem_of_getElem? here) foreign) stepped
      refine ⟨store', materials, still, ?_, ?_, ?_⟩
      · rw [frees.materials]
        exact soundMaterials.related
      · rw [frees.frees, List.append_nil]
        exact soundMaterials.frees
      · rw [frees.fields]
        exact soundMaterials.fields
  | copyMaterial token =>
    obtain ⟨session, copied, rfl⟩ := Option.map_eq_some_iff.mp stepped
    obtain ⟨materials', copy, related⟩ := sessionStep_simulates _ _ _ _ soundMaterials.related copied
    obtain ⟨n, -, rfl⟩ := Option.map_eq_some_iff.mp copy
    refine ⟨store, _, ?_, related, soundMaterials.frees, soundMaterials.fields⟩
    exact ⟨sound.related, sound.frees, sound.properties, sound.origins, sound.owned, sound.nodup,
      sound.below, sound.outlives⟩
  | dropMaterial token => exact dropMaterial_sound sound soundMaterials stepped

end Steps

/-! ### Runs -/

section Runs

variable {E : SMatEnv} {s start : SMat} {ops : List (SMatOp E)} {store : Store E.blueprint.Value}
  {materials : Store E.material.Value} {material blueprint : Nat} {mem mem' : Mem}

/-- The slots that `vd_handlemap__deinit` calls the callback on: every object that was not free. -/
theorem handlemapDeinit_called {F : HandleMapEnv} {session : Session} {store : Store F.Value}
    (related : Related F session store) :
    ∃ slots, (handlemapDeinit F session.map).freed.drop session.map.freed.length = slots ∧
      ∀ n, (store.freed ++ slots).count n = if n < store.objects.length then 1 else 0 := by
  have freed : (handlemapDeinit F session.map).freed = session.map.freed ++
      (List.range session.map.arrLen).filter fun j => slotId F session.map j != 0 :=
    freed_deinitSlots _ _
  refine ⟨_, rfl, fun n => ?_⟩
  rw [← handlemapDeinit_count related n, freed, List.drop_left, related.freed]

/-- **`smat_deinit` is defined** and frees what is left, the materials first. -/
theorem smatDeinit_sound (sound : BlueprintsSound E s store)
    (soundMaterials : MaterialsSound E s materials) :
    ∃ t, smatDeinit E s = some t ∧ OutlivesMaterials t ∧
      (∀ n, t.frees.count (.material n) = if n < s.origins.length then 1 else 0) ∧
      ∀ n, t.frees.count (.blueprint n) = if n < s.properties.length then 1 else 0 := by
  obtain ⟨slots, called, once⟩ := handlemapDeinit_called soundMaterials.related
  have nodup : (materials.freed ++ slots).Nodup := by
    refine List.nodup_iff_count_le_one.mpr fun n => ?_
    rw [once]
    split <;> omega
  have lengths : s.origins.length = materials.objects.length :=
    sound.origins.trans soundMaterials.fields
  let moved : SMat :=
    { s with materials := { s.materials with map := handlemapDeinit E.material s.materials.map } }
  have soundMoved : BlueprintsSound E moved store :=
    ⟨sound.related, sound.frees, sound.properties, sound.origins, sound.owned, sound.nodup, sound.below,
      sound.outlives⟩
  have inside : ∀ slot ∈ slots, slot < moved.fields.length := by
    intro slot member
    have positive := List.count_pos_iff.mpr (List.mem_append_right materials.freed member)
    rw [once] at positive
    show slot < s.fields.length
    rw [soundMaterials.fields]
    by_contra outside
    rw [if_neg outside] at positive
    exact Nat.lt_irrefl 0 positive
  have live : ∀ slot ∈ slots, .material slot ∉ moved.frees := by
    intro slot member before
    rw [← mem_materialSlot] at before
    refine List.disjoint_of_nodup_append nodup ?_ member
    rw [← soundMaterials.frees]
    exact before
  obtain ⟨freed, ran, store', still, frees⟩ :=
    freeMaterials_sound soundMoved nodup.of_append_right inside live
  obtain ⟨rest, calledRest, onceRest⟩ := handlemapDeinit_called still.related
  obtain ⟨restSlots, none⟩ := filterMap_blueprints rest
  have materialFrees : freed.frees.filterMap SMatFree.materialSlot = materials.freed ++ slots := by
    rw [frees.frees]
    exact congrArg (· ++ slots) soundMaterials.frees
  have deinit : smatDeinit E s = some { freed with
      blueprints :=
        { freed.blueprints with map := handlemapDeinit E.blueprint freed.blueprints.map }
      frees := freed.frees ++ rest.map .blueprint } := by
    unfold smatDeinit
    simp only [called]
    rw [show run (freeMaterial E) { s with materials :=
      { s.materials with map := handlemapDeinit E.material s.materials.map } } slots =
        some freed from ran,
      Option.map_some, calledRest]
  refine ⟨_, deinit, still.outlives.append fun b _ n origin => ?_, fun n => ?_, fun n => ?_⟩
  · rw [← mem_materialSlot, materialFrees, ← List.count_pos_iff, once, if_pos]
    · exact Nat.one_pos
    · rw [frees.origins] at origin
      rw [← lengths]
      exact (List.getElem?_eq_some_iff.mp origin).1
  · rw [← count_materialSlot, List.filterMap_append, none, List.append_nil, materialFrees, once, lengths]
  · rw [← count_blueprintSlot, List.filterMap_append, restSlots, still.frees, onceRest,
      ← still.properties, frees.properties]

/-- **Every run keeps the invariant.** -/
theorem smatRun_sound (started : smatInit E material blueprint mem mem' = some start)
    (ran : run (smatStep E) start ops = some s) :
    ∃ store materials, BlueprintsSound E s store ∧ MaterialsSound E s materials := by
  refine run_invariant (I := fun s => ∃ store materials, BlueprintsSound E s store ∧
    MaterialsSound E s materials) ?_ ran ?_
  · rintro s op t ⟨store, materials, sound, soundMaterials⟩ stepped
    exact smatStep_sound sound soundMaterials stepped
  · obtain ⟨first, initial, started⟩ := Option.bind_eq_some_iff.mp started
    obtain ⟨second, initial', rfl⟩ := Option.map_eq_some_iff.mp started
    refine ⟨Store.empty, Store.empty, ?_, related_start (by decide) initial, rfl, rfl⟩
    refine ⟨related_start (by decide) initial', rfl, rfl, rfl, ?_, List.nodup_nil, ?_, ?_⟩
    · exact fun n field origin here => absurd here (by simp)
    · exact fun field member => absurd member List.not_mem_nil
    · intro before slot after split
      exact absurd split.symm (List.append_ne_nil_of_right_ne_nil before (List.cons_ne_nil _ _))

/-- **A blueprint outlives its materials**, and `smat_deinit` completes the frees. In every run no
blueprint is freed before the materials that were created from it; `smat_deinit` is defined, and behind
it `free_material` has been called once on every material and `free_material_blueprint` once on every
blueprint. -/
theorem blueprint_outlives (started : smatInit E material blueprint mem mem' = some start)
    (ran : run (smatStep E) start ops = some s) :
    OutlivesMaterials s ∧ ∃ t, smatDeinit E s = some t ∧ OutlivesMaterials t ∧
      (∀ n, t.frees.count (.material n) = if n < s.origins.length then 1 else 0) ∧
      ∀ n, t.frees.count (.blueprint n) = if n < s.properties.length then 1 else 0 := by
  obtain ⟨store, materials, sound, soundMaterials⟩ := smatRun_sound started ran
  exact ⟨sound.outlives, smatDeinit_sound sound soundMaterials⟩

/-- Two-byte objects in both maps. -/
def pairSMat : SMatEnv := ⟨pairEnv, pairEnv⟩

/-- A blueprint with two materials; its own handle and one material's go before the deinitialisation. -/
def twoMaterials : List (SMatOp pairSMat) :=
  [.newBlueprint [⟨.struct, 8, 32⟩] [64] (pairValue 1 2), .newFromBlueprint 0 [96] (pairValue 3 4),
    .newFromBlueprint 0 [128] (pairValue 5 6), .dropBlueprint 0, .dropMaterial 1]

theorem twoMaterials_defined :
    ((smatInit pairSMat 8 16 (fun _ => 0) fun _ => 0).bind
      fun start => run (smatStep pairSMat) start twoMaterials).isSome = true := by
  decide +kernel

/-- The frees of the run. -/
theorem blueprint_outlives_two : ∃ start s t,
    smatInit pairSMat 8 16 (fun _ => 0) (fun _ => 0) = some start ∧
    run (smatStep pairSMat) start twoMaterials = some s ∧ smatDeinit pairSMat s = some t ∧
    OutlivesMaterials t ∧ ∀ n, t.frees.count (.material n) = if n < s.origins.length then 1 else 0 := by
  obtain ⟨s, reached⟩ := Option.isSome_iff_exists.mp twoMaterials_defined
  obtain ⟨start, started, ran⟩ := Option.bind_eq_some_iff.mp reached
  obtain ⟨-, t, deinit, outlives, once, -⟩ := blueprint_outlives started ran
  exact ⟨start, s, t, started, ran, deinit, outlives, once⟩

end Runs

end Vaudou
