/-
**The meshes of the user interface, merged into one.**

`CollectMeshesSystem` copies the indices and the vertices of all command lists behind each other into two arrays.
Both write offsets grow by the number of indices of a list, and an index is copied as it is, though it counts from
the first vertex of its own list.

* `collectMeshesLoop_eq` — both offsets are always the same.
* `vertexSlots_perm_iff` — when the vertices fill their array.
* **`meshes_kept_iff`** — the merged arrays keep the geometry exactly when each list with vertices has as many
  indices as vertices in front of it, and each list with indices has no vertices in front of it.
* `KeepsGeometry.reads` — what the arrays then hold.
-/

import Mathlib.Data.List.Range
import Mathlib.Data.List.Nodup

namespace Vaudou

section Source

/-- `ImDrawVert`; a float is its bits. -/
structure ImDrawVert where
  pos : UInt32 × UInt32
  uv : UInt32 × UInt32
  col : UInt32
deriving DecidableEq, Repr

/-- `ImDrawList`. -/
structure ImDrawList where
  IdxBuffer : List UInt16
  VtxBuffer : List ImDrawVert
  /-- What the memory behind the vertices holds. -/
  behind : List UInt32
deriving DecidableEq, Repr

/-- `ImDrawData`; `CmdListsCount` is the number of lists. -/
structure ImDrawData where
  TotalIdxCount : Nat
  TotalVtxCount : Nat
  CmdLists : List ImDrawList
deriving DecidableEq, Repr

/-- `VD_R_Vertex`, but for `normal`, which is never written. -/
structure UIVertex where
  position : UInt32 × UInt32 × UInt32
  uv_x : UInt32
  uv_y : UInt32
  color : List UInt32
deriving DecidableEq, Repr

/-- The words of a vertex in the order of its fields. -/
def ImDrawVert.words (v : ImDrawVert) : List UInt32 := [v.pos.1, v.pos.2, v.uv.1, v.uv.2, v.col]

/-- `cmd_list_vert_col`: four words from `col` on, of which only the first one is the colour. -/
def cmdListVertCol (list : ImDrawList) (i : Nat) : List UInt32 :=
  ((list.VtxBuffer.flatMap ImDrawVert.words ++ list.behind).drop (5 * i + 4)).take 4

/-- The vertex `v` of the loop, for vertex `j` of a list. -/
def uiVertex (list : ImDrawList) (j : Nat) (vert : ImDrawVert) : UIVertex :=
  ⟨(vert.pos.1, vert.pos.2, 0), vert.uv.1, vert.uv.2, cmdListVertCol list j⟩

/-- `indices[slot] = value`, done for index `index` of list `list`. -/
structure IndexWrite where
  slot : Nat
  list : Nat
  index : Nat
  value : Nat
deriving DecidableEq, Repr

/-- `vertices[slot] = value`, done for vertex `vertex` of list `list`. -/
structure VertexWrite where
  slot : Nat
  list : Nat
  vertex : Nat
  value : UIVertex
deriving DecidableEq, Repr

/-- The loop over the indices of list `i`. -/
def indexLoop (i indices_write_offset : Nat) (cmd_list : ImDrawList) : List IndexWrite :=
  cmd_list.IdxBuffer.mapIdx fun j indx => ⟨indices_write_offset + j, i, j, indx.toNat⟩

/-- The loop over the vertices of list `i`. -/
def vertexLoop (i vertices_write_offset : Nat) (cmd_list : ImDrawList) : List VertexWrite :=
  cmd_list.VtxBuffer.mapIdx fun j vert => ⟨vertices_write_offset + j, i, j, uiVertex cmd_list j vert⟩

/-- The loop over the command lists from position `i` on. -/
def collectMeshesLoop : Nat → Nat → Nat → List ImDrawList → List IndexWrite × List VertexWrite
  | _, _, _, [] => ([], [])
  | i, indices_write_offset, vertices_write_offset, cmd_list :: rest =>
    let indices := indexLoop i indices_write_offset cmd_list
    let vertices := vertexLoop i vertices_write_offset cmd_list
    -- the second offset grows by `cmd_list_indx_count` too
    let later := collectMeshesLoop (i + 1) (indices_write_offset + cmd_list.IdxBuffer.length)
      (vertices_write_offset + cmd_list.IdxBuffer.length) rest
    (indices ++ later.1, vertices ++ later.2)

/-- The lengths of the two arrays, and the writes to them. -/
structure CollectedMeshes where
  num_indices : Nat
  num_vertices : Nat
  indexWrites : List IndexWrite
  vertexWrites : List VertexWrite
deriving DecidableEq, Repr

/-- `get_draw_list`: none without command lists. -/
def getDrawList (draw_data : Option ImDrawData) : Option ImDrawData :=
  draw_data.filter fun data => data.CmdLists.length ≠ 0

/-- `CollectMeshesSystem` up to the write to the mesh; `none` when it returns early. -/
def collectMeshesSystem (draw_data : Option ImDrawData) : Option CollectedMeshes :=
  (getDrawList draw_data).map fun draw_list =>
    let writes := collectMeshesLoop 0 0 0 draw_list.CmdLists
    ⟨draw_list.TotalIdxCount, draw_list.TotalVtxCount, writes.1, writes.2⟩

end Source

section Geometry

/-- The number of indices of the lists. -/
def idxCount (lists : List ImDrawList) : Nat := lists.foldr (fun list count => list.IdxBuffer.length + count) 0

/-- The number of vertices of the lists. -/
def vtxCount (lists : List ImDrawList) : Nat := lists.foldr (fun list count => list.VtxBuffer.length + count) 0

/-- Draw data as the library makes it. -/
structure ImDrawData.WellFormed (data : ImDrawData) : Prop where
  below : ∀ list ∈ data.CmdLists, ∀ indx ∈ list.IdxBuffer, indx.toNat < list.VtxBuffer.length
  indices : data.TotalIdxCount = idxCount data.CmdLists
  vertices : data.TotalVtxCount = vtxCount data.CmdLists

/-- The writes stay inside of the arrays and fill each slot once, and every index leads to the slot of the vertex
that it designates in its list. -/
structure KeepsGeometry (data : ImDrawData) (meshes : CollectedMeshes) : Prop where
  index_inside : ∀ write ∈ meshes.indexWrites, write.slot < meshes.num_indices
  vertex_inside : ∀ write ∈ meshes.vertexWrites, write.slot < meshes.num_vertices
  index_once : ∀ slot < meshes.num_indices, (meshes.indexWrites.map (·.slot)).count slot = 1
  vertex_once : ∀ slot < meshes.num_vertices, (meshes.vertexWrites.map (·.slot)).count slot = 1
  designates : ∀ (i j : Nat) (list : ImDrawList) (indx : UInt16), data.CmdLists[i]? = some list →
    list.IdxBuffer[j]? = some indx → ∃ write ∈ meshes.indexWrites, write.list = i ∧ write.index = j ∧
      ∃ vertex ∈ meshes.vertexWrites, vertex.slot = write.value ∧ vertex.list = i ∧ vertex.vertex = indx.toNat

/-- A list with vertices has as many indices as vertices in front of it, and one with indices no vertices. -/
def InFront (lists : List ImDrawList) : Prop :=
  ∀ before list after, lists = before ++ list :: after →
    (list.VtxBuffer ≠ [] → idxCount before = vtxCount before) ∧ (list.IdxBuffer ≠ [] → vtxCount before = 0)

end Geometry

section Offsets

variable {W : Type} {lists rest : List ImDrawList}

/-- Writes list by list, at an offset that grows by the number of indices. -/
def listLoop (writes : Nat → Nat → ImDrawList → List W) : Nat → Nat → List ImDrawList → List W
  | _, _, [] => []
  | i, offset, list :: rest => writes i offset list ++ listLoop writes (i + 1) (offset + list.IdxBuffer.length) rest

/-- Started at the same offset, both arrays are written at the same offsets. -/
theorem collectMeshesLoop_eq (i offset : Nat) (lists : List ImDrawList) :
    collectMeshesLoop i offset offset lists =
      (listLoop indexLoop i offset lists, listLoop vertexLoop i offset lists) := by
  induction lists generalizing i offset with
  | nil => rfl
  | cons list rest ih => rw [collectMeshesLoop, ih, listLoop, listLoop]

theorem idxCount_cons (list : ImDrawList) (rest : List ImDrawList) :
    idxCount (list :: rest) = list.IdxBuffer.length + idxCount rest := rfl

theorem vtxCount_cons (list : ImDrawList) (rest : List ImDrawList) :
    vtxCount (list :: rest) = list.VtxBuffer.length + vtxCount rest := rfl

/-- A statement about every list and those in front of it, one list at a time. -/
theorem forall_split_cons {P : List ImDrawList → ImDrawList → Prop} (list : ImDrawList) :
    (∀ before other after, list :: rest = before ++ other :: after → P before other) ↔
      P [] list ∧ ∀ before other after, rest = before ++ other :: after → P (list :: before) other := by
  constructor
  · intro all
    exact ⟨all [] list rest rfl, fun before other after split => all (list :: before) other after (split ▸ rfl)⟩
  · rintro ⟨here, later⟩ before other after split
    rcases List.cons_eq_append_iff.mp split with ⟨rfl, same⟩ | ⟨_, rfl, parted⟩
    · obtain ⟨rfl, -⟩ := List.cons.inj same
      exact here
    · exact later _ other after parted

theorem mem_listLoop {writes : Nat → Nat → ImDrawList → List W} {i offset : Nat} {write : W} :
    write ∈ listLoop writes i offset lists ↔ ∃ before list after, lists = before ++ list :: after ∧
      write ∈ writes (i + before.length) (offset + idxCount before) list := by
  induction lists generalizing i offset with
  | nil => exact iff_of_false List.not_mem_nil fun ⟨_, _, _, split, _⟩ => by simp at split
  | cons list rest ih =>
    rw [listLoop, List.mem_append, ih]
    constructor
    · rintro (here | ⟨before, other, after, rfl, there⟩)
      · exact ⟨[], list, rest, rfl, here⟩
      · refine ⟨list :: before, other, after, rfl, ?_⟩
        rw [List.length_cons, idxCount_cons, Nat.add_comm before.length, ← Nat.add_assoc, ← Nat.add_assoc]
        exact there
    · rintro ⟨before, other, after, split, member⟩
      rcases List.cons_eq_append_iff.mp split with ⟨rfl, same⟩ | ⟨front, rfl, parted⟩
      · obtain ⟨rfl, -⟩ := List.cons.inj same
        exact Or.inl member
      · refine Or.inr ⟨front, other, after, parted, ?_⟩
        rw [List.length_cons, idxCount_cons, Nat.add_comm front.length, ← Nat.add_assoc, ← Nat.add_assoc] at member
        exact member

/-- A list, and those in front of it and behind it. -/
theorem split_at {i : Nat} {list : ImDrawList} (here : lists[i]? = some list) :
    lists = lists.take i ++ list :: lists.drop (i + 1) ∧ (lists.take i).length = i := by
  obtain ⟨inside, same⟩ := List.getElem?_eq_some_iff.mp here
  refine ⟨?_, List.length_take_of_le (Nat.le_of_lt inside)⟩
  rw [← same, ← List.drop_eq_getElem_cons inside, List.take_append_drop]

theorem mem_listLoop_at {writes : Nat → Nat → ImDrawList → List W} {write : W} :
    write ∈ listLoop writes 0 0 lists ↔
      ∃ i list, lists[i]? = some list ∧ write ∈ writes i (idxCount (lists.take i)) list := by
  rw [mem_listLoop]
  constructor
  · rintro ⟨before, list, after, split, member⟩
    rw [Nat.zero_add, Nat.zero_add] at member
    refine ⟨before.length, list, ?_, ?_⟩
    · rw [split, List.getElem?_append_right (Nat.le_refl _), Nat.sub_self]
      rfl
    · rw [split, List.take_left]
      exact member
  · rintro ⟨i, list, here, member⟩
    obtain ⟨split, length⟩ := split_at here
    refine ⟨_, list, _, split, ?_⟩
    rw [length, Nat.zero_add, Nat.zero_add]
    exact member

/-- The writes of the indices: index `j` of list `i` behind those of the lists in front. -/
theorem mem_indexWrites {write : IndexWrite} :
    write ∈ listLoop indexLoop 0 0 lists ↔ ∃ i list j indx, lists[i]? = some list ∧ list.IdxBuffer[j]? = some indx ∧
      write = ⟨idxCount (lists.take i) + j, i, j, indx.toNat⟩ := by
  rw [mem_listLoop_at]
  refine exists_congr fun i => exists_congr fun list => ?_
  rw [indexLoop, List.mem_mapIdx]
  constructor
  · rintro ⟨here, j, inside, rfl⟩
    exact ⟨j, _, here, List.getElem?_eq_getElem inside, rfl⟩
  · rintro ⟨j, indx, here, there, rfl⟩
    obtain ⟨inside, rfl⟩ := List.getElem?_eq_some_iff.mp there
    exact ⟨here, j, inside, rfl⟩

/-- The writes of the vertices: vertex `j` of list `i` behind as many slots as there are indices in front. -/
theorem mem_vertexWrites {write : VertexWrite} :
    write ∈ listLoop vertexLoop 0 0 lists ↔ ∃ i list j vert, lists[i]? = some list ∧
      list.VtxBuffer[j]? = some vert ∧ write = ⟨idxCount (lists.take i) + j, i, j, uiVertex list j vert⟩ := by
  rw [mem_listLoop_at]
  refine exists_congr fun i => exists_congr fun list => ?_
  rw [vertexLoop, List.mem_mapIdx]
  constructor
  · rintro ⟨here, j, inside, rfl⟩
    exact ⟨j, _, here, List.getElem?_eq_getElem inside, rfl⟩
  · rintro ⟨j, vert, here, there, rfl⟩
    obtain ⟨inside, rfl⟩ := List.getElem?_eq_some_iff.mp there
    exact ⟨here, j, inside, rfl⟩

end Offsets

section Slots

/-- The slots that the vertices are written to. -/
def vertexSlots : Nat → List ImDrawList → List Nat
  | _, [] => []
  | offset, list :: rest =>
    List.range' offset list.VtxBuffer.length ++ vertexSlots (offset + list.IdxBuffer.length) rest

/-- Writes one behind the other. -/
theorem slots_mapIdx {α W : Type} {slot : W → Nat} {write : Nat → α → W} {offset : Nat}
    (slots : ∀ j item, slot (write j item) = offset + j) (items : List α) :
    (items.mapIdx write).map slot = List.range' offset items.length := by
  refine List.ext_getElem (by rw [List.length_map, List.length_mapIdx, List.length_range']) fun j _ _ => ?_
  rw [List.getElem_map, List.getElem_mapIdx, slots, List.getElem_range', Nat.one_mul]

theorem vertexLoop_slots (i offset : Nat) (lists : List ImDrawList) :
    (listLoop vertexLoop i offset lists).map (·.slot) = vertexSlots offset lists := by
  induction lists generalizing i offset with
  | nil => rfl
  | cons list rest ih =>
    have here : (vertexLoop i offset list).map (·.slot) = List.range' offset list.VtxBuffer.length := by
      refine slots_mapIdx ?_ list.VtxBuffer
      exact fun _ _ => rfl
    rw [listLoop, List.map_append, here, ih, vertexSlots]

/-- The indices are written one behind the other. -/
theorem indexLoop_slots (i offset : Nat) (lists : List ImDrawList) :
    (listLoop indexLoop i offset lists).map (·.slot) = List.range' offset (idxCount lists) := by
  induction lists generalizing i offset with
  | nil => rfl
  | cons list rest ih =>
    have here : (indexLoop i offset list).map (·.slot) = List.range' offset list.IdxBuffer.length := by
      refine slots_mapIdx ?_ list.IdxBuffer
      exact fun _ _ => rfl
    rw [listLoop, List.map_append, here, ih, idxCount_cons, List.range'_append_1]

theorem le_vertexSlots {offset slot : Nat} {lists : List ImDrawList} (member : slot ∈ vertexSlots offset lists) :
    offset ≤ slot := by
  induction lists generalizing offset with
  | nil => exact absurd member List.not_mem_nil
  | cons list rest ih =>
    rcases List.mem_append.mp member with here | later
    · exact (List.mem_range'_1.mp here).1
    · exact Nat.le_trans (Nat.le_add_right _ _) (ih later)

/-- The first vertices of a tiling are at its beginning. -/
theorem vertexSlots_first {offset target : Nat} {list : ImDrawList} {rest : List ImDrawList}
    (some_ : list.VtxBuffer ≠ [])
    (tiled : (vertexSlots offset (list :: rest)).Perm (List.range' target (vtxCount (list :: rest)))) :
    offset = target := by
  have positive : 0 < list.VtxBuffer.length := List.length_pos_iff.mpr some_
  have first : offset ∈ vertexSlots offset (list :: rest) :=
    List.mem_append_left _ (List.mem_range'_1.mpr ⟨Nat.le_refl _, by omega⟩)
  have above := (List.mem_range'_1.mp (tiled.mem_iff.mp first)).1
  have target_ : target ∈ List.range' target (vtxCount (list :: rest)) :=
    List.mem_range'_1.mpr ⟨Nat.le_refl _, by rw [vtxCount_cons]; omega⟩
  have below := le_vertexSlots (tiled.mem_iff.mpr target_)
  omega

/-- **The vertices fill the slots from `target` on**, each once, exactly when every list with vertices starts
where those in front of it end. -/
theorem vertexSlots_perm_iff (offset target : Nat) (lists : List ImDrawList) :
    (vertexSlots offset lists).Perm (List.range' target (vtxCount lists)) ↔
      ∀ before list after, lists = before ++ list :: after → list.VtxBuffer ≠ [] →
        offset + idxCount before = target + vtxCount before := by
  induction lists generalizing offset target with
  | nil => exact iff_of_true (List.Perm.refl _) fun before list after split => by simp at split
  | cons list rest ih =>
    rw [forall_split_cons (P := fun before other => other.VtxBuffer ≠ [] →
      offset + idxCount before = target + vtxCount before) list]
    have shifted : (∀ before other after, rest = before ++ other :: after → other.VtxBuffer ≠ [] →
          offset + idxCount (list :: before) = target + vtxCount (list :: before)) ↔
        (vertexSlots (offset + list.IdxBuffer.length) rest).Perm
          (List.range' (target + list.VtxBuffer.length) (vtxCount rest)) := by
      rw [ih]
      refine forall_congr' fun before => forall_congr' fun other => forall_congr' fun after =>
        forall_congr' fun _ => forall_congr' fun _ => ?_
      rw [idxCount_cons, vtxCount_cons, Nat.add_assoc, Nat.add_assoc]
    have joined : List.range' target (vtxCount (list :: rest)) = List.range' target list.VtxBuffer.length ++
        List.range' (target + list.VtxBuffer.length) (vtxCount rest) := by
      rw [List.range'_append_1, vtxCount_cons]
    rw [shifted]
    by_cases empty : list.VtxBuffer = []
    · rw [joined, vertexSlots, empty]
      exact (and_iff_right fun some_ => absurd rfl some_).symm
    · constructor
      · intro tiled
        have same : offset = target := vertexSlots_first empty tiled
        refine ⟨fun _ => by rw [same]; rfl, ?_⟩
        rw [joined, vertexSlots, same] at tiled
        rw [same]
        exact (List.perm_append_left_iff _).mp tiled
      · rintro ⟨here, tiled⟩
        have same : offset = target := here empty
        rw [joined, vertexSlots, same]
        rw [same] at tiled
        exact tiled.append_left _

/-- Each slot below `count` is written once and no other is, exactly when the writes are a permutation of them. -/
theorem filled_iff {slots : List Nat} {count : Nat} :
    (∀ slot ∈ slots, slot < count) ∧ (∀ slot < count, slots.count slot = 1) ↔
      slots.Perm (List.range' 0 count) := by
  rw [List.perm_iff_count]
  constructor
  · rintro ⟨inside, once⟩ slot
    rw [List.count_range_1']
    by_cases below : slot < count
    · rw [once slot below, if_pos ⟨Nat.zero_le _, by omega⟩]
    · rw [List.count_eq_zero.mpr fun member => below (inside slot member), if_neg (by omega)]
  · intro counts
    refine ⟨fun slot member => ?_, fun slot below => ?_⟩
    · have positive : 0 < (List.range' 0 count).count slot := counts slot ▸ List.count_pos_iff.mpr member
      have there := List.mem_range'_1.mp (List.count_pos_iff.mp positive)
      omega
    · rw [counts, List.count_range_1', if_pos ⟨Nat.zero_le _, by omega⟩]

/-- The array after the writes. -/
def writeAll {W V : Type} (slot : W → Nat) (value : W → V) (writes : List W) (array : List V) : List V :=
  writes.foldl (fun array write => array.set (slot write) (value write)) array

section Writes

variable {W V : Type} {slot : W → Nat} {value : W → V} {writes : List W} {array : List V} {write : W}

theorem writeAll_other {place : Nat} (apart : place ∉ writes.map slot) :
    (writeAll slot value writes array)[place]? = array[place]? := by
  induction writes generalizing array with
  | nil => rfl
  | cons first rest ih =>
    rw [List.map_cons, List.mem_cons, not_or] at apart
    have step : writeAll slot value (first :: rest) array =
        writeAll slot value rest (array.set (slot first) (value first)) := rfl
    rw [step, ih apart.2, List.getElem?_set_ne (Ne.symm apart.1)]

/-- Where every slot is written once, it holds what was written. -/
theorem writeAll_get (slot : W → Nat) (value : W → V) (once : (writes.map slot).Nodup)
    (member : write ∈ writes) (inside : slot write < array.length) :
    (writeAll slot value writes array)[slot write]? = some (value write) := by
  induction writes generalizing array with
  | nil => exact absurd member List.not_mem_nil
  | cons first rest ih =>
    rw [List.map_cons, List.nodup_cons] at once
    have step : writeAll slot value (first :: rest) array =
        writeAll slot value rest (array.set (slot first) (value first)) := rfl
    rw [step]
    rcases List.mem_cons.mp member with rfl | later
    · rw [writeAll_other once.1, List.getElem?_set_self inside]
    · exact ih once.2 later (by rw [List.length_set]; exact inside)

end Writes

theorem nodup_of_once {slots : List Nat} {count : Nat} (inside : ∀ slot ∈ slots, slot < count)
    (once : ∀ slot < count, slots.count slot = 1) : slots.Nodup := by
  refine List.nodup_iff_count_le_one.mpr fun slot => ?_
  by_cases member : slot ∈ slots
  · exact Nat.le_of_eq (once slot (inside slot member))
  · rw [List.count_eq_zero.mpr member]
    exact Nat.zero_le 1

end Slots

section Main

variable {data : ImDrawData} {meshes : CollectedMeshes} {i j : Nat} {list : ImDrawList} {indx : UInt16}

/-- What is collected of the lists. -/
def ImDrawData.collected (data : ImDrawData) : CollectedMeshes :=
  ⟨data.TotalIdxCount, data.TotalVtxCount, listLoop indexLoop 0 0 data.CmdLists,
    listLoop vertexLoop 0 0 data.CmdLists⟩

theorem collectMeshesSystem_some (some_ : data.CmdLists ≠ []) :
    collectMeshesSystem (some data) = some data.collected := by
  have got : getDrawList (some data) = some data := Option.filter_eq_some_iff.mpr ⟨rfl, by simpa using some_⟩
  rw [collectMeshesSystem, got, Option.map_some, collectMeshesLoop_eq]
  rfl

theorem collectMeshesSystem_none (none_ : data.CmdLists = []) : collectMeshesSystem (some data) = none := by
  have got : getDrawList (some data) = none := Option.filter_eq_none_iff.mpr fun list here => by
    cases here
    simp [none_]
  rw [collectMeshesSystem, got, Option.map_none]

/-- An index that leads to its vertex has no indices in front of its list. -/
theorem KeepsGeometry.no_indices (kept : KeepsGeometry data data.collected) (here : data.CmdLists[i]? = some list)
    (there : list.IdxBuffer[j]? = some indx) : idxCount (data.CmdLists.take i) = 0 := by
  obtain ⟨write, written, list_, index, vertex, drawn, slot, vlist, number⟩ :=
    kept.designates i j list indx here there
  obtain ⟨i₁, list₁, j₁, indx₁, here₁, there₁, rfl⟩ := mem_indexWrites.mp written
  obtain ⟨i₂, list₂, j₂, vert, -, -, rfl⟩ := mem_vertexWrites.mp drawn
  obtain rfl : i = i₁ := list_.symm
  obtain rfl : i = i₂ := vlist.symm
  obtain rfl : j = j₁ := index.symm
  obtain rfl : indx.toNat = j₂ := number.symm
  obtain rfl := Option.some.inj (here.symm.trans here₁)
  obtain rfl := Option.some.inj (there.symm.trans there₁)
  exact Nat.add_eq_right.mp slot

/-- **What the arrays hold** after the writes: behind the indices of the lists in front, index `j` of list `i` leads
to the vertex that it designates. -/
theorem KeepsGeometry.reads (kept : KeepsGeometry data data.collected) {indices : List Nat}
    {vertices : List UIVertex} (num_indices : indices.length = data.TotalIdxCount)
    (num_vertices : vertices.length = data.TotalVtxCount) (here : data.CmdLists[i]? = some list)
    (there : list.IdxBuffer[j]? = some indx) {vert : ImDrawVert} (drawn : list.VtxBuffer[indx.toNat]? = some vert) :
    ∃ n, (writeAll (·.slot) (·.value) data.collected.indexWrites indices)[idxCount (data.CmdLists.take i) + j]? =
        some n ∧
      (writeAll (·.slot) (·.value) data.collected.vertexWrites vertices)[n]? =
        some (uiVertex list indx.toNat vert) := by
  have zero := kept.no_indices here there
  have index := mem_indexWrites.mpr ⟨i, list, j, indx, here, there, rfl⟩
  have vertex := mem_vertexWrites.mpr ⟨i, list, indx.toNat, vert, here, drawn, rfl⟩
  have index_inside := kept.index_inside _ index
  have vertex_inside := kept.vertex_inside _ vertex
  have indices_once := nodup_of_once (List.forall_mem_map.mpr kept.index_inside) kept.index_once
  have vertices_once := nodup_of_once (List.forall_mem_map.mpr kept.vertex_inside) kept.vertex_once
  have led := writeAll_get (·.slot) (·.value) indices_once index (index_inside.trans_eq num_indices.symm)
  have held := writeAll_get (·.slot) (·.value) vertices_once vertex (vertex_inside.trans_eq num_vertices.symm)
  dsimp only at held
  rw [zero, Nat.zero_add] at held
  exact ⟨indx.toNat, led, held⟩

/-- An index of a list without vertices in front of it leads to its vertex. -/
theorem InFront.designates (front : InFront data.CmdLists) (formed : data.WellFormed)
    (here : data.CmdLists[i]? = some list) (there : list.IdxBuffer[j]? = some indx) :
    ∃ write ∈ data.collected.indexWrites, write.list = i ∧ write.index = j ∧
      ∃ vertex ∈ data.collected.vertexWrites, vertex.slot = write.value ∧ vertex.list = i ∧
        vertex.vertex = indx.toNat := by
  have below := formed.below list (List.mem_of_getElem? here) indx (List.mem_of_getElem? there)
  obtain ⟨equal, none_⟩ := front _ _ _ (split_at here).1
  have empty : idxCount (data.CmdLists.take i) = 0 := by
    rw [equal (List.ne_nil_of_length_pos (Nat.zero_lt_of_lt below)),
      none_ (List.ne_nil_of_mem (List.mem_of_getElem? there))]
  refine ⟨_, mem_indexWrites.mpr ⟨i, list, j, indx, here, there, rfl⟩, rfl, rfl,
    _, mem_vertexWrites.mpr ⟨i, list, indx.toNat, _, here, List.getElem?_eq_getElem below, rfl⟩, ?_, rfl, rfl⟩
  rw [empty, Nat.zero_add]

/-- The collected meshes keep the geometry exactly when the lists are in front of each other so. -/
theorem collected_kept_iff (formed : data.WellFormed) :
    KeepsGeometry data data.collected ↔ InFront data.CmdLists := by
  have tiled := vertexSlots_perm_iff 0 0 data.CmdLists
  rw [← vertexLoop_slots 0, ← formed.vertices] at tiled
  constructor
  · intro kept
    have equal := tiled.mp (filled_iff.mp ⟨List.forall_mem_map.mpr kept.vertex_inside, kept.vertex_once⟩)
    refine fun before list after split => ⟨fun some_ => by simpa using equal before list after split some_,
      fun some_ => ?_⟩
    have here : data.CmdLists[before.length]? = some list := by
      rw [split, List.getElem?_append_right (Nat.le_refl _), Nat.sub_self]
      rfl
    obtain ⟨indx, others, buffer⟩ := List.exists_cons_of_ne_nil some_
    have there : list.IdxBuffer[0]? = some indx := by
      rw [buffer]
      rfl
    have zero := kept.no_indices here there
    rw [split, List.take_left] at zero
    have inside := formed.below list (List.mem_of_getElem? here) indx (List.mem_of_getElem? there)
    have same := equal before list after split (List.ne_nil_of_length_pos (Nat.zero_lt_of_lt inside))
    omega
  · intro front
    have vertices := filled_iff.mpr (tiled.mpr fun before list after split some_ => by
      rw [(front before list after split).1 some_])
    have ordered : ((listLoop indexLoop 0 0 data.CmdLists).map (·.slot)).Perm
        (List.range' 0 data.TotalIdxCount) := by
      rw [indexLoop_slots, formed.indices]
    have indices := filled_iff.mpr ordered
    exact ⟨List.forall_mem_map.mp indices.1, List.forall_mem_map.mp vertices.1, indices.2, vertices.2,
      fun i j list indx here there => front.designates formed here there⟩

/-- **The merged arrays keep the geometry** exactly when each list with vertices has as many indices as vertices in
front of it, and each list with indices has no vertices in front of it. -/
theorem meshes_kept_iff (formed : data.WellFormed) :
    (∀ meshes, collectMeshesSystem (some data) = some meshes → KeepsGeometry data meshes) ↔
      InFront data.CmdLists := by
  by_cases none_ : data.CmdLists = []
  · rw [collectMeshesSystem_none none_, none_]
    exact iff_of_true (fun _ impossible => absurd impossible.symm (Option.some_ne_none _))
      fun before list after split => by simp at split
  · rw [← collected_kept_iff formed, collectMeshesSystem_some none_]
    exact ⟨fun all => all _ rfl, fun kept meshes same => Option.some.inj same ▸ kept⟩

/-- One vertex of the example. -/
def blackVertex : ImDrawVert := ⟨(1, 2), (3, 4), 5⟩

/-- Two lists: three vertices under three indices, and one vertex without an index. -/
def twoLists : ImDrawData := ⟨3, 4, [⟨[0, 1, 2], List.replicate 3 blackVertex, []⟩, ⟨[], [blackVertex], []⟩]⟩

/-- Two lists that keep their geometry. -/
theorem meshes_kept_two : KeepsGeometry twoLists twoLists.collected := by
  have formed : twoLists.WellFormed := ⟨by simp [twoLists], rfl, rfl⟩
  have front : InFront twoLists.CmdLists := by
    refine (forall_split_cons (P := fun before other => _ ∧ _) _).mpr ⟨⟨fun _ => rfl, fun _ => rfl⟩, ?_⟩
    refine (forall_split_cons (P := fun before other => _ ∧ _) _).mpr
      ⟨⟨fun _ => rfl, fun some_ => absurd rfl some_⟩, ?_⟩
    exact fun before list after split => by simp at split
  exact (meshes_kept_iff formed).mpr front _ (collectMeshesSystem_some (by decide))

/-- A quad of four vertices and six indices in each of two lists. -/
def twoQuads : ImDrawData :=
  ⟨12, 8, List.replicate 2 ⟨[0, 1, 2, 0, 2, 3], List.replicate 4 blackVertex, []⟩⟩

/-- **Two quads**: the vertices of the second are written from slot 6 of 8 on, past the end of the array, and its
indices lead to the first. -/
theorem second_quad_lost :
    (collectMeshesSystem (some twoQuads)).map (fun meshes => (meshes.num_vertices,
        meshes.vertexWrites.map (·.slot), meshes.indexWrites.map (·.value))) =
      some (8, [0, 1, 2, 3, 6, 7, 8, 9], [0, 1, 2, 0, 2, 3, 0, 1, 2, 0, 2, 3]) ∧
    ¬ ∀ meshes, collectMeshesSystem (some twoQuads) = some meshes → KeepsGeometry twoQuads meshes := by
  refine ⟨by decide, fun keeps => ?_⟩
  have kept := keeps _ (collectMeshesSystem_some (by decide))
  have past : (⟨9, 1, 3, uiVertex ⟨[0, 1, 2, 0, 2, 3], List.replicate 4 blackVertex, []⟩ 3 blackVertex⟩ :
      VertexWrite) ∈ twoQuads.collected.vertexWrites :=
    mem_vertexWrites.mpr ⟨1, _, 3, _, rfl, rfl, rfl⟩
  exact absurd (kept.vertex_inside _ past) (by decide)

end Main

end Vaudou
