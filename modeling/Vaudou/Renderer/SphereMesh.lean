/-
**The mesh of a sphere, `vd_r_generate_sphere_data`.**

The function writes a grid of vertices, row by row, and six indices for each cell of the grid: two
triangles. A vertex is a parameter of the grid point here; the coordinates are floats. `SphereMesh` keeps the
writes to the two arrays in order, each with the slot it goes to.

* `sphereAt` — the arrays after so many vertices and cells; both are written from the front on.
* `generateSphereData_eq` — the arrays in the end.
* `generateSphereData_sound` — every slot is written once, every index is a vertex, and each cell is cut
  along a diagonal into two triangles of one orientation.
-/

import Vaudou.Foundation.CountLoops
import Mathlib.Data.Finset.Insert
import Mathlib.Data.Finset.Lattice.Basic
import Mathlib.Tactic.Ring

namespace Vaudou

open Vaudou.CountLoop

variable {V : Type}

/-- What `vd_r_generate_sphere_data` leaves, with the counters of its loops. -/
structure SphereMesh (V : Type) where
  num_vertices : Int
  num_indices : Int
  v_idx : Int
  i_idx : Int
  vertices : List (Int × V)
  indices : List (Int × Nat)

/-- `(*vertices)[v_idx++] = vertex`. -/
def writeVertex (vertex : V) (mesh : SphereMesh V) : Option (SphereMesh V) :=
  (cInt (mesh.v_idx + 1)).map fun next =>
    { mesh with v_idx := next, vertices := mesh.vertices ++ [(mesh.v_idx, vertex)] }

/-- `(*indices)[i_idx++] = index`; an index is an `unsigned int`. -/
def writeIndex (index : Int) (mesh : SphereMesh V) : Option (SphereMesh V) :=
  (cInt (mesh.i_idx + 1)).map fun next =>
    { mesh with i_idx := next, indices := mesh.indices ++ [(mesh.i_idx, (index % 2 ^ 32).toNat)] }

/-- The body of the loops over the cells. -/
def writeCell (rings lat lon : Int) (mesh : SphereMesh V) : Option (SphereMesh V) :=
  (cInt (rings + 1)).bind fun stride =>
    (cInt (lat * stride)).bind fun row =>
      (cInt (row + lon)).bind fun first =>
        (cInt (first + rings)).bind fun next =>
          (cInt (next + 1)).bind fun second =>
            (writeIndex first mesh).bind fun mesh =>
              (writeIndex second mesh).bind fun mesh =>
                (cInt (first + 1)).bind fun right =>
                  (writeIndex right mesh).bind fun mesh =>
                    (writeIndex second mesh).bind fun mesh =>
                      (cInt (second + 1)).bind fun secondRight =>
                        (writeIndex secondRight mesh).bind fun mesh =>
                          (cInt (first + 1)).bind fun right => writeIndex right mesh

/-- `vd_r_generate_sphere_data`. -/
def generateSphereData (vertex : (lat lon : Int) → V) (segments rings : Int) : Option (SphereMesh V) :=
  (cInt (segments + 1)).bind fun rows =>
    (cInt (rings + 1)).bind fun columns =>
      (cInt (rows * columns)).bind fun num_vertices =>
        (cInt (segments * rings)).bind fun cells =>
          (cInt (cells * 6)).bind fun num_indices =>
            (countFromZero (· ≤ segments)
              (fun lat => countFromZero (· ≤ rings) fun lon => writeVertex (vertex lat lon))
              ⟨num_vertices, num_indices, 0, 0, [], []⟩).bind fun mesh =>
                countFromZero (· < segments)
                  (fun lat => countFromZero (· < rings) fun lon => writeCell rings lat lon) mesh

/-! ### The arrays on the way -/

/-- The slot of a grid point. -/
def gridSlot (rings lat lon : Nat) : Nat := lat * (rings + 1) + lon

/-- The indices of a cell. -/
def cellIndices (rings lat lon : Nat) : List Nat :=
  [gridSlot rings lat lon, gridSlot rings (lat + 1) lon, gridSlot rings lat (lon + 1),
    gridSlot rings (lat + 1) lon, gridSlot rings (lat + 1) (lon + 1), gridSlot rings lat (lon + 1)]

/-- The indices of so many cells. -/
def cellsIndices (rings cells : Nat) : List Nat :=
  (List.range cells).flatMap fun cell => cellIndices rings (cell / rings) (cell % rings)

/-- Writes to the slots of an array, from the front on. -/
def fromFront {A : Type} (values : List A) : List (Int × A) :=
  values.mapIdx fun slot value => ((slot : Int), value)

/-- The mesh after so many vertices and cells. -/
def sphereAt (vertex : (lat lon : Int) → V) (segments rings points cells : Nat) : SphereMesh V where
  num_vertices := ((segments + 1) * (rings + 1) : Nat)
  num_indices := (segments * rings * 6 : Nat)
  v_idx := points
  i_idx := (6 * cells : Nat)
  vertices := fromFront ((List.range points).map fun point =>
    vertex (point / (rings + 1) : Nat) (point % (rings + 1) : Nat))
  indices := fromFront (cellsIndices rings cells)

section Arrays

variable {A : Type} {vertex : (lat lon : Int) → V} {segments rings points cells lat lon : Nat}

/-- One write more. -/
theorem fromFront_concat (values : List A) (value : A) :
    fromFront (values ++ [value]) = fromFront values ++ [((values.length : Int), value)] := by
  rw [fromFront, fromFront, List.mapIdx_concat]

/-- **The slots are those of the array**, one after the other. -/
theorem fromFront_slots (values : List A) :
    (fromFront values).map Prod.fst = (List.range values.length).map Nat.cast := by
  rw [fromFront, List.mapIdx_eq_zipIdx_map, List.map_map, List.range_eq_range', ← List.zipIdx_map_snd 0 values,
    List.map_map]
  rfl

theorem mem_fromFront {values : List A} {slot : Nat} {value : A} (written : values[slot]? = some value) :
    ((slot : Int), value) ∈ fromFront values := by
  rw [fromFront, List.mem_mapIdx]
  obtain ⟨inside, same⟩ := List.getElem?_eq_some_iff.mp written
  exact ⟨slot, inside, by rw [same]⟩

theorem value_mem_fromFront {values : List A} {write : Int × A} (member : write ∈ fromFront values) :
    write.2 ∈ values := by
  rw [fromFront, List.mem_mapIdx] at member
  obtain ⟨slot, inside, rfl⟩ := member
  exact List.getElem_mem inside

theorem cellsIndices_length (rings cells : Nat) : (cellsIndices rings cells).length = 6 * cells := by
  induction cells with
  | zero => rfl
  | succ cells ih =>
    rw [cellsIndices, List.range_succ, List.flatMap_append, List.length_append]
    show (cellsIndices rings cells).length + 6 = _
    omega

theorem cellsIndices_succ (rings cells : Nat) : cellsIndices rings (cells + 1) =
    cellsIndices rings cells ++ cellIndices rings (cells / rings) (cells % rings) := by
  rw [cellsIndices, List.range_succ, List.flatMap_append, List.flatMap_singleton]
  rfl

/-- The row and the column of a place in a grid. -/
theorem place_row {width row column : Nat} (inside : column < width) :
    (row * width + column) / width = row ∧ (row * width + column) % width = column := by
  refine ⟨?_, Nat.mul_add_mod_of_lt inside⟩
  rw [Nat.add_comm, Nat.add_mul_div_right _ _ (by omega), Nat.div_eq_of_lt inside, Nat.zero_add]

/-- The slots of the grid are in front of its end. -/
theorem gridSlot_lt (row : lat ≤ segments) (column : lon ≤ rings) :
    gridSlot rings lat lon < (segments + 1) * (rings + 1) := by
  calc lat * (rings + 1) + lon < lat * (rings + 1) + (rings + 1) := by omega
    _ = (lat + 1) * (rings + 1) := (Nat.succ_mul lat (rings + 1)).symm
    _ ≤ (segments + 1) * (rings + 1) := Nat.mul_le_mul_right _ (Nat.succ_le_succ row)

/-- The point in the next row. -/
theorem gridSlot_below (rings lat lon : Nat) :
    gridSlot rings lat lon + rings + 1 = gridSlot rings (lat + 1) lon := by
  rw [gridSlot, gridSlot, Nat.succ_mul]
  omega

/-- The cells of the grid are in front of its end. -/
theorem cell_lt (row : lat < segments) (column : lon < rings) :
    lat * rings + lon < segments * rings := by
  calc lat * rings + lon < lat * rings + rings := by omega
    _ = (lat + 1) * rings := (Nat.succ_mul lat rings).symm
    _ ≤ segments * rings := Nat.mul_le_mul_right _ row

end Arrays

/-! ### The loops -/

section Loops

variable {segments rings lat lon : Nat}

/-- **A vertex more.** -/
theorem writeVertex_next (vertex : (lat lon : Int) → V) (segments rings points cells : Nat)
    (fits : points + 1 < 2 ^ 31) :
    writeVertex (vertex (points / (rings + 1) : Nat) (points % (rings + 1) : Nat))
        (sphereAt vertex segments rings points cells) =
      some (sphereAt vertex segments rings (points + 1) cells) := by
  have written := fromFront_concat ((List.range points).map fun point =>
    vertex (point / (rings + 1) : Nat) (point % (rings + 1) : Nat))
      (vertex (points / (rings + 1) : Nat) (points % (rings + 1) : Nat))
  rw [List.length_map, List.length_range] at written
  rw [writeVertex]
  show (cInt ((points : Int) + 1)).map _ = _
  rw [cInt_succ fits, Option.map_some, sphereAt, sphereAt, List.range_succ, List.map_append, List.map_singleton,
    written]

/-- An index more. -/
theorem writeIndex_next (mesh : SphereMesh V) (values : List Nat) (index : Nat)
    (fits : values.length + 1 < 2 ^ 31) (small : index < 2 ^ 32) :
    writeIndex index { mesh with i_idx := values.length, indices := fromFront values } =
      some { mesh with
        i_idx := (values ++ [index]).length, indices := fromFront (values ++ [index]) } := by
  have word : ((index : Int) % 2 ^ 32).toNat = index := by omega
  rw [writeIndex]
  show (cInt ((values.length : Int) + 1)).map _ = _
  rw [cInt_succ fits, Option.map_some, fromFront_concat, List.length_append, List.length_singleton]
  dsimp only
  rw [word]

/-- **A cell more.** -/
theorem writeCell_next (vertex : (lat lon : Int) → V) (points : Nat) (row : lat < segments) (column : lon < rings)
    (points_fit : (segments + 1) * (rings + 1) < 2 ^ 31) (cells_fit : segments * rings * 6 < 2 ^ 31) :
    writeCell rings lat lon (sphereAt vertex segments rings points (lat * rings + lon)) =
      some (sphereAt vertex segments rings points (lat * rings + lon + 1)) := by
  have last : gridSlot rings (lat + 1) (lon + 1) < (segments + 1) * (rings + 1) := gridSlot_lt row column
  have cell := cell_lt row column
  have length := cellsIndices_length rings (lat * rings + lon)
  have place : (lat * rings + lon) / rings = lat ∧ (lat * rings + lon) % rings = lon := place_row column
  have next := cellsIndices_succ rings (lat * rings + lon)
  rw [place.1, place.2] at next
  have below := gridSlot_below rings lat lon
  have right : gridSlot rings lat (lon + 1) = gridSlot rings lat lon + 1 := rfl
  have belowRight : gridSlot rings (lat + 1) (lon + 1) = gridSlot rings (lat + 1) lon + 1 := rfl
  have first : cInt (((lat * (rings + 1) : Nat) : Int) + lon) = some ((gridSlot rings lat lon : Nat) : Int) :=
    cInt_add (show gridSlot rings lat lon < _ by omega)
  have start : sphereAt vertex segments rings points (lat * rings + lon) =
      { sphereAt vertex segments rings points (lat * rings + lon) with
        i_idx := (cellsIndices rings (lat * rings + lon)).length
        indices := fromFront (cellsIndices rings (lat * rings + lon)) } := by
    rw [length]
    rfl
  have row_fits : lat * (rings + 1) ≤ gridSlot rings lat lon := Nat.le_add_right _ _
  have wide : rings + 1 < 2 ^ 31 := by omega
  rw [writeCell, cInt_succ (by omega), Option.bind_some, cInt_mul (by omega), Option.bind_some, first,
    Option.bind_some, cInt_add (by omega), Option.bind_some, cInt_succ (by omega), Option.bind_some, below, start,
    writeIndex_next _ _ _ (by omega) (by omega), Option.bind_some,
    writeIndex_next _ _ _ (by simp; omega) (by omega), Option.bind_some, cInt_succ (by omega), Option.bind_some,
    writeIndex_next _ _ _ (by simp; omega) (by omega), Option.bind_some,
    writeIndex_next _ _ _ (by simp; omega) (by omega), Option.bind_some, cInt_succ (by omega), Option.bind_some,
    writeIndex_next _ _ _ (by simp; omega) (by omega), Option.bind_some, Option.bind_some,
    writeIndex_next _ _ _ (by simp; omega) (by omega)]
  have values : cellsIndices rings (lat * rings + lon) ++ [gridSlot rings lat lon] ++
      [gridSlot rings (lat + 1) lon] ++ [gridSlot rings lat lon + 1] ++ [gridSlot rings (lat + 1) lon] ++
        [gridSlot rings (lat + 1) lon + 1] ++ [gridSlot rings lat lon + 1] =
      cellsIndices rings (lat * rings + lon + 1) := by
    rw [next, cellIndices, right, belowRight]
    simp only [List.append_assoc, List.cons_append, List.nil_append]
  rw [values, cellsIndices_length]
  rfl

/-- **The loops over the grid points**, row by row. -/
theorem vertexLoops_eq (vertex : (lat lon : Int) → V) (fits : (segments + 1) * (rings + 1) < 2 ^ 31) :
    countFromZero (· ≤ (segments : Int))
        (fun lat => countFromZero (· ≤ (rings : Int)) fun lon => writeVertex (vertex lat lon))
        (sphereAt vertex segments rings 0 0) =
      some (sphereAt vertex segments rings ((segments + 1) * (rings + 1)) 0) := by
  have rows : segments + 1 ≤ (segments + 1) * (rings + 1) := Nat.le_mul_of_pos_right _ (Nat.succ_pos rings)
  have columns : rings + 1 ≤ (segments + 1) * (rings + 1) := Nat.le_mul_of_pos_left _ (Nat.succ_pos segments)
  have row : ∀ lat < segments + 1,
      countFromZero (· ≤ (rings : Int)) (fun lon => writeVertex (vertex lat lon))
          (sphereAt vertex segments rings (lat * (rings + 1)) 0) =
        some (sphereAt vertex segments rings ((lat + 1) * (rings + 1)) 0) := by
    intro lat inside
    rw [Nat.succ_mul]
    refine countFromZero_eq (fun lon => sphereAt vertex segments rings (lat * (rings + 1) + lon) 0)
      (by omega) (le_bound rings) fun lon column => ?_
    have slot : gridSlot rings lat lon < (segments + 1) * (rings + 1) :=
      gridSlot_lt (Nat.le_of_lt_succ inside) (Nat.le_of_lt_succ column)
    have place : (lat * (rings + 1) + lon) / (rings + 1) = lat ∧
        (lat * (rings + 1) + lon) % (rings + 1) = lon := place_row column
    have written := writeVertex_next vertex segments rings (lat * (rings + 1) + lon) 0
      (show gridSlot rings lat lon + 1 < 2 ^ 31 by omega)
    rwa [place.1, place.2] at written
  have start : sphereAt vertex segments rings 0 0 = sphereAt vertex segments rings (0 * (rings + 1)) 0 := by
    rw [Nat.zero_mul]
  rw [start]
  exact countFromZero_eq (fun lat => sphereAt vertex segments rings (lat * (rings + 1)) 0)
    (by omega) (le_bound segments) row

/-- **The loops over the cells**, row by row. -/
theorem cellLoops_eq (vertex : (lat lon : Int) → V) (points : Nat)
    (points_fit : (segments + 1) * (rings + 1) < 2 ^ 31) (cells_fit : segments * rings * 6 < 2 ^ 31) :
    countFromZero (· < (segments : Int))
        (fun lat => countFromZero (· < (rings : Int)) fun lon => writeCell rings lat lon)
        (sphereAt vertex segments rings points 0) =
      some (sphereAt vertex segments rings points (segments * rings)) := by
  have rows : segments + 1 ≤ (segments + 1) * (rings + 1) := Nat.le_mul_of_pos_right _ (Nat.succ_pos rings)
  have columns : rings + 1 ≤ (segments + 1) * (rings + 1) := Nat.le_mul_of_pos_left _ (Nat.succ_pos segments)
  have row : ∀ lat < segments,
      countFromZero (· < (rings : Int)) (fun lon => writeCell rings lat lon)
          (sphereAt vertex segments rings points (lat * rings)) =
        some (sphereAt vertex segments rings points ((lat + 1) * rings)) := by
    intro lat inside
    rw [Nat.succ_mul]
    exact countFromZero_eq (fun lon => sphereAt vertex segments rings points (lat * rings + lon))
      (by omega) (lt_bound rings) fun lon column =>
        writeCell_next vertex points inside column points_fit cells_fit
  have start : sphereAt vertex segments rings points 0 = sphereAt vertex segments rings points (0 * rings) := by
    rw [Nat.zero_mul]
  rw [start]
  exact countFromZero_eq (fun lat => sphereAt vertex segments rings points (lat * rings))
    (by omega) (lt_bound segments) row

/-- **`vd_r_generate_sphere_data`** fills both arrays from the front on. -/
theorem generateSphereData_eq (vertex : (lat lon : Int) → V) (segments rings : Nat)
    (points_fit : (segments + 1) * (rings + 1) < 2 ^ 31) (cells_fit : segments * rings * 6 < 2 ^ 31) :
    generateSphereData vertex segments rings =
      some (sphereAt vertex segments rings ((segments + 1) * (rings + 1)) (segments * rings)) := by
  have rows : segments + 1 ≤ (segments + 1) * (rings + 1) := Nat.le_mul_of_pos_right _ (Nat.succ_pos rings)
  have columns : rings + 1 ≤ (segments + 1) * (rings + 1) := Nat.le_mul_of_pos_left _ (Nat.succ_pos segments)
  have six : cInt (((segments * rings : Nat) : Int) * 6) = some ((segments * rings * 6 : Nat) : Int) :=
    cInt_mul cells_fit
  have vertices := vertexLoops_eq vertex points_fit
  have start : sphereAt vertex segments rings 0 0 =
      ⟨((segments + 1) * (rings + 1) : Nat), (segments * rings * 6 : Nat), 0, 0, [], []⟩ := rfl
  rw [start] at vertices
  rw [generateSphereData, cInt_succ (by omega), Option.bind_some, cInt_succ (by omega), Option.bind_some,
    cInt_mul points_fit, Option.bind_some, cInt_mul (by omega), Option.bind_some, six, Option.bind_some,
    vertices, Option.bind_some]
  exact cellLoops_eq vertex _ points_fit cells_fit

end Loops

/-! ### Triangles -/

/-- Three grid points, each with its row and its column. -/
structure GridTriangle where
  a : Nat × Nat
  b : Nat × Nat
  c : Nat × Nat

/-- The corners of a triangle. -/
def GridTriangle.corners (t : GridTriangle) : Finset (Nat × Nat) := {t.a, t.b, t.c}

/-- Twice the area of a triangle in the grid, with the sign of its orientation. -/
def GridTriangle.turn (t : GridTriangle) : Int :=
  ((t.b.1 : Int) - t.a.1) * ((t.c.2 : Int) - t.a.2) - ((t.b.2 : Int) - t.a.2) * ((t.c.1 : Int) - t.a.1)

/-- Two triangles cut a cell of the grid along a diagonal, with one orientation. -/
structure CutsCell (lat lon : Nat) (t t' : GridTriangle) : Prop where
  corners : t.corners ∪ t'.corners = {(lat, lon), (lat, lon + 1), (lat + 1, lon), (lat + 1, lon + 1)}
  diagonal : t.corners ∩ t'.corners = {(lat, lon), (lat + 1, lon + 1)} ∨
    t.corners ∩ t'.corners = {(lat, lon + 1), (lat + 1, lon)}
  orientation : 0 < t.turn * t'.turn

/-- The three indices from a slot on are the slots of the corners. -/
structure TriangleAt (mesh : SphereMesh V) (rings slot : Nat) (t : GridTriangle) : Prop where
  a : ((slot : Int), gridSlot rings t.a.1 t.a.2) ∈ mesh.indices
  b : (((slot + 1 : Nat) : Int), gridSlot rings t.b.1 t.b.2) ∈ mesh.indices
  c : (((slot + 2 : Nat) : Int), gridSlot rings t.c.1 t.c.2) ∈ mesh.indices

/-- **What a mesh is to be.** Every slot of both arrays is written once and nothing else is, each grid
point has its vertex, every index is one of a vertex, and the six indices of a cell cut it. -/
structure IsSphereMesh (vertex : (lat lon : Int) → V) (segments rings : Nat) (mesh : SphereMesh V) :
    Prop where
  num_vertices : mesh.num_vertices = ((segments + 1) * (rings + 1) : Nat)
  num_indices : mesh.num_indices = (segments * rings * 6 : Nat)
  vertices : mesh.vertices.map Prod.fst = (List.range ((segments + 1) * (rings + 1))).map Nat.cast
  indices : mesh.indices.map Prod.fst = (List.range (segments * rings * 6)).map Nat.cast
  points : ∀ lat ≤ segments, ∀ lon ≤ rings,
    ((gridSlot rings lat lon : Int), vertex lat lon) ∈ mesh.vertices
  inside : ∀ write ∈ mesh.indices, (write.2 : Int) < mesh.num_vertices
  cells : ∀ lat < segments, ∀ lon < rings, ∃ t t', CutsCell lat lon t t' ∧
    TriangleAt mesh rings (6 * (lat * rings + lon)) t ∧ TriangleAt mesh rings (6 * (lat * rings + lon) + 3) t'

/-- The first triangle of a cell. -/
def upperTriangle (lat lon : Nat) : GridTriangle := ⟨(lat, lon), (lat + 1, lon), (lat, lon + 1)⟩

/-- The second triangle of a cell. -/
def lowerTriangle (lat lon : Nat) : GridTriangle := ⟨(lat + 1, lon), (lat + 1, lon + 1), (lat, lon + 1)⟩

section Triangles

variable {segments rings lat lon cells : Nat}

/-- **The two triangles of a cell** share the diagonal from the lower left to the upper right. -/
theorem cutsCell (lat lon : Nat) : CutsCell lat lon (upperTriangle lat lon) (lowerTriangle lat lon) where
  corners := by
    ext ⟨row, column⟩
    simp only [GridTriangle.corners, upperTriangle, lowerTriangle, Finset.mem_union, Finset.mem_insert,
      Finset.mem_singleton, Prod.mk.injEq]
    omega
  diagonal := by
    refine Or.inr ?_
    ext ⟨row, column⟩
    simp only [GridTriangle.corners, upperTriangle, lowerTriangle, Finset.mem_inter, Finset.mem_insert,
      Finset.mem_singleton, Prod.mk.injEq]
    omega
  orientation := by
    have upper : (upperTriangle lat lon).turn = 1 := by
      simp only [GridTriangle.turn, upperTriangle, Nat.cast_succ]
      ring
    have lower : (lowerTriangle lat lon).turn = 1 := by
      simp only [GridTriangle.turn, lowerTriangle, Nat.cast_succ]
      ring
    rw [upper, lower]
    decide

/-- Every index is one of a vertex. -/
theorem cellsIndices_lt (rows : cells ≤ segments * rings) :
    ∀ index ∈ cellsIndices rings cells, index < (segments + 1) * (rings + 1) := by
  intro index member
  obtain ⟨cell, before, member⟩ := List.mem_flatMap.mp member
  have inside : cell < segments * rings := (List.mem_range.mp before).trans_le rows
  have wide : 0 < rings := Nat.pos_of_ne_zero fun zero => by
    rw [zero, Nat.mul_zero] at inside
    omega
  have row : cell / rings < segments := Nat.div_lt_of_lt_mul (by rwa [Nat.mul_comm])
  have column : cell % rings < rings := Nat.mod_lt cell wide
  simp only [cellIndices, List.mem_cons, List.not_mem_nil, or_false] at member
  rcases member with rfl | rfl | rfl | rfl | rfl | rfl
  · exact gridSlot_lt row.le column.le
  · exact gridSlot_lt row column.le
  · exact gridSlot_lt row.le column
  · exact gridSlot_lt row column.le
  · exact gridSlot_lt row column
  · exact gridSlot_lt row.le column

/-- The indices of a cell, among those of all cells. -/
theorem cellsIndices_cell (row : lat < segments) (column : lon < rings) {i : Nat} (among : i < 6) :
    (cellsIndices rings (segments * rings))[6 * (lat * rings + lon) + i]? = (cellIndices rings lat lon)[i]? := by
  obtain ⟨later, more⟩ := Nat.exists_eq_add_of_le (Nat.succ_le_of_lt (cell_lt row column))
  have place : (lat * rings + lon) / rings = lat ∧ (lat * rings + lon) % rings = lon := place_row column
  have length := cellsIndices_length rings (lat * rings + lon)
  have upTo := cellsIndices_succ rings (lat * rings + lon)
  rw [place.1, place.2] at upTo
  rw [more, cellsIndices, List.range_add, List.flatMap_append]
  change (cellsIndices rings (lat * rings + lon + 1) ++ _)[_]? = _
  rw [upTo, List.append_assoc, List.getElem?_append_right (by omega), length, Nat.add_sub_cancel_left,
    List.getElem?_append_left among]

/-- **The arrays of the sphere** are what they are to be. -/
theorem isSphereMesh (vertex : (lat lon : Int) → V) (segments rings : Nat) :
    IsSphereMesh vertex segments rings
      (sphereAt vertex segments rings ((segments + 1) * (rings + 1)) (segments * rings)) where
  num_vertices := rfl
  num_indices := rfl
  vertices := by
    rw [sphereAt, fromFront_slots, List.length_map, List.length_range]
  indices := by
    rw [sphereAt, fromFront_slots, cellsIndices_length, Nat.mul_comm]
  points lat row lon column := by
    have place : (lat * (rings + 1) + lon) / (rings + 1) = lat ∧
        (lat * (rings + 1) + lon) % (rings + 1) = lon := place_row (Nat.lt_succ_of_le column)
    refine mem_fromFront ?_
    rw [List.getElem?_map, List.getElem?_range (gridSlot_lt row column), Option.map_some, gridSlot, place.1,
      place.2]
  inside write member := by
    have value : write.2 ∈ cellsIndices rings (segments * rings) := value_mem_fromFront member
    have inside := cellsIndices_lt le_rfl write.2 value
    show (write.2 : Int) < ((segments + 1) * (rings + 1) : Nat)
    omega
  cells lat row lon column := by
    have index : ∀ i < 6, ∀ slot, (cellIndices rings lat lon)[i]? = some slot →
        (((6 * (lat * rings + lon) + i : Nat) : Int), slot) ∈
          fromFront (cellsIndices rings (segments * rings)) := fun i among slot written =>
      mem_fromFront ((cellsIndices_cell row column among).trans written)
    exact ⟨upperTriangle lat lon, lowerTriangle lat lon, cutsCell lat lon,
      ⟨index 0 (by decide) _ rfl, index 1 (by decide) _ rfl, index 2 (by decide) _ rfl⟩,
      ⟨index 3 (by decide) _ rfl, index 4 (by decide) _ rfl, index 5 (by decide) _ rfl⟩⟩

/-- **`vd_r_generate_sphere_data` generates the mesh of a sphere**, for all sizes whose counts are
`int`s. -/
theorem generateSphereData_sound (vertex : (lat lon : Int) → V) (segments rings : Nat)
    (points_fit : (segments + 1) * (rings + 1) < 2 ^ 31) (cells_fit : segments * rings * 6 < 2 ^ 31) :
    ∃ mesh, generateSphereData vertex segments rings = some mesh ∧ IsSphereMesh vertex segments rings mesh :=
  ⟨_, generateSphereData_eq vertex segments rings points_fit cells_fit, isSphereMesh vertex segments rings⟩

/-- Two segments and three rings. -/
theorem generateSphereData_sound_small :
    ∃ mesh, generateSphereData (fun lat lon => (lat, lon)) (2 : Nat) (3 : Nat) = some mesh ∧
      IsSphereMesh (fun lat lon => (lat, lon)) 2 3 mesh :=
  generateSphereData_sound (fun lat lon => (lat, lon)) 2 3 (by decide) (by decide)

end Triangles

end Vaudou
