-- Reads of a 3D table that has an entry for each of its grid points. None of them fails, so what
-- runs over the entries as they are read ends with what the functions of the grid give.
import ColorPipeline.Proofs.Checks
import ColorPipeline.Proofs.GridListings
import ColorPipeline.Proofs.Results

open scoped ColorPipeline.Scalar

namespace ColorPipeline

variable {P S : Type}

/-! ## Searches -/

namespace Grid

variable [Scalar S] {g : Grid S} {value? : Rgb S → Option (Rgb S)}

section Values

variable (hvalue : ∀ p, value? p = some (g.tetrahedral p))
include hvalue

theorem newtonStep?_of_values (guess value target : Rgb S) :
    newtonStep? value? guess value target = some (g.newtonStep guess value target) := by
  simp only [newtonStep?, slope?, hvalue, Option.map_some, Option.bind_eq_bind, Option.bind_some]
  rfl

/-- A search that misses no value goes as the one in the grid. -/
theorem newton?_of_values (target : Rgb S) (n : Nat) (guess : Rgb S) :
    newton? value? target n guess = some (g.newton target n guess) := by
  induction n generalizing guess with
  | zero => rfl
  | succ n ih =>
    unfold newton? newton
    rw [hvalue, Option.bind_eq_bind, Option.bind_some]
    dsimp only
    split
    · rfl
    · rw [newtonStep?_of_values hvalue, Option.bind_some, ih]

end Values

end Grid

/-! ## Tables -/

namespace Lut3D

/-- There are at least two points to an axis, and an entry for each grid point. Memory holds no
more entries than there are sizes. -/
structure Complete (lut : Lut3D S) : Prop where
  points : 2 ≤ lut.size
  entries : lut.entries.size = lut.size ^ 3
  fits : lut.entries.size < sizeLimit

variable [Scalar S] {lut : Lut3D S}

/-- The entry of every grid point is read. -/
theorem Complete.get?_eq (h : lut.Complete) {r g b : Nat} (hr : r < lut.size) (hg : g < lut.size)
    (hb : b < lut.size) : lut.get? r g b = some (lut.get r g b) := by
  have hindex : lut.index r g b < lut.entries.size := by
    rw [h.entries, pow_three']
    exact index_lt hr hg hb
  unfold get? get
  rw [Nat.mod_eq_of_lt (hindex.trans h.fits), Array.getElem?_eq_getElem hindex,
    Array.getD_eq_getD_getElem?, Array.getElem?_eq_getElem hindex, Option.getD_some]

/-- A corner of the cell of a colour is a grid point. -/
theorem Complete.corner_lt (h : lut.Complete) (p : Rgb S) (c : Channel) (on : Bool) :
    (lut.grid.place p).base.get c + on.toNat < lut.size := by
  have hbase : (lut.grid.place p).base.get c ≤ lut.size - 2 := by
    cases c <;> exact Nat.min_le_right _ _
  have hon := Bool.toNat_le on
  have hpoints := h.points
  omega

theorem Complete.read_corner (h : lut.Complete) (p : Rgb S) (red green blue : Bool) :
    lut.get? ((lut.grid.place p).base.red + red.toNat) ((lut.grid.place p).base.green + green.toNat)
        ((lut.grid.place p).base.blue + blue.toNat) =
      some (lut.grid.corner (lut.grid.place p).base red green blue) :=
  h.get?_eq (h.corner_lt p .red red) (h.corner_lt p .green green) (h.corner_lt p .blue blue)

theorem Complete.corner_readGrid (h : lut.Complete) (p : Rgb S) (red green blue : Bool) :
    lut.readGrid.corner (lut.readGrid.place p).base red green blue =
      lut.grid.corner (lut.grid.place p).base red green blue :=
  congrArg (fun read => read.getD (Rgb.gray 0)) (h.read_corner p red green blue)

theorem Complete.inCell?_eq (h : lut.Complete) {value : Grid S → Rgb S → Rgb S} {p : Rgb S}
    (hvalue : value lut.readGrid p = value lut.grid p) :
    lut.inCell? value p = some (value lut.grid p) := by
  have hcell : lut.hasCell (lut.readGrid.place p).base := by
    unfold hasCell
    simp only [List.all_eq_true]
    intro red _ green _ blue _
    exact Option.isSome_of_eq_some (h.read_corner p red green blue)
  unfold inCell?
  rw [if_pos hcell, hvalue]

theorem Complete.tetrahedral_read (h : lut.Complete) (p : Rgb S) :
    lut.inCell? Grid.tetrahedral p = some (lut.grid.tetrahedral p) := by
  refine h.inCell?_eq ?_
  unfold Grid.tetrahedral Grid.walk Grid.cornerAlong
  simp only [h.corner_readGrid]
  rfl

theorem Complete.trilinear_read (h : lut.Complete) (p : Rgb S) :
    lut.inCell? Grid.trilinear p = some (lut.grid.trilinear p) := by
  refine h.inCell?_eq ?_
  unfold Grid.trilinear
  simp only [h.corner_readGrid]
  rfl

/-- Applying the table never misses an entry, and gives the value between grid points. -/
theorem Complete.valueAt?_eq (h : lut.Complete) (p : Rgb S) : lut.valueAt? p = some (lut.apply p) := by
  have hlast (c : Channel) : (lut.grid.nearestIndex p).get c < lut.size := by
    have hpoints := h.points
    have hmin : (lut.grid.nearestIndex p).get c ≤ lut.size - 1 := by
      cases c <;> exact Nat.min_le_right _ _
    omega
  unfold valueAt? apply
  split
  · exact h.get?_eq (hlast .red) (hlast .green) (hlast .blue)
  · exact h.tetrahedral_read p
  · exact h.trilinear_read p

/-- A complete table always says whether it is an identity. -/
theorem Complete.isIdentity?_eq (h : lut.Complete) (tolerance : S) :
    lut.isIdentity? tolerance = some (lut.isIdentity tolerance) := by
  refine allM_eq_some fun r hr => allM_eq_some fun g hg => allM_eq_some fun b hb => ?_
  rw [List.mem_range] at hr hg hb
  rw [h.get?_eq hr hg hb, Option.map_some]

/-- A search in a complete table never reads beyond it. -/
theorem Complete.inverseAt?_eq (h : lut.Complete) (target : Rgb S) :
    lut.inverseAt? target = some (lut.inverseAt target) :=
  Grid.newton?_of_values h.tetrahedral_read target _ target

/-- The inputs of grid points are pushed one after the other, from number `i` on. -/
theorem Complete.inputsFrom?_eq (h : lut.Complete) (n i : Nat) (inputs : Array (Rgb S)) :
    lut.inputsFrom? n i inputs = some (inputs ++
      ((List.range' i n).map fun k => lut.inverseAt (gridColor lut.size k)).toArray) := by
  induction n generalizing i inputs with
  | zero => simp [inputsFrom?]
  | succ n ih =>
    rw [inputsFrom?, h.inverseAt?_eq, Option.bind_eq_bind, Option.bind_some, ih,
      List.range'_succ, List.map_cons]
    simp

/-- The search for all inputs never misses an entry, and gives the inverse table. -/
theorem Complete.invert?_eq (h : lut.Complete) : lut.invert? = some lut.invert := by
  unfold invert? invert
  rw [h.inputsFrom?_eq, Option.map_some]
  congr 2
  refine Array.ext ?_ ?_
  · simp [gridColors]
  · intro i _ _
    simp [gridColors]

/-! ### Tables without entries -/

section Empty

variable (h : lut.entries = #[])
include h

omit [Scalar S] in
/-- A table without entries has nothing to be read, whatever its size says. -/
theorem get?_of_empty (r g b : Nat) : lut.get? r g b = none := by
  unfold get?
  rw [h]
  rfl

theorem inCell?_of_empty (value : Grid S → Rgb S → Rgb S) (p : Rgb S) :
    lut.inCell? value p = none := by
  unfold inCell? hasCell
  simp [get?_of_empty h]

theorem valueAt?_of_empty (p : Rgb S) : lut.valueAt? p = none := by
  unfold valueAt?
  split
  · exact get?_of_empty h _ _ _
  · exact inCell?_of_empty h _ _
  · exact inCell?_of_empty h _ _

theorem inverseAt?_of_empty (target : Rgb S) : lut.inverseAt? target = none := by
  unfold inverseAt? Grid.newtonSteps Grid.newton?
  rw [inCell?_of_empty h]
  rfl

theorem invert?_of_empty (hsize : 0 < lut.size) : lut.invert? = none := by
  have hpoints : 0 < lut.size * lut.size * lut.size := Nat.mul_pos (Nat.mul_pos hsize hsize) hsize
  obtain ⟨n, hn⟩ := Nat.exists_eq_succ_of_ne_zero hpoints.ne'
  unfold invert?
  rw [hn, inputsFrom?, inverseAt?_of_empty h]
  rfl

theorem isIdentity?_of_empty (hsize : 0 < lut.size) (tolerance : S) :
    lut.isIdentity? tolerance = none := by
  obtain ⟨n, hn⟩ := Nat.exists_eq_succ_of_ne_zero hsize.ne'
  unfold isIdentity?
  rw [hn, List.range_succ_eq_map]
  simp only [List.allM, get?_of_empty h]
  rfl

end Empty

end Lut3D

/-! ## Ops -/

/-- The points of a grid can be counted in 64 bits. Only grids have so many. -/
def OpData.GridFits : OpData P S → Prop
  | lut3D l => l.lut.size ^ 3 < sizeLimit
  | _ => True

variable [Scalar S]

namespace Lut3DOp

variable {l : Lut3DOp S}

/-- A grid whose points can be counted is refused unless it has an entry for each of them. -/
theorem complete_of_validate (hvalid : (l.validate : Except (OpError P) Unit) = .ok ())
    (hfits : l.lut.size ^ 3 < sizeLimit) : l.lut.Complete := by
  obtain ⟨hpoints, hentries, _⟩ := l.validate_iff.mp hvalid
  rw [(sizeCube_eq_iff _).mpr hfits] at hentries
  exact ⟨hpoints, hentries, hentries ▸ hfits⟩

variable (h : l.lut.Complete)
include h

/-- The inverse of a grid has an entry for each point too. -/
theorem complete_evaluatedGrid : l.evaluatedGrid.Complete := by
  unfold evaluatedGrid
  split
  · exact h
  · have hentries : l.lut.invert.entries.size = l.lut.size ^ 3 := by
      rw [pow_three']
      exact Array.size_map.trans Array.size_ofFn
    exact ⟨h.points, hentries, hentries.trans_lt (h.entries ▸ h.fits)⟩

theorem readIdentity_eq_ok : (l.readIdentity : Except (OpError P) Unit) = .ok () := by
  unfold readIdentity
  rw [h.isIdentity?_eq]
  rfl

theorem readReplacement_eq_ok : (l.readReplacement : Except (OpError P) Unit) = .ok () := by
  unfold readReplacement
  split
  · rfl
  · exact readIdentity_eq_ok h

theorem evaluatedGrid?_eq : l.evaluatedGrid? = some l.evaluatedGrid := by
  unfold evaluatedGrid? evaluatedGrid
  split
  · rfl
  · exact h.invert?_eq

theorem readEvaluated_eq_ok : (l.readEvaluated : Except (OpError P) Unit) = .ok () := by
  unfold readEvaluated
  rw [evaluatedGrid?_eq h]
  rfl

end Lut3DOp

namespace OpData

variable [Scalar P] {d : OpData P S} (hvalid : d.validate = .ok ()) (hfits : d.GridFits)
include hvalid hfits

theorem readIdentity_eq_ok : d.readIdentity = .ok () := by
  cases d with
  | lut3D l => exact Lut3DOp.readIdentity_eq_ok (Lut3DOp.complete_of_validate hvalid hfits)
  | _ => rfl

theorem readReplacement_eq_ok : d.readReplacement = .ok () := by
  cases d with
  | lut3D l => exact Lut3DOp.readReplacement_eq_ok (Lut3DOp.complete_of_validate hvalid hfits)
  | _ => rfl

theorem readEvaluated_eq_ok : d.readEvaluated = .ok () := by
  cases d with
  | lut3D l => exact Lut3DOp.readEvaluated_eq_ok (Lut3DOp.complete_of_validate hvalid hfits)
  | _ => rfl

end OpData

end ColorPipeline
