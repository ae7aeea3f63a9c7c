-- Tables from listings that run through red first. The entries are those of the listing in
-- another order, in which blue changes fastest: red and blue change places, and going there and
-- back leads to the same place.
import ColorPipeline.Lut.Lut3D
import Mathlib

open scoped ColorPipeline.Scalar

namespace ColorPipeline

/-! ## Cubes of sizes -/

theorem sizeCube_eq (n : Nat) : sizeCube n = n ^ 3 % sizeLimit := by
  unfold sizeCube sizeProduct
  rw [Nat.mod_mul_mod, pow_three']

/-- The count is right where the cube fits. -/
theorem sizeCube_eq_iff (n : Nat) : sizeCube n = n ^ 3 ↔ n ^ 3 < sizeLimit := by
  rw [sizeCube_eq]
  exact Nat.mod_eq_iff_lt (by decide)

theorem sizeCube_le (n : Nat) : sizeCube n ≤ n * n * n := by
  rw [sizeCube_eq, pow_three']
  exact Nat.mod_le _ _

theorem sizeCube_of_lt {n : Nat} (h : n * n * n < sizeLimit) : sizeCube n = n * n * n := by
  rw [← pow_three'] at h ⊢
  exact (sizeCube_eq_iff n).mpr h

namespace Lut3D

variable {S : Type} [Scalar S]

/-! ## Places -/

/-- The place in a listing, red changing fastest, of the entry at a place in a table. -/
def mirror (n i : Nat) : Nat := (i % n * n + i / n % n) * n + i / (n * n)

theorem digit_lt {n m a b : Nat} (ha : a < m) (hb : b < n) : a * n + b < m * n := by
  have hnext : (a + 1) * n ≤ m * n := Nat.mul_le_mul_right n ha
  rw [Nat.succ_mul] at hnext
  omega

theorem index_lt {n r g b : Nat} (hr : r < n) (hg : g < n) (hb : b < n) :
    (r * n + g) * n + b < n * n * n :=
  digit_lt (digit_lt hr hg) hb

/-- A place in a table has the numbers of its grid point as digits. -/
theorem index_digits {n r g b : Nat} (hg : g < n) (hb : b < n) :
    ((r * n + g) * n + b) / (n * n) = r ∧ ((r * n + g) * n + b) / n % n = g ∧
      ((r * n + g) * n + b) % n = b := by
  have hdiv : ∀ {a d : Nat}, d < n → (a * n + d) / n = a := by
    intro a d hd
    rw [Nat.mul_comm, Nat.mul_add_div (by omega), Nat.div_eq_of_lt hd, Nat.add_zero]
  have hmod : ∀ {a d : Nat}, d < n → (a * n + d) % n = d := by
    intro a d hd
    rw [Nat.mul_add_mod', Nat.mod_eq_of_lt hd]
  refine ⟨?_, ?_, hmod hb⟩
  · rw [← Nat.div_div_eq_div_mul, hdiv hb, hdiv hg]
  · rw [hdiv hb, hmod hg]

/-- Red and blue change places. -/
theorem mirror_index {n r g b : Nat} (hg : g < n) (hb : b < n) :
    mirror n ((r * n + g) * n + b) = (b * n + g) * n + r := by
  obtain ⟨hred, hgreen, hblue⟩ := index_digits (r := r) hg hb
  unfold mirror
  rw [hred, hgreen, hblue]

theorem exists_index {n i : Nat} (hi : i < n * n * n) :
    ∃ r g b, r < n ∧ g < n ∧ b < n ∧ i = (r * n + g) * n + b := by
  have hn : 0 < n := by
    rcases Nat.eq_zero_or_pos n with rfl | hpos
    · omega
    · exact hpos
  refine ⟨i / n / n, i / n % n, i % n, ?_, Nat.mod_lt _ hn, Nat.mod_lt _ hn, ?_⟩
  · exact Nat.div_lt_of_lt_mul (Nat.div_lt_of_lt_mul (by rwa [Nat.mul_comm n (n * n)]))
  · rw [Nat.div_add_mod', Nat.div_add_mod']

theorem mirror_lt {n i : Nat} (hi : i < n * n * n) : mirror n i < n * n * n := by
  obtain ⟨r, g, b, hr, hg, hb, rfl⟩ := exists_index hi
  rw [mirror_index hg hb]
  exact index_lt hb hg hr

/-- Going there and back leads to the same place, so no entry is lost or taken twice. -/
theorem mirror_mirror {n i : Nat} (hi : i < n * n * n) : mirror n (mirror n i) = i := by
  obtain ⟨r, g, b, hr, hg, hb, rfl⟩ := exists_index hi
  rw [mirror_index hg hb, mirror_index hg hr]

/-! ## Tables -/

theorem checkEntries_eq_ok_iff {found n : Nat} :
    checkEntries found n = .ok () ↔ 2 ≤ n ∧ found = sizeCube n := by
  unfold checkEntries
  split
  · rename_i hsmall
    simp [Nat.not_le.mpr hsmall]
  · rename_i hlarge
    split
    · rename_i hcount
      simp [hcount]
    · rename_i hcount
      simp [Nat.not_lt.mp hlarge, Classical.not_not.mp hcount]

/-- A listing is a table where its count is right and no point is missing. -/
theorem ofRedFastest_eq_ok_iff (listing : Array (Rgb S)) (n : Nat) {lut : Lut3D S} :
    ofRedFastest listing n = .ok lut ↔
      2 ≤ n ∧ listing.size = sizeCube n ∧ n * n * n ≤ listing.size ∧
        lut = { entries := Array.ofFn (n := listing.size) fun i =>
          listing.getD (mirror n i) (Rgb.gray 0), size := n } := by
  unfold ofRedFastest ofEntries
  by_cases hcheck : checkEntries listing.size n = .ok ()
  · obtain ⟨htwo, hcount⟩ := checkEntries_eq_ok_iff.mp hcheck
    have hcheck' : ∀ f : Fin listing.size → Rgb S,
        checkEntries (Array.ofFn f).size n = .ok () := by
      intro f
      rwa [Array.size_ofFn]
    by_cases hshort : listing.size < n * n * n
    · simp [hcheck, hshort, bind, Except.bind, throw, throwThe, MonadExceptOf.throw]
    · have hlong : n * n * n ≤ listing.size := Nat.not_lt.mp hshort
      simp only [hcheck, hcheck', if_neg hshort, htwo, hcount.symm, hlong, true_and]
      exact ⟨fun h => (Except.ok.inj h).symm, fun h => congrArg Except.ok h.symm⟩
  · constructor
    · intro h
      rcases hfault : checkEntries listing.size n with e | u
      · rw [hfault] at h
        cases h
      · exact absurd hfault hcheck
    · rintro ⟨htwo, hcount, _⟩
      exact absurd (checkEntries_eq_ok_iff.mpr ⟨htwo, hcount⟩) hcheck

/-- The listing of a table, red changing fastest: its entries are those of the listing. -/
theorem of_ofRedFastest {listing : Array (Rgb S)} {n : Nat} {lut : Lut3D S}
    (h : ofRedFastest listing n = .ok lut) :
    lut.size = n ∧ listing.size = n * n * n ∧ lut.entries.toList.Perm listing.toList ∧
      ∀ r g b, r < n → g < n → b < n →
        listing[(b * n + g) * n + r]? = some (lut.get r g b) := by
  obtain ⟨_, hcount, hlong, rfl⟩ := (ofRedFastest_eq_ok_iff listing n).mp h
  have hsize : listing.size = n * n * n := le_antisymm (hcount ▸ sizeCube_le n) hlong
  have hlt : ∀ {i}, i < listing.size ↔ i < n * n * n := by
    intro i
    rw [hsize]
  refine ⟨rfl, hsize, ?_, ?_⟩
  · let swap (i : Fin listing.size) : Fin listing.size :=
      ⟨mirror n i, hlt.mpr (mirror_lt (hlt.mp i.isLt))⟩
    have hswap : Function.Involutive swap := fun i => Fin.ext (mirror_mirror (hlt.mp i.isLt))
    have hentries : (Array.ofFn fun i : Fin listing.size =>
        listing.getD (mirror n i) (Rgb.gray 0)).toList =
          List.ofFn ((fun i : Fin listing.size => listing[i]) ∘ hswap.toPerm swap) := by
      rw [Array.toList_ofFn]
      congr 1
      funext i
      rw [Array.getD_eq_getD_getElem?, Array.getElem?_eq_getElem (swap i).isLt, Option.getD_some]
      rfl
    have hlisting : List.ofFn (fun i : Fin listing.size => listing[i]) = listing.toList := by
      rw [← Array.toList_ofFn]
      congr 1
      exact Array.ofFn_getElem
    rw [hentries, ← hlisting]
    exact Equiv.Perm.ofFn_comp_perm _ _
  · intro r g b hr hg hb
    unfold get index
    simp only
    rw [Array.getD_eq_getD_getElem?, Array.getElem?_ofFn, dif_pos (hlt.mpr (index_lt hr hg hb))]
    simp only [Option.getD_some, mirror_index hg hb]
    rw [Array.getD_eq_getD_getElem?, Array.getElem?_eq_getElem (hlt.mpr (index_lt hb hg hr)),
      Option.getD_some]

end Lut3D

end ColorPipeline
