-- Runs over pixels: however a buffer is stored and cut into chunks, each of its pixels
-- goes through the renderers by itself, and a call that is refused changes nothing.
import ColorPipeline.Render.PixelProcessor
import Mathlib.Algebra.Order.Group.Nat
import Mathlib.Data.List.Basic

open scoped ColorPipeline.Scalar

namespace ColorPipeline

variable {P S : Type}

/-! ## Chunks -/

/-- Work on the chunks of a list is work on the list, where the work on any two parts of whole
pixels can be done apart. -/
theorem flatMap_chunks {α β : Type} {f : List α → List β} {d size : Nat} (hd : d ∣ size)
    (hsize : 0 < size) (hnil : f [] = [])
    (happend : ∀ a b, d ∣ a.length → d ∣ b.length → f (a ++ b) = f a ++ f b) (items : List α)
    (hitems : d ∣ items.length) : (chunks size items).flatMap f = f items := by
  fun_induction chunks size items with
  | case1 => exact hnil.symm
  | case2 a rest ih =>
    rw [List.flatMap_cons]
    by_cases hfull : size - 1 ≤ rest.length
    · have hlength : (a :: rest.take (size - 1)).length = size := by
        rw [List.length_cons, List.length_take]
        omega
      have hrest : d ∣ (rest.drop (size - 1)).length := by
        have hsub : (rest.drop (size - 1)).length = (a :: rest).length - size := by
          rw [List.length_drop, List.length_cons]
          omega
        rw [hsub]
        exact Nat.dvd_sub hitems hd
      have hfirst : d ∣ (a :: rest.take (size - 1)).length := by rwa [hlength]
      rw [ih hrest, ← happend _ _ hfirst hrest, List.cons_append, List.take_append_drop]
    · rw [List.take_of_length_le (by omega), List.drop_of_length_le (by omega)]
      simp [chunks]

/-- Pixels as a buffer of 3 or 4 samples each. -/
def flattened (channels : Nat) (pixels : List (Rgba S)) : List S :=
  pixels.flatMap fun px => px.toList.take channels

section Buffers

variable [Scalar S]

/-- A renderer that works on a buffer treats every pixel of it alike. -/
theorem applyBuffer_flattened (r : Renderer S) (pixels : List (Rgba S)) :
    r.applyBuffer (flattened 4 pixels) = flattened 4 (pixels.map r.apply) := by
  unfold flattened
  induction pixels with
  | nil => rfl
  | cons px pixels ih =>
    simp only [List.map_cons, List.flatMap_cons, Rgba.toList, List.take_succ_cons, List.take_zero,
      List.cons_append, List.nil_append, Renderer.applyBuffer] at ih ⊢
    rw [ih]

end Buffers

/-! ## Runs -/

/-- What ops do to a pixel: their renderers change it one after the other. -/
def Pipeline.runPixel [Scalar P] [Scalar S] [Precision P S] (ops : Pipeline P S) (px : Rgba S) :
    Except (OpError P) (Rgba S) :=
  ops.foldlM (fun q op => (Renderer.ofOp op).map fun r => r.apply q) px

namespace PixelProcessor

variable [Scalar S] (p : PixelProcessor S)

/-- A pixel after all renderers. -/
def runPixel (px : Rgba S) : Rgba S := p.renderers.foldl (fun q r => r.apply q) px

/-- Chunks do not show: each holds whole pixels. -/
theorem applyUnits_flattened (pixels : List (Rgba S)) :
    p.applyUnits (flattened 4 pixels) = flattened 4 (pixels.map p.runPixel) := by
  unfold applyUnits runPixel
  induction p.renderers generalizing pixels with
  | nil => simp
  | cons r renderers ih =>
    rw [List.foldl_cons, applyBuffer_flattened, ih, List.map_map]
    rfl

theorem applyRgb_eq_map (pixels : List (Rgb S)) :
    p.applyRgb pixels = pixels.map fun c => (p.runPixel (.ofRgb c 1)).rgb := by
  have hcolors : ∀ pixels : List (Rgba S), colorsOf (flattened 4 pixels) = pixels.map Rgba.rgb := by
    intro pixels
    induction pixels with
    | nil => rfl
    | cons px pixels ih => exact congrArg (px.rgb :: ·) ih
  have hwork : ∀ chunk : List (Rgb S),
      colorsOf (p.applyUnits (chunk.flatMap fun c => (Rgba.ofRgb c 1).toList)) =
        chunk.map fun c => (p.runPixel (.ofRgb c 1)).rgb := by
    intro chunk
    have hflat : (chunk.flatMap fun c => (Rgba.ofRgb c (1 : S)).toList) =
        flattened 4 (chunk.map fun c => Rgba.ofRgb c 1) := by
      unfold flattened
      rw [List.flatMap_map]
      rfl
    rw [hflat, applyUnits_flattened, hcolors, List.map_map, List.map_map]
    rfl
  unfold applyRgb
  simp only [hwork]
  exact flatMap_chunks (Nat.one_dvd _) (by decide) rfl (fun _ _ _ _ => List.map_append) pixels
    (Nat.one_dvd _)

theorem applyRgba_eq_map (pixels : List (Rgba S)) :
    p.applyRgba pixels = pixels.map p.runPixel := by
  have hpixels : ∀ pixels : List (Rgba S), pixelsOf (flattened 4 pixels) = pixels := by
    intro pixels
    induction pixels with
    | nil => rfl
    | cons px pixels ih => exact congrArg (px :: ·) ih
  have hwork : ∀ chunk : List (Rgba S),
      pixelsOf (p.applyUnits (chunk.flatMap Rgba.toList)) = chunk.map p.runPixel := by
    intro chunk
    change pixelsOf (p.applyUnits (flattened 4 chunk)) = _
    rw [applyUnits_flattened, hpixels]
  unfold applyRgba
  simp only [hwork]
  exact flatMap_chunks (Nat.one_dvd _) (by decide) rfl (fun _ _ _ _ => List.map_append) pixels
    (Nat.one_dvd _)

end PixelProcessor

/-! ## Pixels of images -/

namespace Samples

/-- The samples of one pixel. -/
def pixel (channels k : Nat) : Samples S → Samples S
  | bytes values => bytes ((values.drop (k * channels)).take channels)
  | words values => words ((values.drop (k * channels)).take channels)
  | halves values => halves ((values.drop (k * channels)).take channels)
  | floats values => floats ((values.drop (k * channels)).take channels)

variable [Scalar S] [Stored S]

end Samples

namespace Image

/-- The samples fill the pixels, each of 3 or 4 channels, and are stored as the depth asks. -/
structure WellFormed (image : Image S) : Prop where
  channels : image.channels = 3 ∨ image.channels = 4
  storage : image.samples.storage.holds image.depth
  size : image.samples.size = image.pixels * image.channels

variable [Scalar S] [Stored S]

/-- A pixel in units of 1.0, with an alpha of 1 where the image has none. -/
def unpack (image : Image S) (k : Nat) : Option (Rgba S) :=
  match (image.samples.pixel image.channels k).units image.depth.maxValue with
  | [r, g, b] => some ⟨r, g, b, 1⟩
  | [r, g, b, a] => some ⟨r, g, b, a⟩
  | _ => none

/-- The samples of a pixel, without its alpha where the image has none. -/
def pack (image : Image S) (px : Rgba S) : Samples S :=
  Samples.ofUnits image.samples.storage image.depth.maxValue (px.toList.take image.channels)

end Image

/-! ## Calls -/

namespace PixelProcessor

variable [Scalar S] [Stored S] (p : PixelProcessor S)

/-- What is left where an image was: the result, or the image as it was if there is none. -/
def leftIn (image : Image S) :
    Except (OpError P) (Image S) → Except (OpError P) Unit × Image S
  | .ok done => (.ok (), done)
  | .error e => (.error e, image)

theorem run_get_bind {ε σ α : Type} (f : σ → ExceptT ε (StateM σ) α) (s : σ) :
    (get >>= f).run.run s = (f s).run.run s := rfl

omit [Scalar S] [Stored S] in
/-- A call that fails leaves its image, and its error is what comes out. -/
theorem changed_eq_of_run {call : ExceptT (OpError P) (StateM (Image S)) Unit} {image : Image S}
    {result : Except (OpError P) (Image S)} (h : call.run.run image = leftIn image result) :
    changed call image = result := by
  unfold changed
  rw [h]
  cases result <;> rfl

/-- Either the depths are wrong and nothing happens, or all samples are written over. -/
theorem run_applyInPlace (image : Image S) :
    (p.applyInPlace : ExceptT (OpError P) _ _).run.run image = leftIn image
      (if image.depth ≠ p.input ∨ image.depth ≠ p.output then
        .error (.buffer (.inPlaceDepth image.depth p.input p.output))
      else .ok { image with samples := p.render image image.samples image.channels }) := by
  unfold applyInPlace
  rw [run_get_bind]
  by_cases hdepth : image.depth ≠ p.input ∨ image.depth ≠ p.output
  · simp only [if_pos hdepth]
    rfl
  · simp only [if_neg hdepth]
    rfl

/-- A call in place asks for one depth on both sides. -/
theorem apply_eq (image : Image S) :
    p.apply image = if image.depth ≠ p.input ∨ image.depth ≠ p.output then
        (.error (.buffer (.inPlaceDepth image.depth p.input p.output)) : Except (OpError P) _)
      else .ok { image with samples := p.render image image.samples image.channels } :=
  changed_eq_of_run (p.run_applyInPlace image)

end PixelProcessor

end ColorPipeline
