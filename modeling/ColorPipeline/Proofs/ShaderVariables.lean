-- The variables of shader code. A name that ends in a swizzle stands for a part of a variable, so
-- what is assigned to it changes that part of the variable and nothing else.
import ColorPipeline.Shader.Evaluation
import Mathlib

namespace ColorPipeline

/-! ## Parts of a vector -/

namespace Swizzle

theorem mem_all (w : Swizzle) : w ∈ all := by cases w <;> decide

/-- No swizzle ends in another one, dots included. -/
theorem eq_of_isSuffix {w v : Swizzle} (h : ("." ++ w.name).toList <:+ ("." ++ v.name).toList) :
    w = v := by
  revert h
  cases w <;> cases v <;> decide

variable {R : Type} (value whole : ShaderValue R)

theorem replace_of_notMem {w : Swizzle} {i : Nat} (h : i ∉ w.places) :
    w.replace value whole i = whole i := if_neg h

/-- A colour that is assigned changes its three components in their order. -/
theorem replace_rgb (ch : Channel) :
    rgb.replace value whole ch.component = value ch.component := by
  cases ch <;> rfl

theorem replace_channel (ch : Channel) :
    (ofChannel ch).replace value whole ch.component = value 0 := by
  cases ch <;> rfl

theorem places_ofChannel (ch : Channel) : (ofChannel ch).places = [ch.component] := by
  cases ch <;> rfl

theorem component_ofChannel (ch : Channel) (i : Nat) :
    (ofChannel ch).component i = ch.component := by
  cases ch <;> rfl

theorem name_ofChannel (ch : Channel) : (ofChannel ch).name = ch.letter := by
  cases ch <;> rfl

end Swizzle

theorem Channel.component_ne {c d : Channel} (h : d ≠ c) : d.component ≠ c.component := by
  revert h
  cases c <;> cases d <;> decide

/-! ## Names -/

namespace ShaderState

variable {R : Type} {s : ShaderState R} {n v : String} {w : Swizzle}

theorem suffix_of_partOf? (h : partOf? n = some w) : ("." ++ w.name).toList <:+ n.toList :=
  List.isSuffixOf_iff_suffix.mp (List.find?_some (p := fun w : Swizzle =>
    ("." ++ w.name).toList.isSuffixOf n.toList) h)

theorem partOf?_part (v : String) (w : Swizzle) : partOf? (v ++ "." ++ w.name) = some w := by
  have hletters : (v ++ "." ++ w.name).toList = v.toList ++ ("." ++ w.name).toList := by
    simp only [String.toList_append, List.append_assoc]
  have hfound : (partOf? (v ++ "." ++ w.name)).isSome := by
    refine List.find?_isSome.mpr ⟨w, w.mem_all, ?_⟩
    rw [hletters, List.isSuffixOf_iff_suffix]
    exact List.suffix_append _ _
  obtain ⟨u, hu⟩ := Option.isSome_iff_exists.mp hfound
  have hsuffix := suffix_of_partOf? hu
  rw [hletters] at hsuffix
  -- the two parts are both ends of the name, so one is the end of the other
  rcases List.suffix_or_suffix_of_suffix hsuffix (List.suffix_append v.toList _) with h | h
  · rw [hu, Swizzle.eq_of_isSuffix h]
  · rw [hu, Swizzle.eq_of_isSuffix h]

theorem resolve_part (v : String) (w : Swizzle) : resolve (v ++ "." ++ w.name) = (v, some w) := by
  have hletters : (v ++ "." ++ w.name).toList = v.toList ++ ("." ++ w.name).toList := by
    simp only [String.toList_append, List.append_assoc]
  unfold resolve
  simp [partOf?_part, hletters]

/-- A name without a dot is that of a variable. -/
theorem resolve_plain (h : '.' ∉ n.toList) : resolve n = (n, none) := by
  have hnone : partOf? n = none := by
    refine List.find?_eq_none.mpr fun w _ => ?_
    rw [List.isSuffixOf_iff_suffix]
    intro hsuffix
    exact h (hsuffix.subset (by simp))
  unfold resolve
  rw [hnone]

/-- A name with a part is longer than that of the variable. -/
theorem ne_of_resolve (h : resolve n = (v, some w)) : v ≠ n := by
  unfold resolve at h
  split at h
  · rename_i u hu
    obtain ⟨rfl, -⟩ := Prod.mk.inj h
    have hle := (suffix_of_partOf? hu).length_le
    intro heq
    have hlength := congrArg (fun m => m.toList.length) heq
    simp at hlength hle
    omega
  · cases h

theorem eq_of_resolve (h : resolve n = (v, none)) : v = n := by
  unfold resolve at h
  split at h
  · cases h
  · exact (Prod.mk.inj h).1.symm

/-! ## Values -/

/-- Names without a dot are those of variables. -/
theorem read_plain (h : '.' ∉ n.toList) : s.read n = s n := by
  unfold read
  rw [resolve_plain h]

theorem write_plain (h : '.' ∉ n.toList) (value : ShaderValue R) :
    s.write n value = Function.update s n value := by
  unfold write
  rw [resolve_plain h]
  funext m
  rw [Function.update_apply]

/-- What is assigned changes one variable. -/
theorem write_of_ne {m : String} (h : m ≠ (resolve n).1) (value : ShaderValue R) :
    s.write n value m = s m := by
  unfold write
  rcases hn : resolve n with ⟨u, _ | w⟩
  · rw [hn] at h
    exact if_neg h
  · rw [hn] at h
    exact if_neg h

theorem read_part (v : String) (w : Swizzle) :
    s.read (v ++ "." ++ w.name) = fun i => s v (w.component i) := by
  unfold read
  rw [resolve_part]

/-- What is assigned to a part of a variable changes the variable. -/
theorem write_part (v : String) (w : Swizzle) (value : ShaderValue R) :
    s.write (v ++ "." ++ w.name) value = Function.update s v (w.replace value (s v)) := by
  unfold write
  rw [resolve_part]
  funext m
  rw [Function.update_apply]

/-- A colour that is assigned to a pixel. -/
theorem write_rgb (v : String) (value : ShaderValue R) :
    s.write (v ++ ".rgb") value = Function.update s v (Swizzle.rgb.replace value (s v)) := by
  have hname : v ++ ".rgb" = v ++ "." ++ Swizzle.rgb.name := by
    rw [String.append_assoc]
    rfl
  rw [hname, write_part]

theorem read_const (value : R) (n : String) (i : Nat) : read (fun _ _ => value) n i = value := by
  unfold read
  rcases resolve n with ⟨v, _ | j⟩ <;> rfl

section Channels

variable {pixel : String} {c d : Channel} {value : ShaderValue R}

theorem read_channel (pixel : String) (c : Channel) (i : Nat) :
    s.read (pixel ++ "." ++ c.letter) i = s pixel c.component := by
  rw [← Swizzle.name_ofChannel, read_part]
  exact congrArg (s pixel) (Swizzle.component_ofChannel c i)

theorem write_channel (pixel : String) (c : Channel) (value : ShaderValue R) :
    s.write (pixel ++ "." ++ c.letter) value =
      Function.update s pixel ((Swizzle.ofChannel c).replace value (s pixel)) := by
  rw [← Swizzle.name_ofChannel, write_part]

/-- Where a channel is given a value, a name that stands for the pixel has its other components
as before. -/
theorem read_write_channel {i : Nat} (hi : i ≠ c.component) :
    (s.write (pixel ++ "." ++ c.letter) value).read pixel i = s.read pixel i := by
  rw [write_channel]
  unfold read
  rcases hpixel : resolve pixel with ⟨v, _ | w⟩
  · rw [eq_of_resolve hpixel]
    simp only [Function.update_self]
    exact Swizzle.replace_of_notMem _ _ (by rwa [Swizzle.places_ofChannel, List.mem_singleton])
  · simp only [Function.update_of_ne (ne_of_resolve hpixel)]

theorem read_write_self :
    (s.write (pixel ++ "." ++ c.letter) value).read (pixel ++ "." ++ c.letter) 0 = value 0 := by
  rw [write_channel, read_channel, Function.update_self, Swizzle.replace_channel]

/-- A channel that is given a value does not change the others. -/
theorem read_write_ne (h : d ≠ c) :
    (s.write (pixel ++ "." ++ c.letter) value).read (pixel ++ "." ++ d.letter) 0 =
      s.read (pixel ++ "." ++ d.letter) 0 := by
  rw [write_channel, read_channel, read_channel, Function.update_self,
    Swizzle.replace_of_notMem _ _
      (by rw [Swizzle.places_ofChannel, List.mem_singleton]; exact Channel.component_ne h)]

end Channels

end ShaderState

end ColorPipeline
