-- Directions of transforms add up. A transform builds the ops of its steps one
-- after the other, each in the direction that all marks on its path come to, and
-- the inverse build is the forward build from its end, with every op undone.
import ColorPipeline.Pipeline.Processor
import Mathlib.Data.List.Forall2

namespace ColorPipeline

/-! ## Attempts one after the other -/

namespace Attempt

variable {P α : Type}

@[simp] theorem append_nil (a : Attempt P (List α)) : a.append ⟨[], none⟩ = a := by
  obtain ⟨items, _ | e⟩ := a
  · simp [append]
  · rfl

theorem append_assoc (a b c : Attempt P (List α)) :
    (a.append b).append c = a.append (b.append c) := by
  obtain ⟨items, _ | e⟩ := a
  · obtain ⟨more, _ | e⟩ := b <;> simp [append]
  · rfl

theorem concat_append (as bs : List (Attempt P (List α))) :
    concat (as ++ bs) = (concat as).append (concat bs) := by
  induction as with
  | nil => rfl
  | cons a as ih => rw [List.cons_append, concat, concat, ih, append_assoc]

theorem concat_flatten (ass : List (List (Attempt P (List α)))) :
    concat ass.flatten = concat (ass.map concat) := by
  induction ass with
  | nil => rfl
  | cons as ass ih => rw [List.flatten_cons, concat_append, ih, List.map_cons, concat]

/-- Attempts one after the other go through where both do. -/
theorem append_eq_done_iff {a b : Attempt P (List α)} {items : List α} :
    a.append b = ⟨items, none⟩ ↔
      ∃ first rest, a = ⟨first, none⟩ ∧ b = ⟨rest, none⟩ ∧ items = first ++ rest := by
  obtain ⟨first, _ | e⟩ := a
  · obtain ⟨rest, fault⟩ := b
    simp [append, and_comm, eq_comm]
  · simp [append]

theorem exists_concat_eq_done {p : α → Prop} {as : List (Attempt P (List α))}
    (h : ∀ a ∈ as, ∃ items, a = ⟨items, none⟩ ∧ ∀ x ∈ items, p x) :
    ∃ items, concat as = ⟨items, none⟩ ∧ ∀ x ∈ items, p x := by
  induction as with
  | nil => exact ⟨[], rfl, List.forall_mem_nil p⟩
  | cons a as ih =>
    rw [List.forall_mem_cons] at h
    obtain ⟨first, rfl, hfirst⟩ := h.1
    obtain ⟨rest, hconcat, hrest⟩ := ih h.2
    refine ⟨first ++ rest, ?_, List.forall_mem_append.mpr ⟨hfirst, hrest⟩⟩
    rw [concat, hconcat, append]

theorem traverse_eq_done_iff {β : Type} {f : α → Except (OpError P) β} {items : List α}
    {images : List β} :
    traverse f items = ⟨images, none⟩ ↔ List.Forall₂ (fun a b => f a = .ok b) items images := by
  induction items generalizing images with
  | nil => simp [traverse, eq_comm]
  | cons a items ih =>
    rw [List.forall₂_cons_left_iff]
    rcases hb : f a with e | b
    · simp [traverse, hb]
    · simp only [traverse, hb, ← ih]
      obtain ⟨rest, fault⟩ := traverse f items
      simp [and_comm, eq_comm]

end Attempt

/-! ## Marks and the order of steps -/

/-- What direction marks come to: inverse where an odd number of them is inverse. -/
def Direction.total (marks : List Direction) : Direction :=
  if marks.count .inverse % 2 = 0 then .forward else .inverse

@[simp] theorem Direction.total_singleton (d : Direction) : total [d] = d := by
  cases d <;> rfl

/-- A mark inside another one counts as their composition. -/
theorem Direction.total_cons (d : Direction) (marks : List Direction) :
    total (d :: marks) = d.within (total marks) := by
  unfold total
  cases d with
  | forward => simp
  | inverse =>
    rw [List.count_cons_self]
    rcases Nat.mod_two_eq_zero_or_one (marks.count .inverse) with h | h
    · have hnext : (marks.count .inverse + 1) % 2 = 1 := by omega
      simp [h, hnext]
    · have hnext : (marks.count .inverse + 1) % 2 = 0 := by omega
      simp [h, hnext, within]

/-- A step and the direction in which it runs. -/
structure DirectedStep (P S : Type) where
  step : TransformStep P S
  direction : Direction

namespace DirectedStep

variable {P S : Type}

/-- The step in the other direction. -/
def flip (s : DirectedStep P S) : DirectedStep P S := { s with direction := s.direction.flip }

def build [Scalar P] [Scalar S] [Stored S] [Precision P S] (files : String → Option ByteArray)
    (s : DirectedStep P S) : Attempt P (List (OpData P S)) :=
  s.step.build files s.direction

end DirectedStep

namespace Transform

variable {P S : Type}

/-- A property that all steps have, and all groups of transforms that have it, is a
property of all transforms. -/
theorem induction {p : Transform P S → Prop} (step : ∀ s d, p (.step s d))
    (group : ∀ items d, (∀ t ∈ items, p t) → p (.group items d)) (t : Transform P S) : p t :=
  Transform.rec (motive_2 := fun items => ∀ t ∈ items, p t) step group (List.forall_mem_nil p)
    (fun _ _ hhead htail => List.forall_mem_cons.mpr ⟨hhead, htail⟩) t

mutual

/-- The steps of a transform in the order in which they run, each in the direction that the
marks on its path come to. `marks` has those around the transform. A group whose marks come
to inverse runs from its end. -/
def schedule : Transform P S → List Direction → List (DirectedStep P S)
  | step s d, marks => [⟨s, Direction.total (d :: marks)⟩]
  | group items d, marks =>
    match Direction.total (d :: marks) with
    | .forward => (scheduleEach items (d :: marks)).flatten
    | .inverse => (scheduleEach items (d :: marks)).reverse.flatten

/-- The steps of each transform of a list. -/
def scheduleEach : List (Transform P S) → List Direction → List (List (DirectedStep P S))
  | [], _ => []
  | t :: rest, marks => schedule t marks :: scheduleEach rest marks

end

theorem scheduleEach_eq_map (items : List (Transform P S)) (marks : List Direction) :
    scheduleEach items marks = items.map fun t => t.schedule marks := by
  induction items with
  | nil => rfl
  | cons t items ih => rw [scheduleEach, ih, List.map_cons]

/-- Marks that come to the other direction turn the order of the steps around, and each
step with it. -/
theorem schedule_flip (t : Transform P S) {marks other : List Direction}
    (h : Direction.total other = (Direction.total marks).flip) :
    t.schedule other = ((t.schedule marks).map DirectedStep.flip).reverse := by
  induction t using Transform.induction generalizing marks other with
  | step s d => simp [schedule, DirectedStep.flip, Direction.total_cons, h, Direction.within_flip]
  | group items d ih =>
    have htotal : Direction.total (d :: other) = (Direction.total (d :: marks)).flip := by
      rw [Direction.total_cons, Direction.total_cons, h, Direction.within_flip]
    have heach : scheduleEach items (d :: other) =
        (scheduleEach items (d :: marks)).map fun each => (each.map DirectedStep.flip).reverse := by
      rw [scheduleEach_eq_map, scheduleEach_eq_map, List.map_map]
      exact List.map_congr_left fun t ht => ih t ht htotal
    rw [schedule, schedule, htotal, heach]
    cases Direction.total (d :: marks) with
    | forward => simp [Direction.flip, List.map_flatten, List.reverse_flatten, Function.comp_def]
    | inverse =>
      simp [Direction.flip, List.map_flatten, List.reverse_flatten, Function.comp_def]

/-! ## Building -/

section Building

variable [Scalar P] [Scalar S] [Stored S] [Precision P S] (files : String → Option ByteArray)

theorem buildEach_eq_map (items : List (Transform P S)) (d : Direction) :
    buildEach files items d = items.map fun t => t.build files d := by
  induction items with
  | nil => rfl
  | cons t items ih => rw [buildEach, ih, List.map_cons]

/-- A transform builds what the steps of its schedule build one after the other. -/
theorem build_eq_concat (t : Transform P S) (marks : List Direction) :
    t.build files (Direction.total marks) =
      Attempt.concat ((t.schedule marks).map (DirectedStep.build files)) := by
  induction t using Transform.induction generalizing marks with
  | step s d =>
    rw [build, schedule, ← Direction.total_cons]
    simp [Attempt.concat, DirectedStep.build]
  | group items d ih =>
    have heach : buildEach files items (Direction.total (d :: marks)) =
        (scheduleEach items (d :: marks)).map fun each =>
          Attempt.concat (each.map (DirectedStep.build files)) := by
      rw [buildEach_eq_map, scheduleEach_eq_map, List.map_map]
      exact List.map_congr_left fun t ht => ih t ht (d :: marks)
    have hconcat : ∀ ass : List (List (DirectedStep P S)),
        Attempt.concat (ass.map fun each => Attempt.concat (each.map (DirectedStep.build files))) =
          Attempt.concat (ass.flatten.map (DirectedStep.build files)) := by
      intro ass
      rw [List.map_flatten, Attempt.concat_flatten, List.map_map]
      rfl
    rw [build, schedule, ← Direction.total_cons]
    cases htotal : Direction.total (d :: marks) with
    | forward =>
      rw [htotal] at heach
      simp only [heach, hconcat]
    | inverse =>
      rw [htotal] at heach
      simp only [heach, ← List.map_reverse, hconcat]

/-- A tree is built as its schedule says, step by step. -/
theorem build_eq_concat_schedule (t : Transform P S) (outer : Direction) :
    t.build files outer =
      Attempt.concat ((t.schedule [outer]).map (DirectedStep.build files)) := by
  rw [← build_eq_concat, Direction.total_singleton]

/-- The inverse of a transform builds what the transform does in the other direction. -/
theorem inverse_build (t : Transform P S) (d : Direction) :
    t.inverse.build files d = t.build files d.flip := by
  cases t with
  | step s e => simp only [inverse, build, Direction.flip_within, Direction.within_flip]
  | group items e => simp only [inverse, build, Direction.flip_within, Direction.within_flip]

/-- A list of transforms is built as one group is. -/
theorem buildList_eq_build_group (transforms : List (Transform P S)) (d : Direction) :
    buildList files transforms d = (group transforms .forward).build files d := by
  rw [build, buildEach_eq_map, buildEach_eq_map, Direction.forward_within]
  unfold buildList
  cases d with
  | forward => rfl
  | inverse =>
    simp only [List.map_reverse]

end Building

end Transform

/-! ## The inverse build -/

section InverseBuild

variable {P S : Type} [Scalar P]

/-- The parameters of one of the two ops are those that undo the other. -/
def OpData.Undoes (a b : OpData P S) : Prop := a.inverse = .ok b ∨ b.inverse = .ok a

variable [Scalar S] [Stored S] [Precision P S] {files : String → Option ByteArray}

/-- A step built backwards has the inverses of its ops in reverse order. -/
theorem TransformStep.undoes_of_build {s : TransformStep P S} {ops undone : List (OpData P S)}
    (hops : s.build files .forward = ⟨ops, none⟩)
    (hundone : s.build files .inverse = ⟨undone, none⟩) :
    List.Forall₂ OpData.Undoes ops undone.reverse := by
  unfold build at hops hundone
  rcases hs : s.ops files with e | found
  · rw [hs] at hops
    cases hops
  · rw [hs] at hops hundone
    cases hops
    have htraverse := Attempt.traverse_eq_done_iff.mp hundone
    rw [← List.forall₂_reverse_iff, List.reverse_reverse] at htraverse
    exact htraverse.imp fun _ _ h => .inl h

theorem DirectedStep.undoes_of_build {s : DirectedStep P S} {ops undone : List (OpData P S)}
    (hops : s.build files = ⟨ops, none⟩) (hundone : s.flip.build files = ⟨undone, none⟩) :
    List.Forall₂ OpData.Undoes ops undone.reverse := by
  obtain ⟨step, direction⟩ := s
  cases direction with
  | forward => exact step.undoes_of_build hops hundone
  | inverse =>
    have hpairs := (step.undoes_of_build hundone hops).flip
    rw [← List.forall₂_reverse_iff, List.reverse_reverse] at hpairs
    exact hpairs.imp fun _ _ h => h.symm

theorem undoes_of_concat {steps : List (DirectedStep P S)} {ops undone : List (OpData P S)}
    (hops : Attempt.concat (steps.map (DirectedStep.build files)) = ⟨ops, none⟩)
    (hundone : Attempt.concat ((steps.map DirectedStep.flip).reverse.map
      (DirectedStep.build files)) = ⟨undone, none⟩) :
    List.Forall₂ OpData.Undoes ops undone.reverse := by
  -- the first step of one build is the last of the other
  induction steps generalizing ops undone with
  | nil =>
    cases hops
    cases hundone
    exact .nil
  | cons s steps ih =>
    rw [List.map_cons, Attempt.concat, Attempt.append_eq_done_iff] at hops
    obtain ⟨first, rest, hfirst, hrest, rfl⟩ := hops
    rw [List.map_cons, List.reverse_cons, List.map_append, Attempt.concat_append,
      Attempt.append_eq_done_iff] at hundone
    obtain ⟨before, last, hbefore, hlast, rfl⟩ := hundone
    rw [List.map_singleton, Attempt.concat, Attempt.concat, Attempt.append_nil] at hlast
    rw [List.reverse_append]
    exact List.rel_append (s.undoes_of_build hfirst hlast) (ih hrest hbefore)

/-- Of the forward build and the inverse build from its end, two ops in the same place undo
each other. -/
theorem Transform.undoes_of_build {t : Transform P S} {ops undone : List (OpData P S)}
    (hops : t.build files .forward = ⟨ops, none⟩)
    (hundone : t.build files .inverse = ⟨undone, none⟩) :
    List.Forall₂ OpData.Undoes ops undone.reverse := by
  have hflip : t.schedule [.inverse] = ((t.schedule [.forward]).map DirectedStep.flip).reverse :=
    t.schedule_flip rfl
  rw [build_eq_concat_schedule] at hops hundone
  rw [hflip] at hundone
  exact undoes_of_concat hops hundone

end InverseBuild

/-! ## All there is to directions -/

namespace Transform

/-- A transform builds the ops of its steps in the order of its schedule, each in the
direction that the marks on its path come to, up to the first error. A list of transforms
builds what a forward group of them does, also as a processor. Where no error stops either
build, the inverse build is the forward build from its end, and of two ops in the same place
one undoes the other. -/
theorem directions_add_up {P S : Type} [Scalar P] [Scalar S] [Stored P] [Stored S]
    [Precision P S] (files : String → Option ByteArray) :
    (∀ (t : Transform P S) (outer : Direction), t.build files outer =
      Attempt.concat ((t.schedule [outer]).map (DirectedStep.build files))) ∧
    (∀ (transforms : List (Transform P S)) (d : Direction),
      buildList files transforms d = (group transforms .forward).build files d ∧
        ∀ flags, Processor.ofTransforms files transforms d flags =
          Processor.ofTransforms files [group transforms .forward] d flags) ∧
    ∀ (t : Transform P S) (ops undone : List (OpData P S)),
      t.build files .forward = ⟨ops, none⟩ → t.build files .inverse = ⟨undone, none⟩ →
        List.Forall₂ OpData.Undoes ops undone.reverse := by
  refine ⟨build_eq_concat_schedule files, ?_, fun _ _ _ => undoes_of_build⟩
  intro transforms d
  have hgroup := buildList_eq_build_group files transforms d
  have hsingle : buildList files [group transforms .forward] d =
      (group transforms .forward).build files d := by
    cases d <;> simp [buildList, Attempt.concat]
  refine ⟨hgroup, ?_⟩
  intro flags
  unfold Processor.ofTransforms
  rw [hgroup, hsingle]

/-- A logarithm, then an inverse group of an inverse conversion to HSV and a range. -/
def groupInGroup : Transform Float Float32 :=
  .group [.step (.log 2) .forward,
    .group [.step (.fixedFunction ⟨⟨.hsv, .forward⟩, []⟩) .inverse,
      .step (.range ⟨some 0, some 1, some 0, some 2⟩ true) .forward] .inverse] .forward

/-- The conversion is inverse inside an inverse group, so it runs forward, and after the
range. -/
theorem a_group_in_a_group_is_undone :
    groupInGroup.build (fun _ => none) .forward = ⟨[.log ⟨2, .forward⟩,
      .range ⟨some 0, some 2, some 0, some 1⟩, .fixedFunction ⟨⟨.hsv, .forward⟩, []⟩], none⟩ ∧
    List.Forall₂ OpData.Undoes (groupInGroup.build (fun _ => none) .forward).reached
      (groupInGroup.build (fun _ => none) .inverse).reached.reverse :=
  ⟨rfl, (directions_add_up fun _ => none).2.2 groupInGroup _ _ rfl rfl⟩

end Transform

end ColorPipeline
