-- Results of work that can fail, on one item or on the items of a list in order. Work on a
-- list goes well where it goes well on every item, and then each result comes from an item.
import Mathlib.Data.List.Basic

namespace ColorPipeline

/-! ## One result after the other -/

section Results

variable {ε α β : Type}

/-- Work in two parts goes well only where both parts do. -/
theorem exists_of_bind_eq_ok {x : Except ε α} {f : α → Except ε β} {b : β}
    (h : x >>= f = .ok b) : ∃ a, x = .ok a ∧ f a = .ok b := by
  cases x with
  | error e => cases h
  | ok a => exact ⟨a, rfl, h⟩

theorem Except.map_eq_ok_iff {f : α → β} {x : Except ε α} {b : β} :
    x.map f = .ok b ↔ ∃ a, x = .ok a ∧ b = f a := by
  cases x <;> simp [Except.map, eq_comm]

theorem Except.ite_eq_ok_iff {p : Prop} [Decidable p] {e : ε} {a b : α} :
    (if p then .error e else .ok a : Except ε α) = .ok b ↔ ¬ p ∧ b = a := by
  by_cases h : p <;> simp [h, eq_comm]

end Results

/-! ## The items of a list -/

section Lists

variable {ε α β : Type} {xs : List α}

theorem exists_mapM_eq_ok {f : α → Except ε β} (h : ∀ a ∈ xs, ∃ b, f a = .ok b) :
    ∃ bs, xs.mapM f = .ok bs := by
  induction xs with
  | nil => exact ⟨[], rfl⟩
  | cons a xs ih =>
    rw [List.forall_mem_cons] at h
    obtain ⟨b, hb⟩ := h.1
    obtain ⟨bs, hbs⟩ := ih h.2
    refine ⟨b :: bs, ?_⟩
    rw [List.mapM_cons, hb, hbs]
    rfl

/-- Each result is that of an item. -/
theorem exists_of_mem_mapM {f : α → Except ε β} {ys : List β} (h : xs.mapM f = .ok ys) {y : β}
    (hy : y ∈ ys) : ∃ x ∈ xs, f x = .ok y := by
  induction xs generalizing ys with
  | nil =>
    cases h
    cases hy
  | cons x xs ih =>
    rw [List.mapM_cons] at h
    obtain ⟨first, hfirst, h⟩ := exists_of_bind_eq_ok h
    obtain ⟨rest, hrest, h⟩ := exists_of_bind_eq_ok h
    cases h
    rcases List.mem_cons.mp hy with rfl | hy
    · exact ⟨x, List.mem_cons_self, hfirst⟩
    · obtain ⟨x', hx', hf⟩ := ih hrest hy
      exact ⟨x', List.mem_cons_of_mem x hx', hf⟩

theorem exists_foldlM_eq_ok {f : β → α → Except ε β} (h : ∀ a ∈ xs, ∀ b, ∃ c, f b a = .ok c)
    (b : β) : ∃ c, xs.foldlM f b = .ok c := by
  induction xs generalizing b with
  | nil => exact ⟨b, rfl⟩
  | cons a xs ih =>
    rw [List.forall_mem_cons] at h
    obtain ⟨c, hc⟩ := h.1 b
    obtain ⟨d, hd⟩ := ih h.2 c
    refine ⟨d, ?_⟩
    rw [List.foldlM_cons, hc]
    exact hd

/-- Checks of all items pass where the check of each item does. -/
theorem forM_eq_ok_iff {f : α → Except ε Unit} :
    xs.forM f = .ok () ↔ ∀ a ∈ xs, f a = .ok () := by
  induction xs with
  | nil => simp [pure, Except.pure]
  | cons a xs ih =>
    change (f a >>= fun _ => xs.forM f) = .ok () ↔ _
    rw [List.forall_mem_cons, ← ih]
    cases f a with
    | error e => simp [bind, Except.bind]
    | ok u => simp [bind, Except.bind]

/-- A question that every item answers is answered for all of them. -/
theorem allM_eq_some {f : α → Option Bool} {p : α → Bool} (h : ∀ a ∈ xs, f a = some (p a)) :
    xs.allM f = some (xs.all p) := by
  induction xs with
  | nil => rfl
  | cons a xs ih =>
    rw [List.forall_mem_cons] at h
    rw [List.allM, h.1, List.all_cons, Option.bind_eq_bind, Option.bind_some]
    cases p a with
    | false => rfl
    | true => exact ih h.2

theorem mapM_eq_some_iff (f : α → Option β) (bs : List β) :
    xs.mapM f = some bs ↔ (∀ a ∈ xs, (f a).isSome) ∧ bs = xs.filterMap f := by
  induction xs generalizing bs with
  | nil => simp
  | cons a as ih =>
    rw [List.mapM_cons, List.forall_mem_cons]
    cases ha : f a with
    | none => simp
    | some b =>
      rw [List.filterMap_cons_some ha]
      simp only [Option.bind_eq_bind, Option.bind_some, Option.bind_eq_some_iff, ih,
        Option.pure_def, Option.some.injEq, Option.isSome_some, true_and]
      constructor
      · rintro ⟨rest, ⟨hall, rfl⟩, rfl⟩
        exact ⟨hall, rfl⟩
      · rintro ⟨hall, rfl⟩
        exact ⟨_, ⟨hall, rfl⟩, rfl⟩

end Lists

end ColorPipeline
