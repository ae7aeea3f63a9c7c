-- Listings of 3D tables in text. A run through the lines is the same as looking at all of them:
-- which ones have sizes, which ones have colours, and whether these can be read.
import ColorPipeline.Lut.ItxFile
import ColorPipeline.Proofs.GridListings
import ColorPipeline.Proofs.TextLines

open scoped ColorPipeline.Scalar

namespace ColorPipeline

namespace ItxFile

variable {S : Type} [Stored S]

/-! ## Lines of a listing -/

/-- A line that begins with the tag of the size. -/
def IsSize (line : String) : Prop := ¬ isComment line ∧ (lineWords line).head? = some sizeTag

instance (line : String) : Decidable (IsSize line) := inferInstanceAs (Decidable (_ ∧ _))

/-- A line that says nothing: a comment, or a blank line. -/
def IsSilent (line : String) : Prop := isComment line ∨ lineWords line = []

instance (line : String) : Decidable (IsSilent line) := inferInstanceAs (Decidable (_ ∨ _))

/-- The size in a line that begins with the tag: one number after it, and nothing else. -/
def sizeIn? (line : String) : Option Nat :=
  match lineWords line with
  | [_, value] => Reading.natural 10 sizeLimit value
  | _ => none

/-- The colour in a line of three numbers. -/
def colorIn? (line : String) : Option (Rgb S) :=
  match lineWords line with
  | [red, green, blue] =>
    match Stored.read? red, Stored.read? green, Stored.read? blue with
    | some r, some g, some b => some ⟨r, g, b⟩
    | _, _, _ => none
  | _ => none

/-- The lines with sizes. -/
def sizeLines (lines : List String) : List String := lines.filter fun line => IsSize line

/-- The lines with colours: those after the first size that say something else. -/
def colorLines (lines : List String) : List String :=
  (lines.dropWhile fun line => ¬ IsSize line).tail.filter fun line =>
    ¬ IsSize line ∧ ¬ IsSilent line

/-- A line is one with a colour after those before it. -/
def IsColor (before : List String) (line : String) : Prop :=
  sizeLines before ≠ [] ∧ ¬ IsSize line ∧ ¬ IsSilent line

instance (before : List String) (line : String) : Decidable (IsColor before line) :=
  inferInstanceAs (Decidable (_ ∧ _))

/-- The size that counts is the last one. -/
def lastSize? (lines : List String) : Option Nat := (sizeLines lines).getLast?.bind sizeIn?

/-- The colours that are listed. -/
def colors (lines : List String) : List (Rgb S) := (colorLines lines).filterMap colorIn?

/-- Every line can be read. -/
structure Legible (S : Type) [Stored S] (lines : List String) : Prop where
  sizes : ∀ line ∈ sizeLines lines, (sizeIn? line).isSome
  colors : ∀ line ∈ colorLines lines, (colorIn? (S := S) line).isSome

/-- There is room for the colours that a size announces, on top of those before it. -/
def RoomForSizes (S : Type) [Stored S] (lines : List String) : Prop :=
  ∀ before line after n, lines = before ++ line :: after → IsSize line →
    sizeIn? line = some n → (colors (S := S) before).length + sizeCube n ≤ room

/-! ## One line -/

/-- Three words with three numbers, and no other words, are read as three numbers. -/
theorem colorIn?_eq_some_iff {line : String} {c : Rgb S} : colorIn? line = some c ↔
    (lineWords line).mapM Stored.read? = some [c.red, c.green, c.blue] := by
  unfold colorIn?
  match lineWords line with
  | [] => simp
  | [_] => simp [Option.bind_eq_some_iff]
  | [_, _] => simp [Option.bind_eq_some_iff]
  | [red, green, blue] =>
    rcases c with ⟨r, g, b⟩
    simp only [List.mapM_cons, List.mapM_nil]
    cases Stored.read? (R := S) red <;> cases Stored.read? (R := S) green <;>
      cases Stored.read? (R := S) blue <;> simp
  | _ :: _ :: _ :: _ :: _ => simp [Option.bind_eq_some_iff]

section OneLine

variable (file : String) (l : Listing S) (number : Nat) {line : String} {next : Listing S}

theorem read_of_isSilent (h : IsSilent line) : l.read file ⟨number, line⟩ = .ok l := by
  unfold Listing.read
  rcases h with hcomment | hblank
  · rw [if_pos hcomment]
  · simp only [hblank]
    split <;> rfl

/-- A line with a size replaces the size and asks for room, whether or not a later one replaces
it. -/
theorem read_of_isSize (h : IsSize line) : l.read file ⟨number, line⟩ = .ok next ↔
    ∃ n, sizeIn? line = some n ∧ l.colors.length + sizeCube n ≤ room ∧
      next = { l with size := some n } := by
  obtain ⟨hcomment, hfirst⟩ := h
  unfold Listing.read sizeIn?
  rw [if_neg hcomment]
  cases hwords : lineWords line with
  | nil =>
    rw [hwords] at hfirst
    cases hfirst
  | cons first rest =>
    rw [hwords] at hfirst
    obtain rfl := Option.some.inj hfirst
    simp only [if_true]
    match rest with
    | [] => simp
    | [value] =>
      simp only [List.map_cons, List.map_nil]
      rcases Reading.natural 10 sizeLimit value with _ | n
      · simp
      · by_cases hroom : l.colors.length + sizeCube n ≤ room <;> simp [hroom, eq_comm]
    | _ :: _ :: _ => simp

/-- A line that says something else than a size has a first word, and that is not the tag. -/
theorem exists_words (hsize : ¬ IsSize line) (hsilent : ¬ IsSilent line) :
    ¬ isComment line ∧ ∃ first rest, lineWords line = first :: rest ∧ first ≠ sizeTag := by
  obtain ⟨hcomment, hwords⟩ := not_or.mp hsilent
  obtain ⟨first, rest, hline⟩ := List.exists_cons_of_ne_nil hwords
  refine ⟨hcomment, first, rest, hline, ?_⟩
  rintro rfl
  exact hsize ⟨hcomment, by rw [hline]; rfl⟩

/-- Other lines before the first size are passed over, whatever they hold. -/
theorem read_of_early (hsize : ¬ IsSize line) (hsilent : ¬ IsSilent line) (hearly : l.size = none) :
    l.read file ⟨number, line⟩ = .ok l := by
  obtain ⟨hcomment, first, rest, hline, hfirst⟩ := exists_words hsize hsilent
  unfold Listing.read
  rw [if_neg hcomment]
  simp only [hline, if_neg hfirst, hearly]
  rfl

/-- Behind a size every other line has to be a colour. -/
theorem read_of_late (hsize : ¬ IsSize line) (hsilent : ¬ IsSilent line) (hlate : l.size.isSome) :
    l.read file ⟨number, line⟩ = .ok next ↔
      ∃ c, colorIn? line = some c ∧ next = { l with colors := c :: l.colors } := by
  obtain ⟨hcomment, first, rest, hline, hfirst⟩ := exists_words hsize hsilent
  have hnone : ¬ l.size.isNone := by
    rw [Option.isSome_iff_ne_none] at hlate
    rwa [Option.isNone_iff_eq_none]
  simp only [colorIn?_eq_some_iff]
  unfold Listing.read
  rw [if_neg hcomment]
  simp only [hline, if_neg hfirst, if_neg hnone]
  constructor
  · intro h
    split at h
    · rename_i r g b hread
      exact ⟨⟨r, g, b⟩, hread, (Except.ok.inj h).symm⟩
    · cases h
  · rintro ⟨c, hread, rfl⟩
    rw [hread]

end OneLine

/-! ## One line more -/

section Snoc

variable (lines : List String) (line : String)

theorem sizeLines_snoc : sizeLines (lines ++ [line]) =
    if IsSize line then sizeLines lines ++ [line] else sizeLines lines := by
  unfold sizeLines
  rw [List.filter_append]
  by_cases h : IsSize line <;> simp [h]

theorem colorLines_snoc : colorLines (lines ++ [line]) =
    if IsColor lines line then colorLines lines ++ [line]
    else colorLines lines := by
  have hnone : sizeLines lines = [] ↔ lines.dropWhile (fun line => ¬ IsSize line) = [] := by
    unfold sizeLines
    rw [List.filter_eq_nil_iff, List.dropWhile_eq_nil_iff]
    simp
  unfold colorLines
  rw [List.dropWhile_append]
  cases hdrop : lines.dropWhile fun line => ¬ IsSize line with
  | nil =>
    rw [if_pos List.isEmpty_nil, if_neg fun h : IsColor lines line => h.1 (hnone.mpr hdrop)]
    by_cases h : IsSize line <;> simp [h]
  | cons first later =>
    have hfound : sizeLines lines ≠ [] := by
      rw [Ne, hnone, hdrop]
      exact List.cons_ne_nil first later
    simp only [List.isEmpty_cons, Bool.false_eq_true, if_false, List.cons_append, List.tail_cons,
      List.filter_append]
    by_cases h : ¬ IsSize line ∧ ¬ IsSilent line
    · rw [if_pos ⟨hfound, h⟩]
      simp [h]
    · rw [if_neg fun hboth : IsColor lines line => h hboth.2]
      simp [h]

theorem colors_snoc {c : Rgb S} (h : IsColor lines line) (hcolor : colorIn? line = some c) :
    colors (lines ++ [line]) = colors lines ++ [c] := by
  unfold colors
  rw [colorLines_snoc, if_pos h, List.filterMap_append,
    List.filterMap_cons_some hcolor]
  rfl

theorem lastSize?_snoc (h : IsSize line) : lastSize? (lines ++ [line]) = sizeIn? line := by
  unfold lastSize?
  rw [sizeLines_snoc, if_pos h, List.getLast?_concat]
  rfl

end Snoc

/-! ## All lines -/

theorem legible_snoc {lines : List String} {line : String} : Legible S (lines ++ [line]) ↔
    Legible S lines ∧ (IsSize line → (sizeIn? line).isSome) ∧
      (IsColor lines line → (colorIn? (S := S) line).isSome) := by
  have hsizes : (∀ l ∈ sizeLines (lines ++ [line]), (sizeIn? l).isSome) ↔
      (∀ l ∈ sizeLines lines, (sizeIn? l).isSome) ∧ (IsSize line → (sizeIn? line).isSome) := by
    rw [sizeLines_snoc]
    split <;> simp_all [or_imp, forall_and]
  have hcolors : (∀ l ∈ colorLines (lines ++ [line]), (colorIn? (S := S) l).isSome) ↔
      (∀ l ∈ colorLines lines, (colorIn? (S := S) l).isSome) ∧
        (IsColor lines line → (colorIn? (S := S) line).isSome) := by
    rw [colorLines_snoc]
    split
    · rename_i hcolor
      simp [or_imp, forall_and, hcolor]
    · rename_i hother
      simp only [hother, false_imp_iff, and_true]
  constructor
  · intro h
    obtain ⟨hbefore, hsize⟩ := hsizes.mp h.sizes
    obtain ⟨hbefore', hcolor⟩ := hcolors.mp h.colors
    exact ⟨⟨hbefore, hbefore'⟩, hsize, hcolor⟩
  · rintro ⟨hbefore, hsize, hcolor⟩
    exact ⟨hsizes.mpr ⟨hbefore.sizes, hsize⟩, hcolors.mpr ⟨hbefore.colors, hcolor⟩⟩

/-- What has been read after lines that can be read. -/
def listing (S : Type) [Stored S] (lines : List String) : Listing S :=
  ⟨lastSize? lines, (colors lines).reverse⟩

@[simp] theorem size_listing (lines : List String) : (listing S lines).size = lastSize? lines := rfl

@[simp] theorem reverse_colors_listing (lines : List String) :
    (listing S lines).colors.reverse = colors lines := List.reverse_reverse _

@[simp] theorem length_colors_listing (lines : List String) :
    (listing S lines).colors.length = (colors (S := S) lines).length := List.length_reverse

/-- A line that counts neither as a size nor as a colour changes nothing. -/
theorem listing_snoc_of_idle {lines : List String} {line : String} (hsize : ¬ IsSize line)
    (hcolor : ¬ IsColor lines line) :
    listing S (lines ++ [line]) = listing S lines := by
  unfold listing lastSize? colors
  rw [sizeLines_snoc, if_neg hsize, colorLines_snoc, if_neg hcolor]

theorem listing_snoc_of_size {lines : List String} {line : String} (hsize : IsSize line) :
    listing S (lines ++ [line]) = { listing S lines with size := sizeIn? line } := by
  have hcolor : ¬ IsColor lines line := fun h => h.2.1 hsize
  unfold listing colors
  rw [lastSize?_snoc lines line hsize, colorLines_snoc, if_neg hcolor]

theorem listing_snoc_of_color {lines : List String} {line : String} {c : Rgb S}
    (hcolor : IsColor lines line) (hc : colorIn? line = some c) :
    listing S (lines ++ [line]) =
      { listing S lines with colors := c :: (listing S lines).colors } := by
  unfold listing lastSize?
  rw [sizeLines_snoc, if_neg hcolor.2.1, colors_snoc lines line hcolor hc, List.reverse_append]
  rfl

theorem legible_snoc_of_idle {lines : List String} {line : String} (hsize : ¬ IsSize line)
    (hcolor : ¬ IsColor lines line) :
    Legible S (lines ++ [line]) ↔ Legible S lines := by
  rw [legible_snoc]
  simp only [hsize, hcolor, false_imp_iff, and_true]

theorem isSome_lastSize? {lines : List String} (hlegible : Legible S lines)
    (hfound : sizeLines lines ≠ []) : (lastSize? lines).isSome := by
  unfold lastSize?
  rw [List.getLast?_eq_getLast_of_ne_nil hfound]
  exact hlegible.sizes _ (List.getLast_mem hfound)

/-- A line more is read where it can be read itself and, if it has a size, has room. -/
theorem read_listing_iff (file : String) (number : Nat) {lines : List String} (line : String)
    (hlegible : Legible S lines) {next : Listing S} :
    (listing S lines).read file ⟨number, line⟩ = .ok next ↔
      Legible S (lines ++ [line]) ∧
        (∀ n, IsSize line → sizeIn? line = some n →
          (colors (S := S) lines).length + sizeCube n ≤ room) ∧
        next = listing S (lines ++ [line]) := by
  -- a line is a size, a colour, or none of both
  by_cases hsize : IsSize line
  · have hcolor : ¬ IsColor lines line := fun h => h.2.1 hsize
    rw [read_of_isSize file _ number hsize, legible_snoc, listing_snoc_of_size hsize,
      length_colors_listing]
    simp only [hlegible, hsize, hcolor, false_imp_iff, true_imp_iff, and_true, true_and]
    constructor
    · rintro ⟨n, hn, hroom, rfl⟩
      refine ⟨by rw [hn]; rfl, ?_, by rw [hn]⟩
      intro m hm
      rw [hn] at hm
      exact Option.some.inj hm ▸ hroom
    · rintro ⟨hsome, hroom, rfl⟩
      obtain ⟨n, hn⟩ := Option.isSome_iff_exists.mp hsome
      exact ⟨n, hn, hroom n hn, by rw [hn]⟩
  · by_cases hcolor : IsColor lines line
    · have hlate : (listing S lines).size.isSome := isSome_lastSize? hlegible hcolor.1
      rw [read_of_late file _ number hsize hcolor.2.2 hlate, legible_snoc]
      simp only [hlegible, hsize, hcolor, false_imp_iff, true_imp_iff, true_and, implies_true]
      constructor
      · rintro ⟨c, hc, rfl⟩
        exact ⟨by rw [hc]; rfl, (listing_snoc_of_color hcolor hc).symm⟩
      · rintro ⟨hsome, rfl⟩
        obtain ⟨c, hc⟩ := Option.isSome_iff_exists.mp hsome
        exact ⟨c, hc, listing_snoc_of_color hcolor hc⟩
    · have hread : (listing S lines).read file ⟨number, line⟩ = .ok (listing S lines) := by
        by_cases hsilent : IsSilent line
        · exact read_of_isSilent file _ number hsilent
        · have hearly : sizeLines lines = [] := by
            by_contra hfound
            exact hcolor ⟨hfound, hsize, hsilent⟩
          refine read_of_early file _ number hsize hsilent ?_
          unfold listing lastSize?
          rw [hearly]
          rfl
      rw [hread, legible_snoc_of_idle hsize hcolor, listing_snoc_of_idle hsize hcolor]
      simp [hlegible, hsize, eq_comm]

theorem readLines_singleton (file : String) (l : Listing S) (number : Nat) (line : String) :
    readLines file l number [some line] = l.read file ⟨number, line⟩ := by
  rw [readLines]
  split <;> simp_all [readLines]

theorem readLines_append (file : String) (l : Listing S) (number : Nat)
    (before after : List (Option String)) : readLines file l number (before ++ after) =
      match readLines file l number before with
      | .ok next => readLines file next (number + before.length) after
      | .error e => .error e := by
  induction before generalizing l number with
  | nil => rfl
  | cons line before ih =>
    cases line with
    | none => rfl
    | some text =>
      rw [List.cons_append, readLines, readLines]
      cases l.read file ⟨number, text⟩ with
      | error e => rfl
      | ok next =>
        rw [List.length_cons, Nat.add_comm before.length 1, ← Nat.add_assoc]
        exact ih next (number + 1)

theorem roomForSizes_nil : RoomForSizes S [] := fun before _ _ _ h => absurd h.symm (by simp)

theorem roomForSizes_snoc {lines : List String} {line : String} :
    RoomForSizes S (lines ++ [line]) ↔ RoomForSizes S lines ∧
      ∀ n, IsSize line → sizeIn? line = some n →
        (colors (S := S) lines).length + sizeCube n ≤ room := by
  constructor
  · intro h
    refine ⟨?_, fun n => h lines line [] n rfl⟩
    rintro before found after n rfl
    exact h before found (after ++ [line]) n (by simp)
  · rintro ⟨hbefore, hlast⟩ before found after n hlines
    rcases List.eq_nil_or_concat after with rfl | ⟨after, last, rfl⟩
    · obtain ⟨rfl, hline⟩ := List.append_inj' hlines rfl
      obtain rfl := List.singleton_inj.mp hline
      exact hlast n
    · have hsplit : lines = before ++ found :: after ∧ [line] = [last] :=
        List.append_inj' (by simpa using hlines) rfl
      exact hbefore before found after n hsplit.1

/-- The listing holds the last size and all colours in their order. -/
theorem readLines_eq_ok_iff (file : String) (lines : List String) {next : Listing S} :
    readLines file Listing.empty 1 (lines.map some) = .ok next ↔
      Legible S lines ∧ RoomForSizes S lines ∧ next = listing S lines := by
  -- from the end, since what a line means depends on the lines before it
  induction lines using List.reverseRecOn generalizing next with
  | nil =>
    have hlegible : Legible S [] := ⟨nofun, nofun⟩
    simp only [hlegible, roomForSizes_nil, true_and]
    exact ⟨fun h => (Except.ok.inj h).symm, fun h => congrArg Except.ok h.symm⟩
  | append_singleton lines line ih =>
    rw [List.map_append, List.map_singleton, readLines_append, roomForSizes_snoc]
    constructor
    · intro h
      split at h
      · rename_i l hbefore
        obtain ⟨hlegible, hroom, rfl⟩ := ih.mp hbefore
        rw [readLines_singleton] at h
        obtain ⟨hlegible', hroom', hnext⟩ := (read_listing_iff file _ line hlegible).mp h
        exact ⟨hlegible', ⟨hroom, hroom'⟩, hnext⟩
      · cases h
    · rintro ⟨hlegible, ⟨hroom, hroom'⟩, hnext⟩
      have hbefore := (legible_snoc.mp hlegible).1
      rw [ih.mpr ⟨hbefore, hroom, rfl⟩]
      simp only [readLines_singleton]
      exact (read_listing_iff file _ line hbefore).mpr ⟨hlegible, hroom', hnext⟩

/-- Every line of a legible text that should be a colour is one. -/
theorem length_colors {lines : List String} (h : Legible S lines) :
    (colors (S := S) lines).length = (colorLines lines).length := by
  have hall := h.colors
  unfold colors
  generalize colorLines lines = found at hall
  induction found with
  | nil => rfl
  | cons line rest ih =>
    rw [List.forall_mem_cons] at hall
    obtain ⟨c, hc⟩ := Option.isSome_iff_exists.mp hall.1
    rw [List.filterMap_cons_some hc, List.length_cons, List.length_cons, ih hall.2]

theorem exists_of_lastSize? {lines : List String} {n : Nat} (h : lastSize? lines = some n) :
    ∃ line ∈ lines, IsSize line ∧ sizeIn? line = some n := by
  obtain ⟨line, hline, hsize⟩ := Option.bind_eq_some_iff.mp h
  obtain ⟨hmem, hisSize⟩ := List.mem_filter.mp (List.mem_of_getLast? hline)
  exact ⟨line, hmem, of_decide_eq_true hisSize, hsize⟩

/-- The last size has room. -/
theorem RoomForSizes.last {lines : List String} (h : RoomForSizes S lines) {n : Nat}
    (hn : lastSize? lines = some n) : sizeCube n ≤ room := by
  obtain ⟨line, hline, hisSize, hsize⟩ := exists_of_lastSize? hn
  obtain ⟨before, after, rfl⟩ := List.append_of_mem hline
  have := h before line after n rfl hisSize hsize
  omega

/-- There is room for the colours, and for those that each size announces. -/
structure HasRoom (S : Type) [Stored S] (lines : List String) : Prop where
  colors : (colors (S := S) lines).length ≤ room
  sizes : RoomForSizes S lines

end ItxFile

/-! ## Whole files -/

namespace ItxFile

variable {S : Type} [Scalar S] [Stored S] {lines : List String}

/-- A text is a table where it can be read, has room and lists one colour for each point. The
number of points is still that of the machine here. -/
theorem parse_eq_ok_iff (file : String) {lut : Lut3D S} :
    parse file (lines.map some) = .ok lut ↔ Legible S lines ∧ RoomForSizes S lines ∧
      ∃ n, lastSize? lines = some n ∧ (colors (S := S) lines).length = sizeCube n ∧
        Lut3D.ofRedFastest (colors lines).toArray n = .ok lut := by
  unfold parse
  rcases hread : readLines file (Listing.empty : Listing S) 1 (lines.map some) with e | l
  · constructor
    · intro h
      cases h
    · rintro ⟨hlegible, hroom, _⟩
      rw [(readLines_eq_ok_iff file lines).mpr ⟨hlegible, hroom, rfl⟩] at hread
      cases hread
  · obtain ⟨hlegible, hroom, rfl⟩ := (readLines_eq_ok_iff file lines).mp hread
    simp only [hlegible, hroom, true_and, bind, Except.bind, size_listing, reverse_colors_listing,
      length_colors_listing]
    cases hlast : lastSize? lines with
    | none => simp [faultIn]
    | some n =>
      simp only [Option.some.injEq, exists_eq_left']
      by_cases hcount : (colors (S := S) lines).length = sizeCube n
      · rw [if_neg (not_not.mpr hcount)]
        simp only [hcount, true_and]
        constructor
        · intro h
          split at h
          · rename_i table htable
            rwa [Except.ok.inj h] at htable
          · cases h
          · cases h
        · intro h
          rw [h]
          rfl
      · rw [if_pos hcount]
        simp [hcount, faultIn]

/-- A text is the listing of a table where its lines have a size, where all its lines can be
read, and where the colours are as many as the last size announces, if there is room for them.
The listing goes through red first, and each colour has one place in the table. -/
theorem a_text_is_read_where_it_lists_the_points_of_a_grid (file text : String) :
    let lines := Text.linesOf text
    ((∃ lut : Lut3D S, parse file (Text.lines text.toUTF8) = .ok lut) ↔
      ((∃ line ∈ lines, IsSize line) ∧ Legible S lines ∧
        ∃ n, lastSize? lines = some n ∧ 2 ≤ n ∧ (colors (S := S) lines).length = n ^ 3) ∧
      HasRoom S lines) ∧
    ∀ lut : Lut3D S, parse file (Text.lines text.toUTF8) = .ok lut →
      ∃ n, lastSize? lines = some n ∧ lut.size = n ∧ lut.entries.toList.Perm (colors lines) ∧
        ∀ r g b, r < n → g < n → b < n →
          (colors lines)[(b * n + g) * n + r]? = some (lut.get r g b) := by
  intro lines
  have hcube : ∀ n : Nat, n * n * n = n ^ 3 := fun n => by ring
  rw [Text.lines_toUTF8]
  refine ⟨⟨?_, ?_⟩, ?_⟩
  · rintro ⟨lut, h⟩
    obtain ⟨hlegible, hroom, n, hlast, hcount, htable⟩ := (parse_eq_ok_iff file).mp h
    obtain ⟨htwo, _, hlong, _⟩ := (Lut3D.ofRedFastest_eq_ok_iff _ n).mp htable
    obtain ⟨line, hline, hsize, _⟩ := exists_of_lastSize? hlast
    rw [List.size_toArray] at hlong
    have hexact : (colors (S := S) lines).length = n * n * n :=
      le_antisymm (hcount ▸ sizeCube_le n) hlong
    exact ⟨⟨⟨line, hline, hsize⟩, hlegible, n, hlast, htwo, hexact.trans (hcube n)⟩,
      ⟨hcount.trans_le (hroom.last hlast), hroom⟩⟩
  · rintro ⟨⟨_, hlegible, n, hlast, htwo, hcount⟩, hroom⟩
    have hsmall : n * n * n < sizeLimit := by
      rw [hcube, ← hcount]
      exact hroom.colors.trans_lt (by decide)
    have hexact : (colors (S := S) lines).length = sizeCube n := by
      rw [sizeCube_of_lt hsmall, hcube, hcount]
    have hlong : n * n * n ≤ (colors (S := S) lines).toArray.size :=
      ((hcube n).trans hcount.symm).le
    exact ⟨_, (parse_eq_ok_iff file).mpr ⟨hlegible, hroom.sizes, n, hlast, hexact,
      (Lut3D.ofRedFastest_eq_ok_iff _ n).mpr ⟨htwo, hexact, hlong, rfl⟩⟩⟩
  · intro lut h
    obtain ⟨_, _, n, hlast, _, htable⟩ := (parse_eq_ok_iff file).mp h
    obtain ⟨hsize, _, hperm, hget⟩ := Lut3D.of_ofRedFastest htable
    refine ⟨n, hlast, hsize, hperm, ?_⟩
    intro r g b hr hg hb
    rw [← hget r g b hr hg hb, List.getElem?_toArray]

/-- Eight colours after two sizes, of which the first is far too large. -/
def resized : String :=
  "LUT_3D_SIZE 2000000\nLUT_3D_SIZE 2\n" ++
    "0 0 0\n1 0 0\n0 1 0\n1 1 0\n0 0 1\n1 0 1\n0 1 1\n1 1 1\n"

theorem linesOf_resized : Text.linesOf resized = ["LUT_3D_SIZE 2000000", "LUT_3D_SIZE 2", "0 0 0",
    "1 0 0", "0 1 0", "1 1 0", "0 0 1", "1 0 1", "0 1 1", "1 1 1"] := by
  rfl

/-- The last size and the colours are those of a table, but there is no room for the colours
that the first size announces. -/
theorem a_size_that_is_replaced_needs_room_too :
    let lines := Text.linesOf resized
    ((∃ line ∈ lines, IsSize line) ∧ Legible Float32 lines ∧
      ∃ n, lastSize? lines = some n ∧ 2 ≤ n ∧
        (colors (S := Float32) lines).length = n ^ 3) ∧
      ¬ ∃ lut : Lut3D Float32, parse "a.itx" (Text.lines resized.toUTF8) = .ok lut := by
  rw [Text.lines_toUTF8, linesOf_resized]
  have hlegible : Legible Float32 ["LUT_3D_SIZE 2000000", "LUT_3D_SIZE 2", "0 0 0", "1 0 0",
      "0 1 0", "1 1 0", "0 0 1", "1 0 1", "0 1 1", "1 1 1"] := ⟨by decide, by decide⟩
  refine ⟨⟨⟨_, List.mem_cons_self, by decide⟩, hlegible, 2, by decide, le_rfl, ?_⟩, ?_⟩
  · rw [length_colors hlegible]
    decide
  · rintro ⟨lut, h⟩
    obtain ⟨_, hroom, _⟩ := (parse_eq_ok_iff "a.itx").mp h
    have hannounced := hroom [] "LUT_3D_SIZE 2000000" _ 2000000 rfl (by decide) (by decide)
    exact absurd hannounced (by decide)

end ItxFile

end ColorPipeline
