-- Brackets in texts. Whether they are balanced is told by reading on and counting what is open.
-- Parentheses are balanced within a line, braces stand in lines of their own, and a closing
-- brace is indented as the opening brace that it belongs to.
import Mathlib

namespace ColorPipeline

/-! ## Balanced brackets -/

/-- Brackets of one kind are balanced: none is closed before it is opened, and all are closed. -/
structure Balanced (opening closing : Char) (cs : List Char) : Prop where
  opened : ∀ start, start <+: cs → start.count closing ≤ start.count opening
  closed : cs.count closing = cs.count opening

/-- The number of open brackets after one more character, or nothing where a bracket is closed
that is not open. -/
def nest (opening closing : Char) : Option Nat → Char → Option Nat
  | none, _ => none
  | some d, c =>
    if c = opening then some (d + 1)
    else if c = closing then (if d = 0 then none else some (d - 1))
    else some d

section Nest

variable {opening closing : Char} {cs : List Char}

theorem foldl_nest_none : cs.foldl (nest opening closing) none = none := by
  induction cs with
  | nil => rfl
  | cons c cs ih => exact ih

/-- The depth after one character. -/
theorem nest_some (hne : opening ≠ closing) (d : Nat) (c : Char) :
    nest opening closing (some d) c =
      if [c].count closing ≤ d + [c].count opening then
        some (d + [c].count opening - [c].count closing)
      else none := by
  simp only [nest, List.count_singleton, beq_iff_eq]
  by_cases hopening : c = opening
  · simp [hopening, hne]
  · by_cases hclosing : c = closing
    · rcases d with _ | d <;> simp [hclosing, hne.symm]
    · simp [hopening, hclosing]

theorem forall_prefix_cons {p : List Char → Prop} {c : Char} :
    (∀ start, start <+: c :: cs → p start) ↔ p [] ∧ ∀ start, start <+: cs → p ([c] ++ start) := by
  constructor
  · intro h
    refine ⟨h [] List.nil_prefix, fun start hstart => h _ ?_⟩
    exact List.cons_prefix_cons.mpr ⟨rfl, hstart⟩
  · rintro ⟨hnil, hcons⟩ start hstart
    rcases List.prefix_cons_iff.mp hstart with rfl | ⟨rest, rfl, hrest⟩
    · exact hnil
    · exact hcons rest hrest

/-- Reading goes well where no prefix closes more than it may, and ends with what is left open. -/
theorem foldl_nest_eq_iff (hne : opening ≠ closing) {d e : Nat} :
    cs.foldl (nest opening closing) (some d) = some e ↔
      (∀ start, start <+: cs → start.count closing ≤ d + start.count opening) ∧
        cs.count closing + e = d + cs.count opening := by
  induction cs generalizing d with
  | nil => simp [eq_comm]
  | cons c cs ih =>
    have hcount : ∀ x, (c :: cs).count x = [c].count x + cs.count x := by
      intro x
      rw [← List.count_append]
      rfl
    rw [List.foldl_cons, nest_some hne, forall_prefix_cons, hcount, hcount]
    simp only [List.count_append, List.count_nil]
    split
    · rename_i hle
      rw [ih]
      constructor
      · rintro ⟨hopened, htotal⟩
        refine ⟨⟨by omega, fun start hstart => ?_⟩, by omega⟩
        have := hopened start hstart
        omega
      · rintro ⟨⟨_, hopened⟩, htotal⟩
        refine ⟨fun start hstart => ?_, by omega⟩
        have := hopened start hstart
        omega
    · rename_i hlt
      rw [foldl_nest_none]
      refine ⟨nofun, ?_⟩
      rintro ⟨⟨_, hopened⟩, _⟩
      have := hopened [] List.nil_prefix
      rw [List.count_nil, List.count_nil] at this
      exact absurd this hlt

/-- Brackets are balanced where counting them from the left never falls below zero and ends
there. -/
theorem balanced_iff (hne : opening ≠ closing) :
    Balanced opening closing cs ↔ cs.foldl (nest opening closing) (some 0) = some 0 := by
  rw [foldl_nest_eq_iff hne, Nat.add_zero, Nat.zero_add]
  simp only [Nat.zero_add]
  exact ⟨fun h => ⟨h.opened, h.closed⟩, fun h => ⟨h.1, h.2⟩⟩

/-- What is balanced leaves open what was open before. -/
theorem Balanced.foldl_nest (h : Balanced opening closing cs) (hne : opening ≠ closing)
    (d : Option Nat) : cs.foldl (nest opening closing) d = d := by
  cases d with
  | none => exact foldl_nest_none
  | some d =>
    refine (foldl_nest_eq_iff hne).mpr ⟨fun start hstart => ?_, ?_⟩
    · have := h.opened start hstart
      omega
    · have := h.closed
      omega

theorem Balanced.append {ds : List Char} (hc : Balanced opening closing cs)
    (hd : Balanced opening closing ds) (hne : opening ≠ closing) :
    Balanced opening closing (cs ++ ds) := by
  rw [balanced_iff hne, List.foldl_append, hc.foldl_nest hne, hd.foldl_nest hne]

theorem balanced_of_notMem (ho : opening ∉ cs) (hc : closing ∉ cs) :
    Balanced opening closing cs where
  opened start hstart := by
    rw [List.count_eq_zero_of_not_mem fun h => hc (hstart.subset h)]
    exact Nat.zero_le _
  closed := by rw [List.count_eq_zero_of_not_mem hc, List.count_eq_zero_of_not_mem ho]

end Nest

/-! ## Texts within a line -/

/-- The characters that make the layout of code. -/
def isLayout (c : Char) : Bool := c == '{' || c == '}' || c == '\n'

/-- A text within a line of code: its parentheses are balanced. -/
structure IsInline (s : String) : Prop where
  flat : ∀ c ∈ s.toList, ¬ isLayout c
  balanced : Balanced '(' ')' s.toList

/-- The number of open parentheses after one more character of a line. -/
def lineStep (d : Option Nat) (c : Char) : Option Nat :=
  if isLayout c then none else nest '(' ')' d c

/-- The number of open parentheses after a text within a line. -/
def openAfter (d : Option Nat) (s : String) : Option Nat := s.toList.foldl lineStep d

theorem openAfter_append (d : Option Nat) (s t : String) :
    openAfter d (s ++ t) = openAfter (openAfter d s) t := by
  unfold openAfter
  rw [String.toList_append, List.foldl_append]

/-- A constant text is computed with as the list of its characters. -/
theorem openAfter_ofList (d : Option Nat) (cs : List Char) :
    openAfter d (String.ofList cs) = cs.foldl lineStep d := by
  unfold openAfter
  rw [String.toList_ofList]

theorem foldl_lineStep_none (cs : List Char) : cs.foldl lineStep none = none := by
  induction cs with
  | nil => rfl
  | cons c cs ih =>
    have hnone : lineStep none c = none := ite_self none
    rw [List.foldl_cons, hnone, ih]

/-- A line is read as its parentheses are, unless it has a character of the layout. -/
theorem foldl_lineStep (cs : List Char) (d : Option Nat) :
    cs.foldl lineStep d =
      if ∀ c ∈ cs, ¬ isLayout c then cs.foldl (nest '(' ')') d else none := by
  induction cs generalizing d with
  | nil => exact (if_pos nofun).symm
  | cons c cs ih =>
    rw [List.foldl_cons, List.foldl_cons, lineStep]
    by_cases hc : isLayout c
    · rw [if_pos hc, foldl_lineStep_none, if_neg]
      exact fun h => h c List.mem_cons_self hc
    · rw [if_neg hc, ih]
      exact if_congr (by simp [hc]) rfl rfl

/-- Texts within a line leave the depth of round brackets as it is. -/
theorem isInline_iff {s : String} : IsInline s ↔ openAfter (some 0) s = some 0 := by
  unfold openAfter
  rw [foldl_lineStep]
  constructor
  · rintro ⟨hflat, hbalanced⟩
    rw [if_pos hflat]
    exact (balanced_iff (by decide)).mp hbalanced
  · intro h
    split at h
    · rename_i hflat
      exact ⟨hflat, (balanced_iff (by decide)).mpr h⟩
    · cases h

theorem IsInline.openAfter_eq {s : String} (h : IsInline s) (d : Option Nat) :
    openAfter d s = d := by
  unfold openAfter
  rw [foldl_lineStep, if_pos h.flat]
  exact h.balanced.foldl_nest (by decide) d

theorem IsInline.append {s t : String} (hs : IsInline s) (ht : IsInline t) :
    IsInline (s ++ t) := by
  rw [isInline_iff, openAfter_append, hs.openAfter_eq, ht.openAfter_eq]

theorem isInline_intercalate {sep : String} {texts : List String} (hsep : IsInline sep)
    (h : ∀ t ∈ texts, IsInline t) : IsInline (sep.intercalate texts) := by
  induction texts with
  | nil => exact isInline_iff.mpr rfl
  | cons t texts ih =>
    rw [List.forall_mem_cons] at h
    cases texts with
    | nil =>
      rw [String.intercalate_singleton]
      exact h.1
    | cons u rest =>
      rw [String.intercalate_cons_cons]
      exact (h.1.append hsep).append (ih h.2)

/-- A text without braces, parentheses and line feeds. -/
def IsBare (s : String) : Prop := ∀ c ∈ s.toList, c ∉ ['{', '}', '(', ')', '\n']

instance (s : String) : Decidable (IsBare s) :=
  List.decidableBAll (fun c => c ∉ ['{', '}', '(', ')', '\n']) s.toList

theorem IsBare.append {s t : String} (hs : IsBare s) (ht : IsBare t) : IsBare (s ++ t) := by
  unfold IsBare
  rw [String.toList_append, List.forall_mem_append]
  exact ⟨hs, ht⟩

theorem IsBare.isInline {s : String} (h : IsBare s) : IsInline s where
  flat c hc hlayout := by
    simp only [isLayout, Bool.or_eq_true, beq_iff_eq] at hlayout
    rcases hlayout with (rfl | rfl) | rfl <;> exact absurd (h _ hc) (by decide)
  balanced := balanced_of_notMem (fun hc => absurd (h _ hc) (by decide))
    (fun hc => absurd (h _ hc) (by decide))

/-- What is open before a text without brackets is open after it. -/
theorem IsBare.openAfter_eq {s : String} (h : IsBare s) (d : Option Nat) : openAfter d s = d :=
  h.isInline.openAfter_eq d

/-! ## Lines with braces -/

/-- A line with a brace and what stands in front of it. -/
def braceLine (indent : Nat) (brace : Char) : List Char := List.replicate indent ' ' ++ [brace]

/-- Each brace is alone in its line, and each closing brace is indented as the opening brace that
it belongs to: the last one before it with balanced braces in between. -/
structure AlignedBraces (lines : List (List Char)) : Prop where
  alone : ∀ line ∈ lines, ∀ c ∈ line, c = '{' ∨ c = '}' → ∃ n, line = braceLine n c
  aligned : ∀ before m inner n after,
    lines = before ++ braceLine m '{' :: (inner ++ braceLine n '}' :: after) →
      Balanced '{' '}' inner.flatten → m = n

/-- The open braces after one more line, by the lengths of their lines, or nothing where a
closing brace is not indented as the last one that is open. -/
def blockStep : Option (List Nat) → List Char → Option (List Nat)
  | none, _ => none
  | some opened, line =>
    if '{' ∈ line then some (line.length :: opened)
    else if '}' ∈ line then
      match opened with
      | [] => none
      | last :: before => if last = line.length then some before else none
    else some opened

section Blocks

variable {lines : List (List Char)} {opened : List Nat}

theorem foldl_blockStep_none : lines.foldl blockStep none = none := by
  induction lines with
  | nil => rfl
  | cons line lines ih => exact ih

theorem length_braceLine (n : Nat) (c : Char) : (braceLine n c).length = n + 1 := by
  unfold braceLine
  rw [List.length_append, List.length_replicate]
  rfl

theorem mem_braceLine {n : Nat} {c x : Char} : x ∈ braceLine n c ↔ (n ≠ 0 ∧ x = ' ') ∨ x = c := by
  unfold braceLine
  rw [List.mem_append, List.mem_replicate, List.mem_singleton]

theorem foldl_nest_braceLine (n : Nat) (c : Char) (d : Option Nat) :
    (braceLine n c).foldl (nest '{' '}') d = nest '{' '}' d c := by
  have hspaces : Balanced '{' '}' (List.replicate n ' ') :=
    balanced_of_notMem (by simp [List.mem_replicate]) (by simp [List.mem_replicate])
  unfold braceLine
  rw [List.foldl_append, hspaces.foldl_nest (by decide)]
  rfl

/-- An opening brace remembers its column. -/
theorem blockStep_open (n : Nat) : blockStep (some opened) (braceLine n '{') =
    some ((n + 1) :: opened) := by
  have hmem : '{' ∈ braceLine n '{' := mem_braceLine.mpr (.inr rfl)
  simp only [blockStep, if_pos hmem, length_braceLine]

/-- A closing brace has to stand below the one that it closes. -/
theorem blockStep_close (n : Nat) : blockStep (some opened) (braceLine n '}') =
    match opened with
    | [] => none
    | last :: before => if last = n + 1 then some before else none := by
  have hmem : '}' ∈ braceLine n '}' := mem_braceLine.mpr (.inr rfl)
  have hnot : '{' ∉ braceLine n '}' := by simp [mem_braceLine]
  simp only [blockStep, if_neg hnot, if_pos hmem, length_braceLine]

theorem blockStep_other {line : List Char} (ho : '{' ∉ line) (hc : '}' ∉ line)
    (opened : Option (List Nat)) : blockStep opened line = opened := by
  cases opened with
  | none => rfl
  | some opened => simp only [blockStep, if_neg ho, if_neg hc]

/-- Lines with balanced braces leave open what was open before. -/
theorem eq_of_foldl_blockStep (pushed : List Nat) {base left : List Nat}
    (halone : ∀ line ∈ lines, ∀ c ∈ line, c = '{' ∨ c = '}' → ∃ n, line = braceLine n c)
    (hrun : lines.foldl blockStep (some (pushed ++ base)) = some left)
    (hnest : lines.flatten.foldl (nest '{' '}') (some pushed.length) = some 0) : left = base := by
  -- what these lines have opened lies above `base`, and as many braces are open in the nesting,
  -- so none of `base` is ever closed
  induction lines generalizing pushed with
  | nil =>
    have hpushed : pushed = [] := List.length_eq_zero_iff.mp (Option.some.inj hnest)
    rw [hpushed] at hrun
    exact (Option.some.inj hrun).symm
  | cons line lines ih =>
    rw [List.forall_mem_cons] at halone
    rw [List.foldl_cons] at hrun
    rw [List.flatten_cons, List.foldl_append] at hnest
    by_cases ho : '{' ∈ line
    · obtain ⟨n, rfl⟩ := halone.1 '{' ho (.inl rfl)
      rw [blockStep_open] at hrun
      rw [foldl_nest_braceLine] at hnest
      exact ih ((n + 1) :: pushed) halone.2 hrun hnest
    · by_cases hc : '}' ∈ line
      · obtain ⟨n, rfl⟩ := halone.1 '}' hc (.inr rfl)
        rw [blockStep_close] at hrun
        rw [foldl_nest_braceLine] at hnest
        rcases pushed with _ | ⟨last, pushed⟩
        · -- a brace of the lines before would be closed
          change lines.flatten.foldl (nest '{' '}') none = some 0 at hnest
          rw [foldl_nest_none] at hnest
          cases hnest
        · change lines.foldl blockStep (if last = n + 1 then some (pushed ++ base) else none) =
            some left at hrun
          split at hrun
          · exact ih pushed halone.2 hrun hnest
          · rw [foldl_blockStep_none] at hrun
            cases hrun
      · rw [blockStep_other ho hc] at hrun
        rw [(balanced_of_notMem ho hc).foldl_nest (by decide)] at hnest
        exact ih pushed halone.2 hrun hnest

/-- Braces are aligned where all lines can be read. -/
theorem alignedBraces_of_foldl (left : List Nat)
    (halone : ∀ line ∈ lines, ∀ c ∈ line, c = '{' ∨ c = '}' → ∃ n, line = braceLine n c)
    (hrun : lines.foldl blockStep (some []) = some left) : AlignedBraces lines where
  alone := halone
  aligned before m inner n after hlines hbalanced := by
    have hinner : ∀ line ∈ inner, line ∈ lines := by
      intro line hline
      rw [hlines]
      simp [hline]
    rw [hlines, List.foldl_append, List.foldl_cons, List.foldl_append, List.foldl_cons] at hrun
    rcases hbefore : before.foldl blockStep (some []) with _ | base
    · rw [hbefore] at hrun
      change after.foldl blockStep (blockStep (inner.foldl blockStep none) _) = _ at hrun
      rw [foldl_blockStep_none] at hrun
      change after.foldl blockStep none = _ at hrun
      rw [foldl_blockStep_none] at hrun
      cases hrun
    · rw [hbefore, blockStep_open] at hrun
      rcases hopened : inner.foldl blockStep (some ((m + 1) :: base)) with _ | opened
      · rw [hopened] at hrun
        change after.foldl blockStep none = _ at hrun
        rw [foldl_blockStep_none] at hrun
        cases hrun
      · have hbase : opened = (m + 1) :: base :=
          eq_of_foldl_blockStep [] (fun line hline => halone line (hinner line hline))
            hopened ((balanced_iff (by decide)).mp hbalanced)
        rw [hopened, hbase, blockStep_close] at hrun
        change after.foldl blockStep (if m + 1 = n + 1 then some base else none) = _ at hrun
        split at hrun
        · rename_i hmn
          exact Nat.succ_inj.mp hmn
        · rw [foldl_blockStep_none] at hrun
          cases hrun

end Blocks

end ColorPipeline
