-- The layout of code. The lines of code follow from its tree, and whatever holds of the brackets
-- of a whole text is shown part by part of the tree. Code is tidy where each of its lines has
-- balanced parentheses and no braces: the only braces are then those of the blocks.
import ColorPipeline.Proofs.Brackets
import ColorPipeline.Shader.Code

namespace ColorPipeline

namespace Code

/-! ## Tidy code -/

/-- Each line is a text within a line. -/
def Tidy : Code → Prop
  | nothing => True
  | line content => IsInline content
  | both first second => first.Tidy ∧ second.Tidy
  | indented body => body.Tidy
  | block body => body.Tidy

@[simp] theorem tidy_line {content : String} :
    (line content).Tidy ↔ openAfter (some 0) content = some 0 := isInline_iff

@[simp] theorem tidy_block {body : Code} : (block body).Tidy ↔ body.Tidy := Iff.rfl

@[simp] theorem tidy_ofList_nil : (ofList []).Tidy := trivial

@[simp] theorem tidy_ofList_cons {part : Code} {parts : List Code} :
    (ofList (part :: parts)).Tidy ↔ part.Tidy ∧ (ofList parts).Tidy := Iff.rfl

theorem tidy_ofList {parts : List Code} : (ofList parts).Tidy ↔ ∀ part ∈ parts, part.Tidy := by
  induction parts with
  | nil => simp
  | cons part parts ih => rw [tidy_ofList_cons, ih, List.forall_mem_cons]

@[simp] theorem tidy_title {comment : String} : (title comment).Tidy ↔ IsInline comment := by
  have hempty : IsInline "" := isInline_iff.mpr rfl
  have hline : IsInline s!"// {comment}" ↔ IsInline comment := by
    have hstart : IsInline "// " := isInline_iff.mpr rfl
    rw [isInline_iff, isInline_iff]
    change openAfter (some 0) ("// " ++ comment) = _ ↔ _
    rw [openAfter_append, hstart.openAfter_eq]
  have htitle : (title comment).Tidy ↔
      IsInline "" ∧ IsInline s!"// {comment}" ∧ IsInline "" ∧ True := Iff.rfl
  rw [htitle, hline]
  exact ⟨fun h => h.2.1, fun h => ⟨hempty, h, hempty, trivial⟩⟩

/-! ## Lines -/

/-- A line at some depth. -/
def lineAt (depth : Nat) (content : String) : List Char :=
  if content.isEmpty then [] else List.replicate (2 * depth) ' ' ++ content.toList

/-- The lines of code at some depth. -/
def lines : Nat → Code → List (List Char)
  | _, nothing => []
  | depth, line content => [lineAt depth content]
  | depth, both first second => first.lines depth ++ second.lines depth
  | depth, indented body => body.lines (depth + 1)
  | depth, block body =>
    braceLine (2 * depth) '{' :: (body.lines (depth + 1) ++ [braceLine (2 * depth) '}'])

/-- Lines as they stand in a text. -/
def ended (lines : List (List Char)) : List Char := lines.flatMap (· ++ ['\n'])

theorem ended_append (a b : List (List Char)) : ended (a ++ b) = ended a ++ ended b :=
  List.flatMap_append

theorem ended_cons (line : List Char) (lines : List (List Char)) :
    ended (line :: lines) = line ++ '\n' :: ended lines := by
  unfold ended
  rw [List.flatMap_cons, List.append_assoc]
  rfl

theorem ended_nil : ended [] = [] := rfl

theorem toList_join_indent (depth : Nat) :
    (String.join (List.replicate depth ShaderText.indent)).toList =
      List.replicate (2 * depth) ' ' := by
  have hindent : ShaderText.indent.toList = [' ', ' '] := rfl
  induction depth with
  | zero => rfl
  | succ depth ih =>
    rw [List.replicate_succ, String.join_cons, String.toList_append, ih, hindent, Nat.mul_succ,
      Nat.add_comm, List.replicate_add]
    rfl

theorem lineAt_empty (depth : Nat) : lineAt depth "" = [] := rfl

/-- Braces stand on lines of their own, two blanks in for each depth. -/
theorem lineAt_open (depth : Nat) : lineAt depth "\x7b" = braceLine (2 * depth) '{' := rfl

theorem lineAt_close (depth : Nat) : lineAt depth "\x7d" = braceLine (2 * depth) '}' := rfl

theorem text_line (t : ShaderText) (content : String) :
    (t.line content).text.toList = t.text.toList ++ ended [lineAt t.depth content] := by
  have hend : "\n".toList = ['\n'] := rfl
  unfold ShaderText.line lineAt
  simp only [ended_cons, ended_nil, String.toList_append, hend]
  by_cases hempty : content.isEmpty
  · rw [if_pos hempty, if_pos hempty, String.isEmpty_iff.mp hempty]
    simp
  · rw [if_neg hempty, if_neg hempty, toList_join_indent, List.append_assoc, List.append_assoc,
      List.append_assoc]

/-- Writing code adds its lines. -/
theorem text_write (c : Code) (t : ShaderText) :
    (c.write t).text.toList = t.text.toList ++ ended (c.lines t.depth) := by
  induction c generalizing t with
  | nothing => exact (List.append_nil _).symm
  | line content => exact text_line t content
  | both first second ih₁ ih₂ =>
    rw [write, ih₂, ih₁, depth_write, List.append_assoc, ← ended_append]
    rfl
  | indented body ih => exact ih { t with depth := t.depth + 1 }
  | block body ih =>
    let inner := body.write { t.line "\x7b" with depth := t.depth + 1 }
    have hdepth : inner.depth - 1 = t.depth := congrArg (· - 1) (depth_write body _)
    change (ShaderText.line { inner with depth := inner.depth - 1 } "\x7d").text.toList = _
    rw [hdepth, text_line]
    change inner.text.toList ++ _ = _
    rw [ih, text_line]
    simp only [lines, lineAt_open, lineAt_close, ended_cons, ended_append, ended_nil,
      List.append_assoc, List.cons_append, List.nil_append]

/-- The text of code is its lines, each with a line feed. -/
theorem toList_text (c : Code) (language : ShaderLanguage) :
    (c.text language).toList = ended (c.lines 0) := by
  unfold text
  rw [text_write]
  rfl

/-- A block one level deeper, and a line after it. -/
example : (ofList [.indented (.block "x;"), "y;"]).lines 0 =
    [braceLine 2 '{', "    x;".toList, braceLine 2 '}', "y;".toList] := rfl

theorem lines_append (first second : Code) (depth : Nat) :
    (first ++ second).lines depth = first.lines depth ++ second.lines depth := rfl

theorem lines_ofList (parts : List Code) (depth : Nat) :
    (ofList parts).lines depth = parts.flatMap (lines depth) := by
  induction parts with
  | nil => rfl
  | cons part parts ih => rw [ofList, lines_append, ih, List.flatMap_cons]

/-- Lines that are written one after the other are written as code. -/
theorem foldl_line (contents : List String) (t : ShaderText) :
    contents.foldl ShaderText.line t = (ofList (contents.map line)).write t := by
  induction contents generalizing t with
  | nil => rfl
  | cons content contents ih => exact ih (t.line content)

/-! ## Single lines -/

/-- A line of tidy code at some depth or deeper: a text within a line, or a brace of a block. -/
inductive IsLine (depth : Nat) : List Char → Prop where
  | content {d : Nat} {content : String} (hd : depth ≤ d) (h : IsInline content) :
    IsLine depth (lineAt d content)
  | opening {d : Nat} (hd : depth ≤ d) : IsLine depth (braceLine (2 * d) '{')
  | closing {d : Nat} (hd : depth ≤ d) : IsLine depth (braceLine (2 * d) '}')

theorem IsLine.of_deeper {depth : Nat} {line : List Char} (h : IsLine (depth + 1) line) :
    IsLine depth line := by
  cases h with
  | content hd h => exact .content (Nat.le_of_succ_le hd) h
  | opening hd => exact .opening (Nat.le_of_succ_le hd)
  | closing hd => exact .closing (Nat.le_of_succ_le hd)

/-- Every line of tidy code is indented at least as far as its block. -/
theorem Tidy.isLine {c : Code} (h : c.Tidy) {depth : Nat} :
    ∀ line ∈ c.lines depth, IsLine depth line := by
  induction c generalizing depth with
  | nothing => exact nofun
  | line content => exact List.forall_mem_singleton.mpr (.content le_rfl h)
  | both first second ih₁ ih₂ => exact List.forall_mem_append.mpr ⟨ih₁ h.1, ih₂ h.2⟩
  | indented body ih => exact fun line hline => (ih h line hline).of_deeper
  | block body ih =>
    refine List.forall_mem_cons.mpr ⟨.opening le_rfl, List.forall_mem_append.mpr ⟨?_, ?_⟩⟩
    · exact fun line hline => (ih h line hline).of_deeper
    · exact List.forall_mem_singleton.mpr (.closing le_rfl)

namespace IsLine

variable {depth : Nat} {line : List Char}

/-- The characters of a line are those of its content and spaces. -/
theorem of_mem_lineAt {d : Nat} {content : String} {x : Char} (h : x ∈ lineAt d content) :
    x = ' ' ∨ x ∈ content.toList := by
  unfold lineAt at h
  split at h
  · cases h
  · rcases List.mem_append.mp h with h | h
    · exact .inl (List.eq_of_mem_replicate h)
    · exact .inr h

theorem not_isLayout_of_mem_lineAt {d : Nat} {content : String} (hcontent : IsInline content)
    {x : Char} (h : x ∈ lineAt d content) : ¬ isLayout x := by
  rcases of_mem_lineAt h with rfl | hx
  · decide
  · exact hcontent.flat x hx

theorem lineFeed_notMem (h : IsLine depth line) : '\n' ∉ line := by
  cases h with
  | content hd hcontent => exact fun hmem => not_isLayout_of_mem_lineAt hcontent hmem rfl
  | opening hd => simp [mem_braceLine]
  | closing hd => simp [mem_braceLine]

/-- A line with a brace has nothing else but its indentation. -/
theorem brace_alone (h : IsLine depth line) {x : Char} (hx : x ∈ line)
    (hbrace : x = '{' ∨ x = '}') : ∃ n, line = braceLine n x := by
  cases h with
  | content hd hcontent =>
    have hnot := not_isLayout_of_mem_lineAt hcontent hx
    rcases hbrace with rfl | rfl <;> exact absurd rfl hnot
  | opening hd =>
    rcases mem_braceLine.mp hx with ⟨_, rfl⟩ | rfl
    · exact absurd hbrace (by decide)
    · exact ⟨_, rfl⟩
  | closing hd =>
    rcases mem_braceLine.mp hx with ⟨_, rfl⟩ | rfl
    · exact absurd hbrace (by decide)
    · exact ⟨_, rfl⟩

theorem parentheses (h : IsLine depth line) : Balanced '(' ')' line := by
  cases h with
  | content hd hcontent =>
    unfold lineAt
    split
    · exact balanced_of_notMem List.not_mem_nil List.not_mem_nil
    · refine Balanced.append ?_ hcontent.balanced (by decide)
      exact balanced_of_notMem (by simp [List.mem_replicate]) (by simp [List.mem_replicate])
  | opening hd => exact balanced_of_notMem (by simp [mem_braceLine]) (by simp [mem_braceLine])
  | closing hd => exact balanced_of_notMem (by simp [mem_braceLine]) (by simp [mem_braceLine])

/-- A line that is not empty begins with the indent of its depth. -/
theorem starts_indented (h : IsLine depth line) (hne : line ≠ []) :
    List.replicate (2 * depth) ' ' <+: line := by
  have hspaces : ∀ {d : Nat} (rest : List Char), depth ≤ d →
      List.replicate (2 * depth) ' ' <+: List.replicate (2 * d) ' ' ++ rest := by
    intro d rest hd
    refine ⟨List.replicate (2 * (d - depth)) ' ' ++ rest, ?_⟩
    rw [← List.append_assoc, ← List.replicate_add]
    congr 2
    omega
  cases h with
  | content hd _ =>
    unfold lineAt at hne ⊢
    split at hne
    · exact absurd rfl hne
    · rename_i hempty
      rw [if_neg hempty]
      exact hspaces _ hd
  | opening hd => exact hspaces _ hd
  | closing hd => exact hspaces _ hd

end IsLine

/-! ## Whole texts -/

/-- Brackets that are balanced in each line are balanced in a text. -/
theorem balanced_ended {o c : Char} (hne : o ≠ c) (ho : o ≠ '\n') (hc : c ≠ '\n')
    {lines : List (List Char)} (h : ∀ line ∈ lines, Balanced o c line) :
    Balanced o c (ended lines) := by
  rw [balanced_iff hne]
  induction lines with
  | nil => rfl
  | cons line lines ih =>
    rw [List.forall_mem_cons] at h
    have hfeed : nest o c (some 0) '\n' = some 0 := by simp [nest, ho.symm, hc.symm]
    rw [ended_cons, List.foldl_append, h.1.foldl_nest hne, List.foldl_cons, hfeed, ih h.2]

/-- A line of text opens and closes no block. -/
theorem brace_notMem_lineAt {d : Nat} {content : String} (h : IsInline content) :
    '{' ∉ lineAt d content ∧ '}' ∉ lineAt d content :=
  ⟨fun hmem => IsLine.not_isLayout_of_mem_lineAt h hmem rfl,
    fun hmem => IsLine.not_isLayout_of_mem_lineAt h hmem rfl⟩

/-- The braces of tidy code are balanced. -/
theorem Tidy.foldl_nest {c : Code} (h : c.Tidy) (depth : Nat) (d : Option Nat) :
    (ended (c.lines depth)).foldl (nest '{' '}') d = d := by
  have hfeed : ∀ d, nest '{' '}' d '\n' = d := fun d => by cases d <;> rfl
  induction c generalizing depth d with
  | nothing => rfl
  | line content =>
    obtain ⟨ho, hc⟩ := brace_notMem_lineAt (d := depth) h
    rw [lines, ended_cons, List.foldl_append, (balanced_of_notMem ho hc).foldl_nest (by decide)]
    exact hfeed d
  | both first second ih₁ ih₂ => rw [lines, ended_append, List.foldl_append, ih₁ h.1, ih₂ h.2]
  | indented body ih => exact ih h (depth + 1) d
  | block body ih =>
    have hpair : nest '{' '}' (nest '{' '}' d '{') '}' = d := by cases d <;> rfl
    rw [lines, ended_cons, ended_append, ended_cons, ended_nil]
    simp only [List.foldl_append, List.foldl_cons, List.foldl_nil, foldl_nest_braceLine, hfeed,
      ih h, hpair]

/-- The braces of tidy code are aligned, whatever braces are open before it. -/
theorem Tidy.foldl_blockStep {c : Code} (h : c.Tidy) (depth : Nat) (opened : Option (List Nat)) :
    (c.lines depth).foldl blockStep opened = opened := by
  induction c generalizing depth opened with
  | nothing => rfl
  | line content =>
    obtain ⟨ho, hc⟩ := brace_notMem_lineAt (d := depth) h
    exact blockStep_other ho hc opened
  | both first second ih₁ ih₂ => rw [lines, List.foldl_append, ih₁ h.1, ih₂ h.2]
  | indented body ih => exact ih h (depth + 1) opened
  | block body ih =>
    cases opened with
    | none => exact foldl_blockStep_none
    | some opened =>
      rw [lines, List.foldl_cons, List.foldl_append, blockStep_open, ih h, List.foldl_cons,
        List.foldl_nil, blockStep_close]
      exact if_pos rfl

/-- The text of tidy code has its lines, and an empty one at the end. -/
theorem Tidy.splitOn_text {c : Code} (h : c.Tidy) (language : ShaderLanguage) :
    (c.text language).toList.splitOn '\n' = c.lines 0 ++ [[]] := by
  have hended : ∀ lines : List (List Char), ended lines = ['\n'].intercalate (lines ++ [[]]) := by
    intro lines
    induction lines with
    | nil => rfl
    | cons line lines ih =>
      have hne : lines ++ [[]] ≠ [] := List.append_ne_nil_of_right_ne_nil _ (List.cons_ne_nil _ _)
      rw [ended_cons, ih, List.cons_append, List.intercalate_cons_of_ne_nil hne, List.append_assoc]
      rfl
  rw [toList_text, hended]
  refine List.splitOn_intercalate '\n' ?_ (List.append_ne_nil_of_right_ne_nil _ (by simp))
  refine List.forall_mem_append.mpr ⟨fun line hline => (h.isLine line hline).lineFeed_notMem, ?_⟩
  exact List.forall_mem_singleton.mpr List.not_mem_nil

/-- The text of tidy code has balanced brackets, and its braces are aligned. -/
theorem Tidy.balanced_text {c : Code} (h : c.Tidy) (language : ShaderLanguage) :
    Balanced '{' '}' (c.text language).toList ∧ Balanced '(' ')' (c.text language).toList ∧
      AlignedBraces ((c.text language).toList.splitOn '\n') := by
  refine ⟨?_, ?_, ?_⟩
  · rw [toList_text, balanced_iff (by decide), h.foldl_nest]
  · rw [toList_text]
    exact balanced_ended (by decide) (by decide) (by decide)
      fun line hline => (h.isLine line hline).parentheses
  · rw [h.splitOn_text]
    refine alignedBraces_of_foldl [] (List.forall_mem_append.mpr ⟨?_, ?_⟩) ?_
    · exact fun line hline x hx => (h.isLine line hline).brace_alone hx
    · exact List.forall_mem_singleton.mpr fun x hx => absurd hx List.not_mem_nil
    · rw [List.foldl_append, h.foldl_blockStep]
      rfl

/-- Each line of tidy code one level deeper is indented. -/
theorem Tidy.starts_indented {c : Code} (h : c.Tidy) (language : ShaderLanguage) {line : List Char}
    (hline : line ∈ ((indented c).text language).toList.splitOn '\n') (hne : line ≠ []) :
    ShaderText.indent.toList <+: line := by
  have hindented : (indented c).Tidy := h
  rw [hindented.splitOn_text, List.mem_append, List.mem_singleton] at hline
  rcases hline with hline | hline
  · have hdeeper : IsLine 1 line := h.isLine line hline
    exact hdeeper.starts_indented hne
  · exact absurd hline hne

end Code

end ColorPipeline
