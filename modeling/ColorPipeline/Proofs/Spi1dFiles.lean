-- 1D tables in text. A run through the lines is the same as looking at all of them: those of the
-- header by their tags, where the last one of a tag counts, and those of the samples one by one.
import ColorPipeline.Lut.Spi1dFile
import ColorPipeline.Proofs.Results
import ColorPipeline.Proofs.TextLines

open scoped ColorPipeline.Scalar

namespace ColorPipeline

namespace Spi1d

/-! ## The two parts of a file -/

/-- The lines before the first one that begins with a brace. -/
def headerLines (lines : List String) : List String :=
  lines.takeWhile fun line => !opensSamples line

/-- The lines after that one. -/
def linesBehindHeader (lines : List String) : List String :=
  (lines.dropWhile fun line => !opensSamples line).tail

/-- The lines before the first one that has a closing brace and nothing else. -/
def linesBeforeBrace (lines : List String) : List String :=
  lines.takeWhile fun line => Text.trim line.toList ≠ ['}']

/-- The lines between the braces. -/
def linesInBraces (lines : List String) : List String := linesBeforeBrace (linesBehindHeader lines)

/-- The lines that are not blank. -/
def filledLines (lines : List String) : List String :=
  lines.filter fun line => Text.trim line.toList ≠ []

/-! ## Lines of a header -/

/-- What a line of a header can be about. -/
inductive Tag where
  | version
  | range
  | components
  | length
deriving DecidableEq

/-- How a line with a tag begins. -/
def Tag.text : Tag → String
  | version => "Version"
  | range => "From"
  | components => "Components"
  | length => "Length"

/-- The line begins with the tag. -/
def HasTag (t : Tag) (line : String) : Prop := t.text.toList <+: line.toList

instance (t : Tag) (line : String) : Decidable (HasTag t line) :=
  inferInstanceAs (Decidable (_ <+: _))

/-- What follows a tag. -/
def behindTag (t : Tag) (line : String) : List Char := line.toList.drop t.text.toList.length

/-- The lines with a tag, in their order. -/
def tagged (t : Tag) (header : List String) : List String := header.filter fun line => HasTag t line

theorem Tag.eq_of_hasTag {t u : Tag} {line : String} (ht : HasTag t line) (hu : HasTag u line) :
    t = u := by
  have hfirst : ∀ {v : Tag}, HasTag v line → line.toList.head? = v.text.toList.head? := by
    rintro v ⟨rest, hrest⟩
    rw [← hrest]
    cases v <;> rfl
  have hsame := (hfirst ht).symm.trans (hfirst hu)
  cases t <;> cases u <;> first | rfl | exact absurd hsame (by decide)

theorem afterTag?_eq (t : Tag) (line : String) : Text.afterTag? t.text line.toList =
    if HasTag t line then some (behindTag t line) else none := by
  unfold Text.afterTag?
  by_cases h : HasTag t line
  · rw [if_pos h, if_pos (List.isPrefixOf_iff_prefix.mpr h)]
    rfl
  · rw [if_neg h, if_neg (mt List.isPrefixOf_iff_prefix.mp h)]

/-! ## What lines say -/

section Lines

variable {S : Type} [Stored S]

/-- The numbers among the words of a text. -/
def numbersIn (cs : List Char) : List S := (Text.words cs).filterMap Stored.read?

/-- A line with a tag says what the tag asks for. A version can only be 1, a range is two
numbers, and the rest are natural numbers. -/
def IsLegible (S : Type) [Stored S] (t : Tag) (line : String) : Prop :=
  match t with
  | .version => Reading.integer (Text.trim (behindTag t line)) = some 1
  | .range => (numbersIn (S := S) (behindTag t line)).length = 2
  | .components | .length => (count? (behindTag t line)).isSome

instance (t : Tag) (line : String) : Decidable (IsLegible S t line) :=
  match t with
  | .version => inferInstanceAs (Decidable (_ = _))
  | .range => inferInstanceAs (Decidable (_ = _))
  | .components | .length => inferInstanceAs (Decidable (_ = true))

/-- The input range in a line, or the one before it where the line has none. -/
def rangeIn (before : S × S) (line : String) : S × S :=
  match numbersIn (behindTag .range line) with
  | [low, high] => (low, high)
  | _ => before

/-- The number in the last line with a tag. -/
def lastCount? (t : Tag) (header : List String) : Option Nat :=
  (tagged t header).getLast?.bind fun line => count? (behindTag t line)

/-- The header says its version, and every line with a tag can be read. -/
structure LegibleHeader (S : Type) [Stored S] (header : List String) : Prop where
  version : tagged .version header ≠ []
  lines : ∀ t, ∀ line ∈ tagged t header, IsLegible S t line

/-- A line of `n` words, all of them numbers. -/
structure HoldsNumbers (S : Type) [Stored S] (n : Nat) (line : String) : Prop where
  count : (Text.words line.toList).length = n
  numbers : ∀ word ∈ Text.words line.toList, (Stored.read? (R := S) word).isSome

/-- A condition under which something succeeds does not hold where it fails. -/
theorem not_of_eq_error {ε α : Type} {p : Prop} {x : Except ε α} {a : α} {e : ε}
    (h : p → x = .ok a) (hx : x = .error e) : ¬ p := by
  intro hp
  rw [h hp] at hx
  cases hx

/-! ## One line -/

/-- The header after a line that can be read. -/
def Header.note (h : Header S) (line : String) : Header S :=
  let before := (h.fromMin, h.fromMax)
  let range := if HasTag .range line then rangeIn before line else before
  { version := if HasTag .version line then some 1 else h.version
    length := if HasTag .length line then count? (behindTag .length line) else h.length
    components := if HasTag .components line then count? (behindTag .components line)
      else h.components
    fromMin := range.1
    fromMax := range.2 }

/-- A line of the header is read where what stands behind its tag can be. -/
theorem read_eq_ok_iff (file : String) (h : Header S) (number : Nat) (line : String)
    {next : Header S} : h.read file ⟨number, line⟩ = .ok next ↔
      (∀ t, HasTag t line → IsLegible S t line) ∧ next = h.note line := by
  have hversion : Text.afterTag? "Version" line.toList = _ := afterTag?_eq .version line
  have hrange : Text.afterTag? "From" line.toList = _ := afterTag?_eq .range line
  have hcomponents : Text.afterTag? "Components" line.toList = _ := afterTag?_eq .components line
  have hlength : Text.afterTag? "Length" line.toList = _ := afterTag?_eq .length line
  unfold Header.read Header.note
  simp only [hversion, hrange, hcomponents, hlength]
  by_cases htag : ∃ t, HasTag t line
  · obtain ⟨t, ht⟩ := htag
    have honly : ∀ u, HasTag u line ↔ u = t := fun u =>
      ⟨fun hu => Tag.eq_of_hasTag hu ht, fun hu => hu ▸ ht⟩
    simp only [honly, forall_eq]
    cases t with
    | version =>
      simp only [if_true, reduceCtorEq, if_false, IsLegible]
      generalize Reading.integer (Text.trim (behindTag .version line)) = version
      split
      · simp [eq_comm]
      · rename_i n hn
        have hother : n ≠ 1 := hn
        simp [faultAt, hother]
      · simp [faultAt]
    | range =>
      simp only [if_true, reduceCtorEq, if_false, IsLegible, rangeIn, numbersIn]
      generalize (Text.words (behindTag .range line)).filterMap (Stored.read? (R := S)) = numbers
      rcases numbers with _ | ⟨low, _ | ⟨high, _ | ⟨_, _⟩⟩⟩
      · simp [faultAt]
      · simp [faultAt]
      · simp [eq_comm]
      · simp [faultAt]
    | components =>
      simp only [if_true, reduceCtorEq, if_false, IsLegible]
      generalize count? (behindTag .components line) = count
      cases count with
      | none => simp [faultAt]
      | some n => simp [eq_comm]
    | length =>
      simp only [if_true, reduceCtorEq, if_false, IsLegible]
      generalize count? (behindTag .length line) = count
      cases count with
      | none => simp [faultAt]
      | some n => simp [eq_comm]
  · rw [not_exists] at htag
    simp only [htag, if_false, false_imp_iff, implies_true, true_and, Except.ok.injEq]
    exact eq_comm

/-! ## All lines of a header -/

/-- The header ends at the first line with a brace. -/
theorem readHeader_eq_ok_iff (file : String) (h : Header S) (number : Nat) (lines : List String)
    {next : Header S} {rest : List (Option String)} :
    (∃ n, readHeader file h number (lines.map some) = .ok (next, n, rest)) ↔
      (∀ line ∈ headerLines lines, ∀ t, HasTag t line → IsLegible S t line) ∧
        next = (headerLines lines).foldl Header.note h ∧
        rest = (linesBehindHeader lines).map some := by
  induction lines generalizing h number with
  | nil => simp [readHeader, headerLines, linesBehindHeader, eq_comm]
  | cons line lines ih =>
    rw [List.map_cons, readHeader]
    cases hopens : opensSamples line with
    | true => simp [headerLines, linesBehindHeader, hopens, eq_comm]
    | false =>
      have hheader : headerLines (line :: lines) = line :: headerLines lines := by
        simp [headerLines, hopens]
      have hbehind : linesBehindHeader (line :: lines) = linesBehindHeader lines := by
        simp [linesBehindHeader, hopens]
      rw [hheader, hbehind, List.forall_mem_cons, List.foldl_cons]
      simp only [Bool.false_eq_true, if_false]
      cases hread : h.read file ⟨number, line⟩ with
      | error e =>
        have hillegible : ¬ ∀ t, HasTag t line → IsLegible S t line :=
          not_of_eq_error
            (fun hlegible => (read_eq_ok_iff file h number line).mpr ⟨hlegible, rfl⟩) hread
        simp [hillegible]
      | ok noted =>
        obtain ⟨hlegible, rfl⟩ := (read_eq_ok_iff file h number line).mp hread
        rw [and_iff_right hlegible]
        exact ih _ _

end Lines

/-! ## Samples -/

section Samples

variable {S : Type} [Scalar S]

/-- The sample of the numbers in a line: one goes to all channels, and two leave blue at zero. -/
def spread : List S → Rgb S
  | [v] => Rgb.gray v
  | [red, green] => ⟨red, green, 0⟩
  | [red, green, blue] => ⟨red, green, blue⟩
  | _ => Rgb.gray 0

theorem sample?_eq_some_iff {n : Nat} (hn : n = 1 ∨ n = 2 ∨ n = 3) (values : List S) (p : Rgb S) :
    sample? n values = some p ↔ values.length = n ∧ p = spread values := by
  match values with
  | [] => rcases hn with rfl | rfl | rfl <;> simp [sample?]
  | [_] => rcases hn with rfl | rfl | rfl <;> simp [sample?, spread, eq_comm]
  | [_, _] => rcases hn with rfl | rfl | rfl <;> simp [sample?, spread, eq_comm]
  | [_, _, _] => rcases hn with rfl | rfl | rfl <;> simp [sample?, spread, eq_comm]
  | _ :: _ :: _ :: _ :: _ => rcases hn with rfl | rfl | rfl <;> simp [sample?]

variable [Stored S]

/-- A line of samples is read where it has as many words as there are components, and all of
them are numbers. -/
theorem read_sample_iff {n : Nat} (hn : n = 1 ∨ n = 2 ∨ n = 3) (line : String) (p : Rgb S) :
    ((Text.words (Text.trim line.toList)).mapM Stored.read?).bind (sample? n) = some p ↔
      HoldsNumbers S n line ∧ p = spread (numbersIn line.toList) := by
  have hlength : (∀ word ∈ Text.words line.toList, (Stored.read? (R := S) word).isSome) →
      (numbersIn (S := S) line.toList).length = (Text.words line.toList).length :=
    List.filterMap_length_eq_length.mpr
  rw [Text.words_trim, Option.bind_eq_some_iff]
  simp only [mapM_eq_some_iff, sample?_eq_some_iff hn]
  constructor
  · rintro ⟨values, ⟨hall, rfl⟩, hcount, rfl⟩
    exact ⟨⟨(hlength hall).symm.trans hcount, hall⟩, rfl⟩
  · rintro ⟨⟨hcount, hall⟩, rfl⟩
    exact ⟨_, ⟨hall, rfl⟩, (hlength hall).trans hcount, rfl⟩

/-- Each filled line up to the closing brace is a sample. -/
theorem readSamples_eq_ok_iff (file : String) {n : Nat} (hn : n = 1 ∨ n = 2 ∨ n = 3) (number : Nat)
    (lines : List String) {samples : List (Rgb S)} :
    readSamples file n number (lines.map some) = .ok samples ↔
      (∀ line ∈ filledLines (linesBeforeBrace lines), HoldsNumbers S n line) ∧
        samples = (filledLines (linesBeforeBrace lines)).map
          fun line => spread (numbersIn line.toList) := by
  -- a line closes the braces, is skipped, or is a sample: only the last can go wrong
  induction lines generalizing number samples with
  | nil => simp [readSamples, filledLines, linesBeforeBrace]
  | cons line lines ih =>
    rw [List.map_cons, readSamples]
    by_cases hbrace : Text.trim line.toList = ['}']
    · have hinside : linesBeforeBrace (line :: lines) = [] := by simp [linesBeforeBrace, hbrace]
      rw [if_pos hbrace, hinside]
      simp [filledLines]
    · have hinside : linesBeforeBrace (line :: lines) = line :: linesBeforeBrace lines := by
        simp [linesBeforeBrace, hbrace]
      rw [hinside]
      by_cases hblank : Text.trim line.toList = []
      · have hskip : filledLines (line :: linesBeforeBrace lines) =
            filledLines (linesBeforeBrace lines) := by simp [filledLines, hblank]
        rw [hskip, ← ih (number + 1), if_neg hbrace, if_pos (List.isEmpty_iff.mpr hblank)]
      · have hfilled : filledLines (line :: linesBeforeBrace lines) =
            line :: filledLines (linesBeforeBrace lines) := by simp [filledLines, hblank]
        rw [hfilled, List.forall_mem_cons, List.map_cons]
        simp only [hbrace, if_false, List.isEmpty_iff, hblank]
        cases hread : ((Text.words (Text.trim line.toList)).mapM Stored.read?).bind
            (sample? (S := S) n) with
        | none =>
          have hillegible : ¬ HoldsNumbers S n line := by
            intro hnumbers
            rw [(read_sample_iff hn line _).mpr ⟨hnumbers, rfl⟩] at hread
            cases hread
          simp [hillegible, faultAt]
        | some p =>
          obtain ⟨hnumbers, rfl⟩ := (read_sample_iff hn line p).mp hread
          simp only [hnumbers, true_and]
          cases hrest : readSamples (S := S) file n (number + 1) (lines.map some) with
          | error e =>
            have hillegible : ¬ ∀ line ∈ filledLines (linesBeforeBrace lines),
                HoldsNumbers S n line :=
              not_of_eq_error (fun hall => (ih (number + 1)).mpr ⟨hall, rfl⟩) hrest
            simp [hillegible, Except.map]
          | ok rest =>
            obtain ⟨hall, rfl⟩ := (ih (number + 1)).mp hrest
            rw [and_iff_right hall]
            simpa [Except.map] using eq_comm

/-! ## What a header has said -/

/-- The input range in the last line with one, from 0 to 1 without such a line. -/
def inputRange (header : List String) : S × S :=
  match (tagged .range header).getLast? with
  | some line => rangeIn (0, 1) line
  | none => (0, 1)

theorem lastCount?_congr {t : Tag} {header header' : List String}
    (h : tagged t header = tagged t header') : lastCount? t header = lastCount? t header' := by
  unfold lastCount?
  rw [h]

omit [Scalar S] in
theorem LegibleHeader.congr {header header' : List String}
    (h : ∀ t, tagged t header = tagged t header') :
    LegibleHeader S header ↔ LegibleHeader S header' := by
  constructor
  · rintro ⟨hversion, hlines⟩
    exact ⟨h .version ▸ hversion, fun t => h t ▸ hlines t⟩
  · rintro ⟨hversion, hlines⟩
    exact ⟨h .version ▸ hversion, fun t => h t ▸ hlines t⟩

theorem inputRange_congr {header header' : List String}
    (h : tagged .range header = tagged .range header') :
    (inputRange header : S × S) = inputRange header' := by
  unfold inputRange
  rw [h]

theorem tagged_snoc (t : Tag) (header : List String) (line : String) :
    tagged t (header ++ [line]) =
      if HasTag t line then tagged t header ++ [line] else tagged t header := by
  unfold tagged
  rw [List.filter_append]
  by_cases h : HasTag t line <;> simp [h]

theorem lastCount?_snoc (t : Tag) (header : List String) (line : String) :
    lastCount? t (header ++ [line]) =
      if HasTag t line then count? (behindTag t line) else lastCount? t header := by
  unfold lastCount?
  rw [tagged_snoc]
  by_cases h : HasTag t line <;> simp [h]

omit [Scalar S] in
/-- A range that can be read does not depend on the one before it. -/
theorem rangeIn_eq (a b : S × S) {line : String} (h : IsLegible S .range line) :
    rangeIn a line = rangeIn b line := by
  obtain ⟨low, high, hnumbers⟩ := List.length_eq_two.mp h
  unfold rangeIn
  rw [hnumbers]

theorem inputRange_snoc (header : List String) {line : String}
    (h : HasTag .range line → IsLegible S .range line) :
    (inputRange (header ++ [line]) : S × S) =
      if HasTag .range line then rangeIn (inputRange header) line else inputRange header := by
  unfold inputRange
  rw [tagged_snoc]
  by_cases hrange : HasTag .range line
  · simp only [hrange, if_true, List.getLast?_concat]
    exact rangeIn_eq _ _ (h hrange)
  · simp [hrange]

/-- After lines that can be read, the last one with a tag counts. -/
theorem foldl_note {header : List String}
    (h : ∀ line ∈ header, ∀ t, HasTag t line → IsLegible S t line) :
    header.foldl Header.note (Header.empty : Header S) =
      { version := if tagged .version header = [] then none else some 1
        length := lastCount? .length header
        components := lastCount? .components header
        fromMin := (inputRange header).1
        fromMax := (inputRange header).2 } := by
  -- from the end, since a line hides those before it with its tag
  induction header using List.reverseRecOn with
  | nil => rfl
  | append_singleton header line ih =>
    have hline := h line (by simp)
    have hversion : (if tagged .version (header ++ [line]) = [] then none else some (1 : ℤ)) =
        if HasTag .version line then some 1
        else if tagged .version header = [] then none else some 1 := by
      rw [tagged_snoc]
      by_cases htag : HasTag .version line <;> simp [htag]
    rw [List.foldl_concat, ih fun l hl => h l (by simp [hl]), hversion, lastCount?_snoc,
      lastCount?_snoc, inputRange_snoc header (hline .range)]
    rfl

/-! ## Whole files -/

omit [Scalar S] in
theorem forall_tagged_iff {header : List String} :
    (∀ t, ∀ line ∈ tagged t header, IsLegible S t line) ↔
      ∀ line ∈ header, ∀ t, HasTag t line → IsLegible S t line := by
  unfold tagged
  simp only [List.mem_filter, decide_eq_true_eq, and_imp]
  exact ⟨fun h line hline t => h t line hline, fun h t line hline => h line hline t⟩

/-- What is asked of the header and of the samples once they have been read. -/
theorem parse_eq_ok_iff_of_readHeader {file : String} {lines body : List (Option String)}
    {header : Header S} {next : Nat}
    (h : readHeader file (Header.empty : Header S) 1 lines = .ok (header, next, body))
    {spi : Spi1d S} :
    parse file lines = .ok spi ↔ header.version.isSome ∧
      ∃ n l samples, header.components = some n ∧ (n = 1 ∨ n = 2 ∨ n = 3) ∧
        header.length = some l ∧ 2 ≤ l ∧ readSamples file n next body = .ok samples ∧
        samples.length = l ∧
        spi = ⟨{ samples := samples.toArray }, header.fromMin, header.fromMax⟩ := by
  unfold parse
  simp only [h, bind, Except.bind]
  cases header.version with
  | none => simp [faultIn]
  | some version =>
    cases header.length with
    | none => simp [faultIn]
    | some l =>
      cases header.components with
      | none => simp [faultIn]
      | some n =>
        simp only [Option.isNone_some, Option.isSome_some, Bool.false_eq_true, if_false, true_and,
          Option.some.injEq, exists_and_left, exists_eq_left']
        by_cases hn : n = 1 ∨ n = 2 ∨ n = 3
        · have hrange : ¬ (n < 1 ∨ 3 < n) := by omega
          rw [if_neg hrange, and_iff_right hn]
          cases readSamples (S := S) file n next body with
          | error e => simp
          | ok samples =>
            simp only [Except.ok.injEq, exists_eq_left']
            by_cases hcount : samples.length = l
            · rw [if_neg (not_not.mpr hcount), and_iff_right hcount, Lut1D.ofSamples,
                List.size_toArray, hcount]
              by_cases hsize : 2 ≤ l
              · rw [if_neg (not_lt.mpr hsize), and_iff_right hsize]
                simpa [pure, Except.pure] using eq_comm
              · rw [if_pos (not_le.mp hsize)]
                simp [hsize, faultIn]
            · simp [hcount, faultIn]
        · have hrange : n < 1 ∨ 3 < n := by omega
          rw [if_pos hrange]
          simp [hn, faultIn]

/-- A file is read where its header is legible and complete and lists as many samples as it says. -/
theorem parse_eq_ok_iff (file : String) (lines : List String) {spi : Spi1d S} :
    parse file (lines.map some) = .ok spi ↔
      LegibleHeader S (headerLines lines) ∧
        ∃ n l, lastCount? .components (headerLines lines) = some n ∧ (n = 1 ∨ n = 2 ∨ n = 3) ∧
          lastCount? .length (headerLines lines) = some l ∧ 2 ≤ l ∧
          (filledLines (linesInBraces lines)).length = l ∧
          (∀ line ∈ filledLines (linesInBraces lines), HoldsNumbers S n line) ∧
          spi = ⟨{ samples := ((filledLines (linesInBraces lines)).map
              fun line => spread (numbersIn line.toList)).toArray },
            (inputRange (headerLines lines)).1, (inputRange (headerLines lines)).2⟩ := by
  rcases hread : readHeader file (Header.empty : Header S) 1 (lines.map some) with
    e | ⟨header, next, body⟩
  · unfold parse
    rw [hread]
    constructor
    · intro h
      cases h
    · rintro ⟨hlegible, _⟩
      obtain ⟨n, hok⟩ := (readHeader_eq_ok_iff file (Header.empty : Header S) 1 lines).mpr
        ⟨forall_tagged_iff.mp hlegible.lines, rfl, rfl⟩
      rw [hread] at hok
      cases hok
  · obtain ⟨hlegible, rfl, rfl⟩ :=
      (readHeader_eq_ok_iff file (Header.empty : Header S) 1 lines).mp ⟨next, hread⟩
    rw [parse_eq_ok_iff_of_readHeader hread, foldl_note hlegible]
    constructor
    · rintro ⟨hversion, n, l, samples, hn, hrange, hl, hsize, hsamples, hcount, rfl⟩
      obtain ⟨hall, rfl⟩ := (readSamples_eq_ok_iff file hrange next _).mp hsamples
      rw [List.length_map] at hcount
      refine ⟨⟨?_, forall_tagged_iff.mpr hlegible⟩, n, l, hn, hrange, hl, hsize, hcount, hall, rfl⟩
      intro hnone
      rw [if_pos hnone] at hversion
      cases hversion
    · rintro ⟨hheader, n, l, hn, hrange, hl, hsize, hcount, hall, rfl⟩
      refine ⟨?_, n, l, _, hn, hrange, hl, hsize,
        (readSamples_eq_ok_iff file hrange next _).mpr ⟨hall, rfl⟩, ?_, rfl⟩
      · rw [if_neg hheader.version]
        rfl
      · rw [List.length_map]
        exact hcount

theorem readHeader_of_parse {file : String} {lines : List (Option String)} {spi : Spi1d S}
    (h : parse file lines = .ok spi) :
    ∃ header next body, readHeader file (Header.empty : Header S) 1 lines = .ok (header, next, body) ∧
      header.announced? = some spi.lut.size := by
  rcases hread : readHeader file (Header.empty : Header S) 1 lines with e | ⟨header, next, body⟩
  · unfold parse at h
    rw [hread] at h
    cases h
  · obtain ⟨hversion, n, l, samples, hn, hrange, hl, _, _, hcount, rfl⟩ :=
      (parse_eq_ok_iff_of_readHeader hread).mp h
    obtain ⟨version, hversion⟩ := Option.isSome_iff_exists.mp hversion
    have hcomponents : ¬ (n < 1 ∨ 3 < n) := by omega
    refine ⟨header, next, body, rfl, ?_⟩
    unfold Header.announced?
    rw [hversion, hl, hn]
    dsimp only
    rw [if_neg hcomponents, ← hcount]
    rfl

/-- A table is loaded where it is read, if there is room for its samples. -/
theorem load_eq_ok_iff {file : String} {lines : List (Option String)} {spi : Spi1d S} :
    load file lines = .ok spi ↔ parse file lines = .ok spi ∧ spi.lut.size ≤ room := by
  have hload : parse file lines = .ok spi →
      (load file lines = .ok spi ↔ spi.lut.size ≤ room) := by
    intro hspi
    obtain ⟨header, _, _, hread, hannounced⟩ := readHeader_of_parse hspi
    unfold load Header.makeRoom
    simp only [hread, hannounced, hspi, bind, Except.bind]
    by_cases hroom : room < spi.lut.size
    · simp [hroom]
    · simp [hroom, not_lt.mp hroom]
  constructor
  · intro h
    obtain ⟨_, _, hrest⟩ := exists_of_bind_eq_ok h
    obtain ⟨_, _, hspi⟩ := exists_of_bind_eq_ok hrest
    exact ⟨hspi, (hload hspi).mp h⟩
  · rintro ⟨hspi, hroom⟩
    exact (hload hspi).mpr hroom

/-! ## Whole texts -/

/-- A text is read where its header can be read and says its version, where it has one to three
components, and where the lines in its braces are as many as its length, at least two, each with
as many numbers as there are components. The samples are then those lines in their order, and
the last line with a range gives the inputs. Neither the order of lines with different tags nor
what is behind the braces counts. -/
theorem a_text_is_read_where_its_samples_are_as_its_header_says (file text : String) :
    let lines := Text.linesOf text
    let header := headerLines lines
    let samples := filledLines (linesInBraces lines)
    ((∃ spi : Spi1d S, parse file (Text.lines text.toUTF8) = .ok spi) ↔
      LegibleHeader S header ∧ ∃ n l, lastCount? .components header = some n ∧
        (n = 1 ∨ n = 2 ∨ n = 3) ∧ lastCount? .length header = some l ∧ 2 ≤ l ∧
        samples.length = l ∧ ∀ line ∈ samples, HoldsNumbers S n line) ∧
    (∀ spi : Spi1d S, parse file (Text.lines text.toUTF8) = .ok spi →
      spi.lut.samples.toList = samples.map (fun line => spread (numbersIn line.toList)) ∧
        (spi.fromMin, spi.fromMax) = inputRange header) ∧
    ∀ file' text' : String,
      (∀ t, tagged t (headerLines (Text.linesOf text')) = tagged t header) →
      linesInBraces (Text.linesOf text') = linesInBraces lines →
      ∀ spi : Spi1d S, parse file' (Text.lines text'.toUTF8) = .ok spi ↔
        parse file (Text.lines text.toUTF8) = .ok spi := by
  intro lines header samples
  simp only [Text.lines_toUTF8, parse_eq_ok_iff]
  refine ⟨?_, ?_, ?_⟩
  · constructor
    · rintro ⟨_, hheader, n, l, hcomponents, hn, hlength, hl, hcount, hnumbers, _⟩
      exact ⟨hheader, n, l, hcomponents, hn, hlength, hl, hcount, hnumbers⟩
    · rintro ⟨hheader, n, l, hcomponents, hn, hlength, hl, hcount, hnumbers⟩
      exact ⟨_, hheader, n, l, hcomponents, hn, hlength, hl, hcount, hnumbers, rfl⟩
  · rintro _ ⟨_, n, l, _, _, _, _, _, _, rfl⟩
    exact ⟨List.toList_toArray, rfl⟩
  · intro _ text' htagged hbraces spi
    rw [hbraces, LegibleHeader.congr htagged, lastCount?_congr (htagged .components),
      lastCount?_congr (htagged .length), inputRange_congr (htagged .range)]

end Samples

/-- A ramp of two samples. -/
def ramp : String := "Version 1\nLength 2\nComponents 1\n\x7b\n0\n1\n\x7d\n"

/-- The same ramp behind a header in another order, with more lines after the brace. -/
def rearranged : String :=
  "Components 1\nThe length comes last.\nVersion 1\nLength 2\n\x7b\n0\n1\n\x7d\nLength 3\n"

theorem linesOf_ramp : Text.linesOf ramp =
    ["Version 1", "Length 2", "Components 1", "\x7b", "0", "1", "\x7d"] := by
  rfl

theorem linesOf_rearranged : Text.linesOf rearranged =
    ["Components 1", "The length comes last.", "Version 1", "Length 2", "\x7b", "0", "1", "\x7d",
      "Length 3"] := by
  rfl

/-- The table of the ramp is read from both texts. -/
theorem a_ramp_is_read_from_a_header_in_any_order :
    ∃ spi : Spi1d Float32, parse "ramp.spi1d" (Text.lines ramp.toUTF8) = .ok spi ∧
      parse "rearranged.spi1d" (Text.lines rearranged.toUTF8) = .ok spi ∧
      spi.lut.samples.toList = ["0", "1"].map (fun line => spread (numbersIn line.toList)) ∧
      (spi.fromMin, spi.fromMax) = (0, 1) := by
  obtain ⟨haccept, hholds, hsame⟩ :=
    a_text_is_read_where_its_samples_are_as_its_header_says (S := Float32) "ramp.spi1d" ramp
  rw [linesOf_ramp] at haccept hholds hsame
  have hnumbers : ∀ line ∈ ["0", "1"], HoldsNumbers Float32 1 line := by
    intro line hline
    exact ⟨by revert line; decide, by revert line; decide⟩
  have hheader : LegibleHeader Float32 ["Version 1", "Length 2", "Components 1"] :=
    ⟨by decide, by intro t; cases t <;> decide⟩
  obtain ⟨spi, hspi⟩ := haccept.mpr ⟨hheader, 1, 2, by decide, .inl rfl, by decide, le_rfl,
    by decide, hnumbers⟩
  obtain ⟨hsamples, hrange⟩ := hholds spi hspi
  have hrearranged := hsame "rearranged.spi1d" rearranged
    (by rw [linesOf_rearranged]; intro t; cases t <;> decide)
    (by rw [linesOf_rearranged]; decide) spi
  exact ⟨spi, hspi, hrearranged.mpr hspi, hsamples, hrange⟩

end Spi1d

end ColorPipeline
