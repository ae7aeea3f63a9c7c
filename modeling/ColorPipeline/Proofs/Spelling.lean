-- Texts that can be read back in one way only. Cache IDs are words with spaces between them,
-- in brackets that are in no word; a number is a word, and never the dash of a missing bound.
import ColorPipeline.Proofs.Processors

namespace ColorPipeline

/-! ## Separators -/

/-- A separator that is in neither part shows where the parts end. -/
theorem append_cons_inj {α : Type} {sep : α} {a b x y : List α} (ha : sep ∉ a) (hb : sep ∉ b)
    (h : a ++ sep :: x = b ++ sep :: y) : a = b ∧ x = y := by
  induction a generalizing b with
  | nil =>
    rcases b with _ | ⟨c, b⟩
    · exact ⟨rfl, (List.cons.inj h).2⟩
    · have hc : sep = c := (List.cons.inj h).1
      exact absurd (hc ▸ List.mem_cons_self) hb
  | cons c a ih =>
    rw [List.mem_cons, not_or] at ha
    rcases b with _ | ⟨d, b⟩
    · exact absurd (List.cons.inj h).1.symm ha.1
    · rw [List.mem_cons, not_or] at hb
      obtain ⟨rfl, hrest⟩ := List.cons.inj h
      obtain ⟨rfl, rfl⟩ := ih ha.2 hb.2 hrest
      exact ⟨rfl, rfl⟩

/-- The last separator, where there is none in what comes after. -/
theorem append_cons_inj_right {α : Type} {sep : α} {a b x y : List α} (hx : sep ∉ x)
    (hy : sep ∉ y) (h : a ++ sep :: x = b ++ sep :: y) : a = b ∧ x = y := by
  have hreverse := congrArg List.reverse h
  simp only [List.reverse_append, List.reverse_cons, List.append_assoc, List.singleton_append]
    at hreverse
  obtain ⟨hrest, hfront⟩ := append_cons_inj (mt List.mem_reverse.mp hx) (mt List.mem_reverse.mp hy)
    hreverse
  exact ⟨List.reverse_injective hfront, List.reverse_injective hrest⟩

/-- A text without spaces, a space, and what comes after it. -/
theorem spaced_eq_iff {a b x y : String} (ha : ' ' ∉ a.toList) (hb : ' ' ∉ b.toList) :
    a ++ (" " ++ x) = b ++ (" " ++ y) ↔ a = b ∧ x = y := by
  constructor
  · intro h
    have hlist := congrArg String.toList h
    simp only [String.toList_append] at hlist
    obtain ⟨hword, hrest⟩ := append_cons_inj ha hb hlist
    exact ⟨String.toList_inj.mp hword, String.toList_inj.mp hrest⟩
  · rintro ⟨rfl, rfl⟩
    rfl

/-! ## Words -/

/-- The characters of words in cache IDs. -/
def isWordChar (c : Char) : Bool :=
  c.isAlphanum || c == '.' || c == '-' || c == '_' || c == '(' || c == ')'

/-- A text of such characters only. -/
def IsWord (s : String) : Prop := ∀ c ∈ s.toList, isWordChar c

instance (s : String) : Decidable (IsWord s) :=
  List.decidableBAll (fun c => isWordChar c = true) s.toList

/-- Words and spaces. -/
def IsPhrase (s : String) : Prop := ∀ c ∈ s.toList, isWordChar c ∨ c = ' '

instance (s : String) : Decidable (IsPhrase s) :=
  List.decidableBAll (fun c => isWordChar c = true ∨ c = ' ') s.toList

theorem IsWord.space_notMem {s : String} (h : IsWord s) : ' ' ∉ s.toList := fun hc =>
  absurd (h ' ' hc) (by decide)

theorem IsWord.isPhrase {s : String} (h : IsWord s) : IsPhrase s := fun c hc => .inl (h c hc)

theorem IsPhrase.append {s t : String} (hs : IsPhrase s) (ht : IsPhrase t) :
    IsPhrase (s ++ t) := by
  unfold IsPhrase
  rw [String.toList_append, List.forall_mem_append]
  exact ⟨hs, ht⟩

/-- A word in front of other words. -/
theorem IsWord.prepend {a x : String} (ha : IsWord a) (hx : IsPhrase x) :
    IsPhrase (a ++ (" " ++ x)) :=
  ha.isPhrase.append (IsPhrase.append (by decide) hx)

theorem isPhrase_intercalate {texts : List String} (h : ∀ t ∈ texts, IsPhrase t) :
    IsPhrase (" ".intercalate texts) := by
  induction texts with
  | nil => exact (by decide : IsPhrase "")
  | cons t texts ih =>
    rw [List.forall_mem_cons] at h
    cases texts with
    | nil =>
      rw [String.intercalate_singleton]
      exact h.1
    | cons u rest =>
      rw [String.intercalate_cons_cons]
      exact (h.1.append (by decide)).append (ih h.2)

/-- The first blank ends the first word. -/
theorem word_eq_iff {a b x y : String} (ha : IsWord a) (hb : IsWord b) :
    a ++ (" " ++ x) = b ++ (" " ++ y) ↔ a = b ∧ x = y :=
  spaced_eq_iff ha.space_notMem hb.space_notMem

/-- No word has a bracket. -/
theorem IsPhrase.notMem {s : String} (h : IsPhrase s) {c : Char} (hc : ¬ isWordChar c)
    (hspace : c ≠ ' ') : c ∉ s.toList := fun hmem =>
  (h c hmem).elim hc hspace

theorem isWordChar_of_isDigit {c : Char} (h : c.isDigit) : isWordChar c := by
  simp [isWordChar, Char.isAlphanum, h]

/-! ## Numbers -/

theorem Decimal.isDigit_wholeDigits {n : Nat} {c : Char} (h : c ∈ wholeDigits n) : c.isDigit :=
  Nat.isDigit_of_mem_toDigits (by decide) (by decide) h

/-- A decimal is digits and perhaps a point. -/
theorem Decimal.mem_positional {d : Decimal} {c : Char} (h : c ∈ d.positional) :
    c.isDigit ∨ c = '.' := by
  unfold positional at h
  extract_lets ds places padded whole at h
  have hpadded : ∀ c ∈ padded, c.isDigit := by
    intro c hc
    rcases List.mem_append.mp hc with hc | hc
    · rw [List.eq_of_mem_replicate hc]
      rfl
    · exact isDigit_wholeDigits hc
  split at h
  · rcases List.mem_append.mp h with h | h
    · exact .inl (isDigit_wholeDigits h)
    · rw [List.eq_of_mem_replicate h]
      exact .inl rfl
  · rcases List.mem_append.mp h with h | h
    · exact .inl (hpadded c (List.mem_of_mem_take h))
    · rcases List.mem_cons.mp h with h | h
      · exact .inr h
      · exact .inl (hpadded c (List.mem_of_mem_drop h))

theorem Decimal.positional_ne_nil (d : Decimal) : d.positional ≠ [] := by
  unfold positional
  extract_lets ds places padded whole
  split
  · exact List.append_ne_nil_of_left_ne_nil Nat.toDigits_ne_nil _
  · exact List.append_ne_nil_of_right_ne_nil _ (List.cons_ne_nil _ _)

/-- The plain form is a sign and a word without one. -/
theorem BinaryValue.exists_plain_eq (f : BinaryFormat) (v : BinaryValue) :
    ∃ negative cs, v.plain f = signed negative cs ∧ cs ≠ [] ∧
      ∀ c ∈ cs, c.isAlphanum ∨ c = '.' := by
  cases v with
  | nan => exact ⟨false, ['N', 'a', 'N'], rfl, by decide, by simp⟩
  | infinite negative => exact ⟨negative, ['i', 'n', 'f'], rfl, by decide, by simp⟩
  | finite negative m e =>
    refine ⟨negative, _, rfl, ?_, ?_⟩
    · split
      · decide
      · exact Decimal.positional_ne_nil _
    · intro c hc
      split at hc
      · rw [List.mem_singleton.mp hc]
        decide
      · rcases Decimal.mem_positional hc with hdigit | hpoint
        · simp [Char.isAlphanum, hdigit]
        · exact .inr hpoint

section Numbers

variable {P : Type} [Stored P]

theorem Stored.isWord_plain (v : P) : IsWord (plain v) := by
  obtain ⟨negative, cs, hplain, _, hcs⟩ := BinaryValue.exists_plain_eq (format P) (value v)
  have hword : ∀ c ∈ cs, isWordChar c := by
    intro c hc
    rcases hcs c hc with halnum | rfl
    · simp [isWordChar, halnum]
    · decide
  unfold plain IsWord
  rw [hplain, BinaryValue.signed, String.toList_ofList]
  cases negative
  · exact hword
  · exact List.forall_mem_cons.mpr ⟨by decide, hword⟩

/-- A number is not written as the dash that stands for a missing bound. -/
theorem Stored.plain_ne_dash (v : P) : plain v ≠ "-" := by
  obtain ⟨negative, cs, hplain, hne, hcs⟩ := BinaryValue.exists_plain_eq (format P) (value v)
  unfold plain
  rw [hplain, BinaryValue.signed]
  intro h
  have hlist := congrArg String.toList h
  rw [String.toList_ofList] at hlist
  cases negative
  · change cs = ['-'] at hlist
    rw [hlist] at hcs
    exact absurd (hcs '-' (List.mem_singleton_self '-')) (by decide)
  · change '-' :: cs = ['-'] at hlist
    exact hne (List.cons.inj hlist).2

theorem Fingerprint.isWord_number [Scalar P] (v : P) : IsWord (number v) := Stored.isWord_plain _

end Numbers

theorem isWord_repr (n : Nat) : IsWord n.repr := by
  intro c hc
  rw [Nat.toList_repr] at hc
  exact isWordChar_of_isDigit (Nat.isDigit_of_mem_toDigits (by decide) (by decide) hc)

/-! ## Digests -/

theorem Sha256.isWord_hex (message : ByteArray) : IsWord (hex message) := by
  unfold hex IsWord
  extract_lets bytes s
  rw [String.toList_ofList]
  intro c hc
  obtain ⟨w, _, hc⟩ := List.mem_flatMap.mp hc
  obtain ⟨i, _, rfl⟩ := List.mem_map.mp hc
  have hdigits : ∀ n < 16, isWordChar (Nat.digitChar n) := by decide
  exact hdigits _ (Nat.mod_lt _ (by decide))

/-! ## Names -/

theorem Interpolation.isWord_name (i : Interpolation) : IsWord i.name := by
  cases i <;> decide

theorem Direction.isWord_name (d : Direction) : IsWord d.name := by
  cases d <;> decide

theorem NegativeStyle.isWord_name (s : NegativeStyle) : IsWord s.name := by
  cases s <;> decide

theorem FixedFunctionStyle.isPhrase_name (s : FixedFunctionStyle) : IsPhrase s.name := by
  obtain ⟨f, d⟩ := s
  cases f <;> cases d <;> decide

theorem FixedFunctionStyle.ofName?_name (s : FixedFunctionStyle) : ofName? s.name = some s := by
  obtain ⟨f, d⟩ := s
  cases f <;> cases d <;> decide

theorem FixedFunctionStyle.name_eq_iff {s t : FixedFunctionStyle} : s.name = t.name ↔ s = t := by
  refine ⟨fun h => ?_, congrArg name⟩
  have hname := congrArg ofName? h
  rw [ofName?_name, ofName?_name] at hname
  exact Option.some.inj hname

/-- The names of the surround functions, and no others, begin alike. -/
theorem FixedFunctionStyle.take_name_iff (s : FixedFunctionStyle) :
    s.name.toList.take 3 = ['R', 'E', 'C'] ↔ s.family = .surround2100 := by
  obtain ⟨f, d⟩ := s
  cases f <;> cases d <;> decide

/-- The two names that a parameter follows have one length. -/
theorem FixedFunctionStyle.length_name {s : FixedFunctionStyle} (h : s.family = .surround2100) :
    s.name.toList.length = 26 := by
  obtain ⟨f, d⟩ := s
  cases h
  cases d <;> decide

theorem Interpolation.name_eq_iff {i j : Interpolation} : i.name = j.name ↔ i = j := by
  refine ⟨fun h => ?_, congrArg name⟩
  cases i <;> cases j <;> first | rfl | exact absurd h (by decide)

theorem Direction.name_eq_iff {d e : Direction} : d.name = e.name ↔ d = e := by
  refine ⟨fun h => ?_, congrArg name⟩
  cases d <;> cases e <;> first | rfl | exact absurd h (by decide)

theorem NegativeStyle.name_eq_iff {s t : NegativeStyle} : s.name = t.name ↔ s = t := by
  refine ⟨fun h => ?_, congrArg name⟩
  cases s <;> cases t <;> first | rfl | exact absurd h (by decide)

theorem OpKind.isWord_name (k : OpKind) : IsWord k.name := by
  cases k <;> decide

theorem OpKind.name_inj {k k' : OpKind} (h : k.name = k'.name) : k = k' := by
  cases k <;> cases k' <;> first | rfl | exact absurd h (by decide)

/-! ## Cache IDs -/

/-- Words in angle brackets. -/
def IsBracketed (s : String) : Prop := ∃ inner, s = "<" ++ (inner ++ ">") ∧ IsPhrase inner

/-- The closing bracket shows where a part in brackets ends. -/
theorem bracketed_append_inj {a b x y : String} (ha : IsBracketed a) (hb : IsBracketed b)
    (h : a ++ x = b ++ y) : a = b ∧ x = y := by
  obtain ⟨inner, rfl, hinner⟩ := ha
  obtain ⟨inner', rfl, hinner'⟩ := hb
  simp only [String.append_assoc, String.append_right_inj] at h
  have hlist := congrArg String.toList h
  simp only [String.toList_append] at hlist
  obtain ⟨hsame, hrest⟩ := append_cons_inj (hinner.notMem (by decide) (by decide))
    (hinner'.notMem (by decide) (by decide)) hlist
  rw [String.toList_inj.mp hsame]
  exact ⟨rfl, String.toList_inj.mp hrest⟩

theorem intercalate_cons (a : String) (as : List String) :
    " ".intercalate (a :: as) = a ++ if as = [] then "" else " " ++ " ".intercalate as := by
  cases as with
  | nil => rw [String.intercalate_singleton, if_pos rfl, String.append_empty]
  | cons b rest =>
    rw [String.intercalate_cons_cons, if_neg (List.cons_ne_nil _ _), String.append_assoc]

theorem IsBracketed.append_ne_empty {a : String} (ha : IsBracketed a) (x : String) :
    a ++ x ≠ "" := by
  obtain ⟨inner, rfl, _⟩ := ha
  intro h
  have hlist := congrArg String.toList h
  simp only [String.toList_append, List.append_assoc] at hlist
  cases hlist

/-- A list of parts in brackets is told by its text. -/
theorem intercalate_inj {as bs : List String} (has : ∀ a ∈ as, IsBracketed a)
    (hbs : ∀ b ∈ bs, IsBracketed b) (h : " ".intercalate as = " ".intercalate bs) : as = bs := by
  induction as generalizing bs with
  | nil =>
    cases bs with
    | nil => rfl
    | cons b bs =>
      rw [intercalate_cons] at h
      exact absurd h.symm ((List.forall_mem_cons.mp hbs).1.append_ne_empty _)
  | cons a as ih =>
    cases bs with
    | nil =>
      rw [intercalate_cons] at h
      exact absurd h ((List.forall_mem_cons.mp has).1.append_ne_empty _)
    | cons b bs =>
      rw [List.forall_mem_cons] at has hbs
      rw [intercalate_cons, intercalate_cons] at h
      obtain ⟨rfl, hrest⟩ := bracketed_append_inj has.1 hbs.1 h
      by_cases has' : as = [] <;> by_cases hbs' : bs = []
      · rw [has', hbs']
      · rw [if_pos has', if_neg hbs'] at hrest
        exact absurd (congrArg String.toList hrest) (by simp)
      · rw [if_neg has', if_pos hbs'] at hrest
        exact absurd (congrArg String.toList hrest) (by simp)
      · rw [if_neg has', if_neg hbs'] at hrest
        rw [ih has.2 hbs.2 ((String.append_right_inj _).mp hrest)]

/-- Parts in angle brackets have no square ones. -/
theorem square_notMem_intercalate {parts : List String} (h : ∀ a ∈ parts, IsBracketed a) :
    '[' ∉ (" ".intercalate parts).toList := by
  induction parts with
  | nil => exact List.not_mem_nil
  | cons a parts ih =>
    rw [List.forall_mem_cons] at h
    obtain ⟨⟨inner, rfl, hinner⟩, hparts⟩ := h
    have hbracket : '[' ∉ inner.toList := hinner.notMem (by decide) (by decide)
    have hrest : '[' ∉ (if parts = [] then "" else " " ++ " ".intercalate parts).toList := by
      split
      · exact List.not_mem_nil
      · rw [String.toList_append, List.mem_append, not_or]
        exact ⟨by decide, ih hparts⟩
    rw [intercalate_cons, String.toList_append, List.mem_append, not_or]
    exact ⟨by simp [hbracket], hrest⟩

namespace Op

variable {P S : Type} [Scalar P] [Scalar S] [Stored P] [Precision P S]

theorem Reachable.cacheId_eq {op : Op P S} (h : op.Reachable) (hid : op.isFinalized) :
    op.cacheId = finalId op.data := by
  rw [← (h.of_isFinalized hid).2]
  rfl

omit [Scalar S] in
/-- A finalized ID tells the kind and the ID of the parameters. -/
theorem finalId_inj {d e : OpData P S} (h : finalId d = finalId e) :
    d.kind = e.kind ∧ d.cacheId = e.cacheId := by
  have hparts : "<" ++ d.kind.name ++ " " ++ d.cacheId ++ " >" =
      "<" ++ e.kind.name ++ " " ++ e.cacheId ++ " >" := h
  simp only [String.append_assoc, String.append_right_inj] at hparts
  obtain ⟨hkind, hid⟩ := (word_eq_iff d.kind.isWord_name e.kind.isWord_name).mp hparts
  exact ⟨OpKind.name_inj hkind, (String.append_left_inj _).mp hid⟩

end Op

end ColorPipeline
