-- What a cache ID tells. The ID of a pipeline can be cut into the IDs of its ops, these into
-- words, and the words give the parameters back, as far as digests and printed numbers do.
import ColorPipeline.Proofs.Checks
import ColorPipeline.Proofs.MachineNumbers
import ColorPipeline.Proofs.Spelling

open scoped ColorPipeline.Scalar

namespace ColorPipeline

/-- Numbers that are equal one by one. -/
def SameNumbers {R : Type} [Scalar R] (vs ws : List R) : Prop :=
  List.Forall₂ (fun v w => v == w) vs ws

instance {R : Type} [Scalar R] (vs ws : List R) : Decidable (SameNumbers vs ws) :=
  inferInstanceAs (Decidable (List.Forall₂ _ vs ws))

/-! ## Messages -/

namespace Fingerprint

/-- The bytes of a pattern, lowest first. -/
def patternBytes (bits : Nat) : List UInt8 :=
  (List.range 8).map fun i => UInt8.ofNat (bits >>> (8 * i))

theorem patternBytes_append_ne_nil (bits : Nat) (rest : List UInt8) :
    patternBytes bits ++ rest ≠ [] :=
  List.append_ne_nil_of_left_ne_nil (List.cons_ne_nil _ _) rest

/-- Eight bytes give their pattern back, up to what 64 bits can hold. -/
theorem patternBytes_inj {a b : Nat} (h : patternBytes a = patternBytes b) :
    a % 2 ^ 64 = b % 2 ^ 64 := by
  have hbytes : ∀ i < 8, a >>> (8 * i) % 2 ^ 8 = b >>> (8 * i) % 2 ^ 8 := by
    intro i hi
    have hbyte := congrArg UInt8.toNat (List.map_inj_left.mp h i (List.mem_range.mpr hi))
    rwa [UInt8.toNat_ofNat', UInt8.toNat_ofNat'] at hbyte
  apply Nat.eq_of_testBit_eq
  intro i
  rw [Nat.testBit_mod_two_pow, Nat.testBit_mod_two_pow]
  by_cases hi : i < 64
  · have hbit := congrArg (fun n => n.testBit (i % 8)) (hbytes (i / 8) (by omega))
    simp only [Nat.testBit_mod_two_pow, Nat.testBit_shiftRight, Nat.div_add_mod] at hbit
    simpa [hi, Nat.mod_lt] using hbit
  · simp [hi]

theorem toList_pushPattern (bytes : ByteArray) (bits : Nat) :
    (pushPattern bytes bits).data.toList = bytes.data.toList ++ patternBytes bits := by
  have hpush : pushPattern bytes bits =
      (patternBytes bits).foldl (fun bs b => bs.push b) bytes := rfl
  rw [hpush]
  clear hpush
  generalize patternBytes bits = new
  induction new generalizing bytes with
  | nil => exact (List.append_nil _).symm
  | cons b new ih =>
    rw [List.foldl_cons, ih, ByteArray.data_push, Array.toList_push, List.append_assoc]
    rfl

variable {P : Type} [Scalar P] [Stored P]

/-- A message is the patterns of its numbers in a row, with a zero for each negative zero. -/
theorem toList_message (vs : List P) :
    (message vs).data.toList = vs.flatMap fun v => patternBytes (Stored.bits (v + 0)) := by
  have hfold : ∀ bytes : ByteArray,
      (vs.foldl (fun bytes v => pushPattern bytes (Stored.bits (v + 0))) bytes).data.toList =
        bytes.data.toList ++ vs.flatMap fun v => patternBytes (Stored.bits (v + 0)) := by
    induction vs with
    | nil => exact fun bytes => (List.append_nil _).symm
    | cons v vs ih =>
      intro bytes
      rw [List.foldl_cons, ih, toList_pushPattern, List.append_assoc, List.flatMap_cons]
  exact hfold ByteArray.empty

variable {R : Type} [Scalar R] {f : R → P}

/-- Equal messages are of equal numbers. -/
theorem sameNumbers_of_message (hf : Patterned f) {vs ws : List R}
    (hvs : ∀ v ∈ vs, Scalar.isFinite v) (hws : ∀ w ∈ ws, Scalar.isFinite w)
    (h : message (vs.map f) = message (ws.map f)) : SameNumbers vs ws := by
  have hbytes := congrArg (fun m => m.data.toList) h
  simp only [toList_message] at hbytes
  clear h
  induction vs generalizing ws with
  | nil =>
    cases ws with
    | nil => exact .nil
    | cons w ws => exact absurd hbytes.symm (patternBytes_append_ne_nil _ _)
  | cons v vs ih =>
    cases ws with
    | nil => exact absurd hbytes (patternBytes_append_ne_nil _ _)
    | cons w ws =>
      rw [List.map_cons, List.map_cons, List.flatMap_cons, List.flatMap_cons] at hbytes
      rw [List.forall_mem_cons] at hvs hws
      obtain ⟨hfirst, hrest⟩ := List.append_inj hbytes rfl
      exact .cons (hf.beq_of_bits hvs.1 hws.1 (patternBytes_inj hfirst))
        (ih hvs.2 hws.2 hrest)

theorem message_of_sameNumbers (hf : Patterned f) {vs ws : List R} (h : SameNumbers vs ws) :
    message (vs.map f) = message (ws.map f) := by
  apply ByteArray.ext
  apply Array.toList_inj.mp
  rw [toList_message, toList_message]
  induction h with
  | nil => rfl
  | cons hfirst _ ih =>
    rw [List.map_cons, List.map_cons, List.flatMap_cons, List.flatMap_cons,
      hf.add_zero_eq hfirst, ih]

/-- Different messages have different digests. -/
def DigestedApart (m n : ByteArray) : Prop := Sha256.hex m = Sha256.hex n → m = n

/-- Digests tell lists of numbers apart where they tell the messages of the lists apart. -/
theorem digest_eq_iff (hf : Patterned f) {vs ws : List R} (hvs : ∀ v ∈ vs, Scalar.isFinite v)
    (hws : ∀ w ∈ ws, Scalar.isFinite w)
    (h : DigestedApart (message (vs.map f)) (message (ws.map f))) :
    digest (vs.map f) = digest (ws.map f) ↔ SameNumbers vs ws :=
  ⟨fun heq => sameNumbers_of_message hf hvs hws (h heq),
    fun hsame => congrArg Sha256.hex (message_of_sameNumbers hf hsame)⟩

end Fingerprint

/-! ## Parameters of each kind -/

/-- The plain form tells two numbers apart. -/
def PrintedApart {P : Type} [Scalar P] [Stored P] (v w : P) : Prop :=
  Fingerprint.number v = Fingerprint.number w → v == w

section Parameters

variable {P : Type} [Scalar P] [Stored P] (hadd : Patterned (id : P → P))
include hadd

theorem number_eq_iff {v w : P} (h : PrintedApart v w) :
    Fingerprint.number v = Fingerprint.number w ↔ v == w :=
  ⟨h, fun heq => congrArg Stored.plain (hadd.add_zero_eq heq)⟩

/-! ### Ranges -/

namespace RangeOp

omit hadd in
theorem isWord_boundId (b : Option P) : IsWord (boundId b) := by
  cases b with
  | none => exact (by decide : IsWord "-")
  | some v => exact Fingerprint.isWord_number v

theorem boundId_eq_iff {b c : Option P} (h : ∀ v ∈ b, ∀ w ∈ c, PrintedApart v w) :
    boundId b = boundId c ↔ sameBound b c := by
  cases b with
  | none =>
    cases c with
    | none => exact iff_of_true rfl rfl
    | some w => exact iff_of_false (fun heq => Stored.plain_ne_dash _ heq.symm) Bool.false_ne_true
  | some v =>
    cases c with
    | none => exact iff_of_false (Stored.plain_ne_dash _) Bool.false_ne_true
    | some w => exact number_eq_iff hadd (h v rfl w rfl)

/-- The same bounds are set, and they are equal. -/
def Same (a b : RangeOp P) : Prop :=
  sameBound a.minIn b.minIn ∧ sameBound a.maxIn b.maxIn ∧ sameBound a.minOut b.minOut ∧
    sameBound a.maxOut b.maxOut

omit [Scalar P] [Stored P] hadd in
theorem mem_bounds_of {r : RangeOp P} {b : Option P}
    (hb : b ∈ [r.minIn, r.maxIn, r.minOut, r.maxOut]) {v : P} (hv : v ∈ b) : v ∈ r.bounds :=
  List.mem_filterMap.mpr ⟨b, hb, hv⟩

omit hadd in
theorem cacheId_eq (r : RangeOp P) : r.cacheId = boundId r.minIn ++ (" " ++ (boundId r.maxIn ++
    (" " ++ (boundId r.minOut ++ (" " ++ boundId r.maxOut))))) := by
  change boundId r.minIn ++ " " ++ boundId r.maxIn ++ " " ++ boundId r.minOut ++ " " ++
    boundId r.maxOut = _
  simp only [String.append_assoc]

theorem cacheId_eq_iff {a b : RangeOp P} (h : ∀ v ∈ a.bounds, ∀ w ∈ b.bounds, PrintedApart v w) :
    a.cacheId = b.cacheId ↔ a.Same b := by
  have hbound : ∀ {x y : Option P}, x ∈ [a.minIn, a.maxIn, a.minOut, a.maxOut] →
      y ∈ [b.minIn, b.maxIn, b.minOut, b.maxOut] → (boundId x = boundId y ↔ sameBound x y) :=
    fun hx hy => boundId_eq_iff hadd fun v hv w hw =>
      h v (mem_bounds_of hx hv) w (mem_bounds_of hy hw)
  unfold Same
  rw [cacheId_eq, cacheId_eq, word_eq_iff (isWord_boundId _) (isWord_boundId _),
    word_eq_iff (isWord_boundId _) (isWord_boundId _),
    word_eq_iff (isWord_boundId _) (isWord_boundId _), hbound (by simp) (by simp),
    hbound (by simp) (by simp), hbound (by simp) (by simp), hbound (by simp) (by simp)]

end RangeOp

/-! ### Exponents and logarithms -/

namespace ExponentOp

def Same (a b : ExponentOp P) : Prop :=
  SameNumbers a.value.toList b.value.toList ∧ a.style = b.style

omit hadd in
theorem cacheId_eq (e : ExponentOp P) : e.cacheId = Fingerprint.number e.value.red ++ (" " ++
    (Fingerprint.number e.value.green ++ (" " ++ (Fingerprint.number e.value.blue ++ (" " ++
      (Fingerprint.number e.value.alpha ++ (" " ++ e.style.name))))))) := by
  change " ".intercalate [_, _, _, _, _] = _
  simp only [String.intercalate_cons_cons, String.intercalate_singleton, String.append_assoc]

theorem cacheId_eq_iff {a b : ExponentOp P}
    (h : ∀ v ∈ a.value.toList, ∀ w ∈ b.value.toList, PrintedApart v w) :
    a.cacheId = b.cacheId ↔ a.Same b := by
  have hword : ∀ v : P, IsWord (Fingerprint.number v) := Fingerprint.isWord_number
  unfold Same SameNumbers
  rw [cacheId_eq, cacheId_eq, word_eq_iff (hword _) (hword _), word_eq_iff (hword _) (hword _),
    word_eq_iff (hword _) (hword _), word_eq_iff (hword _) (hword _), NegativeStyle.name_eq_iff,
    number_eq_iff hadd (h _ (by simp [Rgba.toList]) _ (by simp [Rgba.toList])),
    number_eq_iff hadd (h _ (by simp [Rgba.toList]) _ (by simp [Rgba.toList])),
    number_eq_iff hadd (h _ (by simp [Rgba.toList]) _ (by simp [Rgba.toList])),
    number_eq_iff hadd (h _ (by simp [Rgba.toList]) _ (by simp [Rgba.toList]))]
  simp only [Rgba.toList, List.forall₂_cons, List.forall₂_nil_left_iff, and_true, and_assoc]

end ExponentOp

namespace LogOp

def Same (a b : LogOp P) : Prop := a.base == b.base ∧ a.direction = b.direction

omit hadd in
theorem cacheId_eq (l : LogOp P) :
    l.cacheId = Fingerprint.number l.base ++ (" " ++ l.direction.name) := by
  change Fingerprint.number l.base ++ " " ++ l.direction.name = _
  rw [String.append_assoc]

theorem cacheId_eq_iff {a b : LogOp P} (h : PrintedApart a.base b.base) :
    a.cacheId = b.cacheId ↔ a.Same b := by
  unfold Same
  rw [cacheId_eq, cacheId_eq,
    word_eq_iff (Fingerprint.isWord_number _) (Fingerprint.isWord_number _),
    number_eq_iff hadd h, Direction.name_eq_iff]

end LogOp

/-! ### Fixed functions -/

namespace FixedFunctionOp

def Same (a b : FixedFunctionOp P) : Prop :=
  a.style = b.style ∧ SameNumbers a.parameters b.parameters

omit [Stored P] hadd in
/-- A surround has one parameter, the other functions none. -/
theorem parameters_of_validate {f : FixedFunctionOp P} (h : f.validate = .ok ()) :
    f.style.family = .surround2100 ∧ (∃ v, f.parameters = [v]) ∨
      f.style.family ≠ .surround2100 ∧ f.parameters = [] := by
  unfold validate isSurround at h
  split at h
  · rename_i hsurround
    refine .inl ⟨beq_iff_eq.mp hsurround, ?_⟩
    split at h
    · rename_i v hv
      exact ⟨v, hv⟩
    · cases h
  · rename_i hother
    refine .inr ⟨fun hfamily => hother (beq_iff_eq.mpr hfamily), ?_⟩
    split at h
    · assumption
    · cases h

omit hadd in
theorem cacheId_surround {f : FixedFunctionOp P} {v : P} (h : f.parameters = [v]) :
    f.cacheId = f.style.name ++ (" " ++ Fingerprint.number v) := by
  unfold cacheId
  rw [h, List.map_singleton, String.intercalate_cons_cons, String.intercalate_singleton,
    String.append_assoc]

omit hadd in
theorem cacheId_other {f : FixedFunctionOp P} (h : f.parameters = []) :
    f.cacheId = f.style.name := by
  unfold cacheId
  rw [h, List.map_nil, String.intercalate_singleton]

omit hadd in
/-- What a cache ID begins with tells the functions with a parameter. -/
theorem surround_of_cacheId {a b : FixedFunctionOp P} (h : a.cacheId = b.cacheId)
    (ha : a.style.family = .surround2100) {v : P} (hv : a.parameters = [v])
    (hb : b.parameters = []) : b.style.family = .surround2100 := by
  rw [cacheId_surround hv, cacheId_other hb] at h
  have hlist := congrArg (fun s => s.toList.take 3) h
  have hlength := FixedFunctionStyle.length_name ha
  simp only [String.toList_append] at hlist
  rw [List.take_append_of_le_length (by omega), a.style.take_name_iff.mpr ha] at hlist
  exact b.style.take_name_iff.mp hlist.symm

theorem cacheId_eq_iff {a b : FixedFunctionOp P} (ha : a.validate = .ok ())
    (hb : b.validate = .ok ()) (h : ∀ v ∈ a.parameters, ∀ w ∈ b.parameters, PrintedApart v w) :
    a.cacheId = b.cacheId ↔ a.Same b := by
  unfold Same SameNumbers
  rcases parameters_of_validate ha with ⟨hfamily, v, hv⟩ | ⟨hfamily, hv⟩ <;>
    rcases parameters_of_validate hb with ⟨hfamily', w, hw⟩ | ⟨hfamily', hw⟩
  · rw [cacheId_surround hv, cacheId_surround hw, hv, hw, List.forall₂_cons,
      ← number_eq_iff hadd (h v (by simp [hv]) w (by simp [hw]))]
    constructor
    · intro heq
      have hlist := congrArg String.toList heq
      simp only [String.toList_append] at hlist
      obtain ⟨hname, hrest⟩ := List.append_inj hlist (by
        rw [FixedFunctionStyle.length_name hfamily, FixedFunctionStyle.length_name hfamily'])
      exact ⟨FixedFunctionStyle.name_eq_iff.mp (String.toList_inj.mp hname),
        String.toList_inj.mp (List.append_cancel_left hrest), .nil⟩
    · rintro ⟨hstyle, hnumber, -⟩
      rw [hstyle, hnumber]
  · refine iff_of_false (fun heq => hfamily' (surround_of_cacheId heq hfamily hv hw)) ?_
    rintro ⟨hstyle, -⟩
    exact hfamily' (hstyle ▸ hfamily)
  · refine iff_of_false (fun heq => hfamily (surround_of_cacheId heq.symm hfamily' hw hv)) ?_
    rintro ⟨hstyle, -⟩
    exact hfamily (hstyle ▸ hfamily')
  · rw [cacheId_other hv, cacheId_other hw, hv, hw, FixedFunctionStyle.name_eq_iff]
    exact ⟨fun heq => ⟨heq, .nil⟩, fun hsame => hsame.1⟩

end FixedFunctionOp

/-! ### Matrices -/

namespace MatrixOp

def Same (a b : MatrixOp P) : Prop := SameNumbers a.numbers b.numbers

omit [Stored P] hadd in
theorem isFinite_of_validate {m : MatrixOp P} (h : m.validate = .ok ()) :
    ∀ v ∈ m.numbers, Scalar.isFinite v := by
  unfold validate at h
  split at h
  · rename_i hall
    exact List.all_eq_true.mp hall
  · cases h

theorem cacheId_eq_iff {a b : MatrixOp P} (ha : a.validate = .ok ()) (hb : b.validate = .ok ())
    (h : Fingerprint.DigestedApart (Fingerprint.message a.numbers)
      (Fingerprint.message b.numbers)) :
    a.cacheId = b.cacheId ↔ a.Same b := by
  rw [← List.map_id a.numbers, ← List.map_id b.numbers] at h
  have hdigest := Fingerprint.digest_eq_iff hadd (isFinite_of_validate ha)
    (isFinite_of_validate hb) h
  rwa [List.map_id, List.map_id] at hdigest

end MatrixOp

end Parameters

/-! ### Tables -/

section Tables

variable {P S : Type} [Scalar P] [Scalar S] [Stored P] [Precision P S]

/-- What the digest of a table is made of. -/
def tableMessage (P : Type) [Scalar P] [Stored P] [Precision P S] (entries : Array (Rgb S)) :
    ByteArray :=
  Fingerprint.message ((tableNumbers entries).map (Precision.widen (P := P)))

omit [Scalar S] in
theorem isWord_tableDigest (entries : Array (Rgb S)) : IsWord (tableDigest P entries) :=
  Sha256.isWord_hex _

variable (hwiden : Patterned (Precision.widen : S → P))
include hwiden

namespace Lut1DOp

/-- The same samples, interpolation and direction. -/
def Same (a b : Lut1DOp S) : Prop :=
  SameNumbers (tableNumbers a.lut.samples) (tableNumbers b.lut.samples) ∧
    a.lut.interpolation = b.lut.interpolation ∧ a.direction = b.direction

omit [Scalar S] hwiden in
theorem cacheId_eq (l : Lut1DOp S) : l.cacheId P = tableDigest P l.lut.samples ++
    (" " ++ (l.lut.interpolation.name ++ (" " ++ l.direction.name))) := by
  change tableDigest P l.lut.samples ++ " " ++ l.lut.interpolation.name ++ " " ++
    l.direction.name = _
  simp only [String.append_assoc]

theorem cacheId_eq_iff {a b : Lut1DOp S} (ha : (a.validate : Except (OpError P) Unit) = .ok ())
    (hb : (b.validate : Except (OpError P) Unit) = .ok ())
    (h : Fingerprint.DigestedApart (tableMessage P a.lut.samples) (tableMessage P b.lut.samples)) :
    a.cacheId P = b.cacheId P ↔ a.Same b := by
  unfold Same
  rw [cacheId_eq, cacheId_eq, word_eq_iff (isWord_tableDigest _) (isWord_tableDigest _),
    word_eq_iff (Interpolation.isWord_name _) (Interpolation.isWord_name _),
    Interpolation.name_eq_iff, Direction.name_eq_iff]
  exact and_congr_left' (Fingerprint.digest_eq_iff hwiden ((validate_iff a).mp ha).2.1
    ((validate_iff b).mp hb).2.1 h)

end Lut1DOp

namespace Lut3DOp

/-- The same entries, size, interpolation and direction. -/
def Same (a b : Lut3DOp S) : Prop :=
  SameNumbers (tableNumbers a.lut.entries) (tableNumbers b.lut.entries) ∧
    a.lut.size = b.lut.size ∧ a.lut.interpolation = b.lut.interpolation ∧
      a.direction = b.direction

omit [Scalar P] [Stored P] [Precision P S] hwiden in
theorem isFinite_of_validate {l : Lut3DOp S}
    (h : (l.validate : Except (OpError P) Unit) = .ok ()) :
    ∀ v ∈ tableNumbers l.lut.entries, Scalar.isFinite v := (l.validate_iff.mp h).2.2

omit [Scalar S] hwiden in
theorem cacheId_eq (l : Lut3DOp S) : l.cacheId P = tableDigest P l.lut.entries ++ (" " ++
    (l.lut.size.repr ++ (" " ++ (l.lut.interpolation.name ++ (" " ++ l.direction.name))))) := by
  change tableDigest P l.lut.entries ++ " " ++ l.lut.size.repr ++ " " ++
    l.lut.interpolation.name ++ " " ++ l.direction.name = _
  simp only [String.append_assoc]

theorem cacheId_eq_iff {a b : Lut3DOp S} (ha : (a.validate : Except (OpError P) Unit) = .ok ())
    (hb : (b.validate : Except (OpError P) Unit) = .ok ())
    (h : Fingerprint.DigestedApart (tableMessage P a.lut.entries) (tableMessage P b.lut.entries)) :
    a.cacheId P = b.cacheId P ↔ a.Same b := by
  unfold Same
  rw [cacheId_eq, cacheId_eq, word_eq_iff (isWord_tableDigest _) (isWord_tableDigest _),
    word_eq_iff (isWord_repr _) (isWord_repr _),
    word_eq_iff (Interpolation.isWord_name _) (Interpolation.isWord_name _),
    Nat.repr_inj, Interpolation.name_eq_iff, Direction.name_eq_iff]
  exact and_congr_left' (Fingerprint.digest_eq_iff hwiden (isFinite_of_validate ha)
    (isFinite_of_validate hb) h)

end Lut3DOp

end Tables

/-! ## Parameters of any kind -/

section Data

variable {P S : Type} [Scalar P] [Scalar S] [Stored P] [Precision P S]

namespace OpData

/-- The same kind and the same parameters, up to the signs of zeros. -/
def Same : OpData P S → OpData P S → Prop
  | matrix a, matrix b => a.Same b
  | range a, range b => a.Same b
  | exponent a, exponent b => a.Same b
  | log a, log b => a.Same b
  | lut1D a, lut1D b => a.Same b
  | lut3D a, lut3D b => a.Same b
  | fixedFunction a, fixedFunction b => a.Same b
  | _, _ => False

/-- The numbers that stand in a cache ID. -/
def printed : OpData P S → List P
  | range r => r.bounds
  | exponent e => e.value.toList
  | log l => [l.base]
  | fixedFunction f => f.parameters
  | _ => []

/-- What the digest in a cache ID is made of. -/
def digested : OpData P S → List ByteArray
  | matrix m => [Fingerprint.message m.numbers]
  | lut1D l => [tableMessage P l.lut.samples]
  | lut3D l => [tableMessage P l.lut.entries]
  | _ => []

/-- The digests and the plain forms of numbers tell what they are made from. -/
structure TellsApart (d e : OpData P S) : Prop where
  digests : ∀ m ∈ d.digested, ∀ n ∈ e.digested, Fingerprint.DigestedApart m n
  numbers : ∀ v ∈ d.printed, ∀ w ∈ e.printed, PrintedApart v w

omit [Scalar S] in
/-- The text of parameters is words and spaces. -/
theorem isPhrase_cacheId (d : OpData P S) : IsPhrase d.cacheId := by
  have hnumber : ∀ v : P, IsWord (Fingerprint.number v) := Fingerprint.isWord_number
  cases d with
  | matrix m => exact (Sha256.isWord_hex _).isPhrase
  | range r =>
    change IsPhrase r.cacheId
    rw [RangeOp.cacheId_eq]
    exact (RangeOp.isWord_boundId _).prepend ((RangeOp.isWord_boundId _).prepend
      ((RangeOp.isWord_boundId _).prepend (RangeOp.isWord_boundId _).isPhrase))
  | exponent e =>
    change IsPhrase e.cacheId
    rw [ExponentOp.cacheId_eq]
    exact (hnumber _).prepend ((hnumber _).prepend ((hnumber _).prepend ((hnumber _).prepend
      e.style.isWord_name.isPhrase)))
  | log l =>
    change IsPhrase l.cacheId
    rw [LogOp.cacheId_eq]
    exact (hnumber _).prepend l.direction.isWord_name.isPhrase
  | lut1D l =>
    change IsPhrase (l.cacheId P)
    rw [Lut1DOp.cacheId_eq]
    exact (isWord_tableDigest _).prepend (l.lut.interpolation.isWord_name.prepend
      l.direction.isWord_name.isPhrase)
  | lut3D l =>
    change IsPhrase (l.cacheId P)
    rw [Lut3DOp.cacheId_eq]
    exact (isWord_tableDigest _).prepend ((isWord_repr _).prepend
      (l.lut.interpolation.isWord_name.prepend l.direction.isWord_name.isPhrase))
  | fixedFunction f =>
    refine isPhrase_intercalate ?_
    rw [List.forall_mem_cons]
    refine ⟨f.style.isPhrase_name, ?_⟩
    intro t ht
    obtain ⟨v, _, rfl⟩ := List.mem_map.mp ht
    exact (hnumber v).isPhrase

omit [Scalar S] in
/-- IDs of finalized ops are phrases in angle brackets. -/
theorem isBracketed_finalId (d : OpData P S) : IsBracketed (Op.finalId d) := by
  refine ⟨d.kind.name ++ (" " ++ (d.cacheId ++ " ")), ?_, d.kind.isWord_name.prepend
    (d.isPhrase_cacheId.append (by decide))⟩
  change "<" ++ d.kind.name ++ " " ++ d.cacheId ++ (" " ++ ">") = _
  simp only [String.append_assoc]

variable [LawfulPatterns P S]

omit [Stored P] [Precision P S] [LawfulPatterns P S] in
theorem Same.kind_eq {d e : OpData P S} (h : d.Same e) : d.kind = e.kind := by
  cases d <;> cases e <;> first | rfl | cases h

/-- Among the ops of a kind, the ID stands for the parameters. -/
theorem cacheId_eq_iff {d e : OpData P S} (hkind : d.kind = e.kind) (hd : d.validate = .ok ())
    (he : e.validate = .ok ()) (h : d.TellsApart e) : d.cacheId = e.cacheId ↔ d.Same e := by
  have hadd := LawfulPatterns.parameter (P := P) (S := S)
  have hwiden := LawfulPatterns.sample (P := P) (S := S)
  cases d <;> cases e <;> try cases hkind
  case matrix.matrix a b =>
    exact MatrixOp.cacheId_eq_iff hadd hd he
      (h.digests _ (by simp [digested]) _ (by simp [digested]))
  case range.range a b => exact RangeOp.cacheId_eq_iff hadd h.numbers
  case exponent.exponent a b => exact ExponentOp.cacheId_eq_iff hadd h.numbers
  case log.log a b =>
    exact LogOp.cacheId_eq_iff hadd (h.numbers _ (by simp [printed]) _ (by simp [printed]))
  case lut1D.lut1D a b =>
    exact Lut1DOp.cacheId_eq_iff hwiden hd he
      (h.digests _ (by simp [digested]) _ (by simp [digested]))
  case lut3D.lut3D a b =>
    exact Lut3DOp.cacheId_eq_iff hwiden hd he
      (h.digests _ (by simp [digested]) _ (by simp [digested]))
  case fixedFunction.fixedFunction a b =>
    exact FixedFunctionOp.cacheId_eq_iff hadd hd he h.numbers

end OpData

/-! ## Pipelines -/

namespace Pipeline

theorem isBracketed_ids {ops : Pipeline P S} (h : ∀ op ∈ ops, op.Reachable ∧ op.isFinalized) :
    ∀ id ∈ ops.map Op.cacheId, IsBracketed id := by
  intro id hid
  obtain ⟨op, hop, rfl⟩ := List.mem_map.mp hid
  rw [(h op hop).1.cacheId_eq (h op hop).2]
  exact op.data.isBracketed_finalId

/-- The ID of a pipeline can be taken apart again into the IDs of its ops, since each of them ends
at its own bracket. -/
theorem map_cacheId_of_cacheId {xs ys : Pipeline P S}
    (hxs : ∀ op ∈ xs, op.Reachable ∧ op.isFinalized)
    (hys : ∀ op ∈ ys, op.Reachable ∧ op.isFinalized) (h : xs.cacheId = ys.cacheId) :
    xs.map Op.cacheId = ys.map Op.cacheId := by
  unfold cacheId at h
  rw [String.append_assoc, String.append_assoc, String.append_right_inj,
    String.append_left_inj] at h
  exact intercalate_inj (isBracketed_ids hxs) (isBracketed_ids hys) h

/-- The digests and the plain forms of numbers in two pipelines tell what they are made from. -/
def TellApart (xs ys : Pipeline P S) : Prop := ∀ a ∈ xs, ∀ b ∈ ys, a.data.TellsApart b.data

omit [Scalar P] [Scalar S] [Stored P] [Precision P S] in
theorem forall₂_iff_of_mem {Q R : Op P S → Op P S → Prop} {xs ys : Pipeline P S}
    (h : ∀ a ∈ xs, ∀ b ∈ ys, (Q a b ↔ R a b)) : List.Forall₂ Q xs ys ↔ List.Forall₂ R xs ys := by
  induction xs generalizing ys with
  | nil => rw [List.forall₂_nil_left_iff, List.forall₂_nil_left_iff]
  | cons a xs ih =>
    cases ys with
    | nil => rw [List.forall₂_nil_right_iff, List.forall₂_nil_right_iff]
    | cons b ys =>
      rw [List.forall₂_cons, List.forall₂_cons, h a List.mem_cons_self b List.mem_cons_self,
        ih fun a ha b hb => h a (List.mem_cons_of_mem _ ha) b (List.mem_cons_of_mem _ hb)]

/-- Where digests and plain forms tell what they are made from, a cache ID tells a pipeline of
finalized ops: two pipelines have the same ID exactly if they have as many ops, and one by one
the same kinds and the same parameters, up to the signs of zeros. -/
theorem a_cache_id_tells_the_parameters [LawfulPatterns P S] {xs ys : Pipeline P S}
    (hxs : ∀ op ∈ xs, op.Reachable ∧ op.isFinalized)
    (hys : ∀ op ∈ ys, op.Reachable ∧ op.isFinalized) (h : xs.TellApart ys) :
    xs.cacheId = ys.cacheId ↔ List.Forall₂ (fun a b => a.data.Same b.data) xs ys := by
  have hop : ∀ a ∈ xs, ∀ b ∈ ys, (a.cacheId = b.cacheId ↔ a.data.Same b.data) := by
    intro a ha b hb
    have hva := ((hxs a ha).1.of_isFinalized (hxs a ha).2).1
    have hvb := ((hys b hb).1.of_isFinalized (hys b hb).2).1
    rw [(hxs a ha).1.cacheId_eq (hxs a ha).2, (hys b hb).1.cacheId_eq (hys b hb).2]
    constructor
    · intro heq
      obtain ⟨hkind, hid⟩ := Op.finalId_inj heq
      exact (OpData.cacheId_eq_iff hkind hva hvb (h a ha b hb)).mp hid
    · intro hsame
      have hid := (OpData.cacheId_eq_iff hsame.kind_eq hva hvb (h a ha b hb)).mpr hsame
      unfold Op.finalId
      rw [hsame.kind_eq, hid]
  have hids : xs.map Op.cacheId = ys.map Op.cacheId ↔
      List.Forall₂ (fun a b => a.cacheId = b.cacheId) xs ys := by
    rw [← List.forall₂_eq_eq_eq, List.forall₂_map_left_iff, List.forall₂_map_right_iff]
  rw [← forall₂_iff_of_mem hop, ← hids]
  constructor
  · exact map_cacheId_of_cacheId hxs hys
  · intro heq
    unfold cacheId
    rw [heq]

end Pipeline

end Data

/-! ### Machine numbers -/

section Witness

/-- The identity, and limits from a zero to 1. -/
def fromZero (zero : Float) : Pipeline Float Float32 :=
  [Op.withId { data := .matrix MatrixOp.identity },
    Op.withId { data := .range (RangeOp.clamp zero 1) }]

theorem finalized_of_validate (data : OpData Float Float32) (h : data.validate.isOk) :
    (Op.withId { data }).Reachable ∧ (Op.withId { data }).isFinalized :=
  ⟨.finalized (.new data)
    ((Op.finalize_of_not_isFinalized rfl).mpr ⟨eq_ok_of_isOk h, rfl⟩), rfl⟩

theorem finalized_fromZero {zero : Float} (h : (RangeOp.clamp zero 1).validate.isOk) :
    ∀ op ∈ fromZero zero, op.Reachable ∧ op.isFinalized :=
  List.forall_mem_cons.mpr ⟨finalized_of_validate _ (by decide +kernel),
    List.forall_mem_singleton.mpr (finalized_of_validate _ h)⟩

instance (v w : Float) : Decidable (PrintedApart v w) :=
  inferInstanceAs (Decidable (Fingerprint.number v = Fingerprint.number w → v == w))

theorem tellApart_fromZero : Pipeline.TellApart (fromZero (-0.0)) (fromZero 0) := by
  have hnumbers : ∀ v ∈ (RangeOp.clamp (-0.0 : Float) 1).bounds,
      ∀ w ∈ (RangeOp.clamp (0 : Float) 1).bounds, PrintedApart v w := by
    decide +kernel
  intro a ha b hb
  rcases List.mem_pair.mp ha with rfl | rfl <;> rcases List.mem_pair.mp hb with rfl | rfl
  · refine ⟨?_, nofun⟩
    intro m hm n hn _
    rw [List.mem_singleton.mp hm, List.mem_singleton.mp hn]
  · exact ⟨fun _ _ => nofun, nofun⟩
  · exact ⟨nofun, fun _ _ => nofun⟩
  · exact ⟨nofun, hnumbers⟩

/-- The sign of a zero does not show in a cache ID. -/
theorem a_negative_zero_does_not_show :
    (∀ op ∈ fromZero (-0.0), op.Reachable ∧ op.isFinalized) ∧
      (∀ op ∈ fromZero 0, op.Reachable ∧ op.isFinalized) ∧
      Pipeline.TellApart (fromZero (-0.0)) (fromZero 0) ∧
      Pipeline.cacheId (fromZero (-0.0)) = Pipeline.cacheId (fromZero 0) := by
  have hxs := @finalized_fromZero (-0.0) (by decide +kernel)
  have hys := @finalized_fromZero 0 (by decide +kernel)
  refine ⟨hxs, hys, tellApart_fromZero, ?_⟩
  have hrange : (RangeOp.clamp (-0.0 : Float) 1).Same (RangeOp.clamp 0 1) := by
    unfold RangeOp.Same
    decide +kernel
  have hmatrix : (MatrixOp.identity : MatrixOp Float).Same MatrixOp.identity :=
    List.forall₂_same.mpr fun v hv => LawfulEquality.beq_self
      (MatrixOp.isFinite_of_validate (eq_ok_of_isOk (by decide +kernel)) v hv)
  exact (Pipeline.a_cache_id_tells_the_parameters hxs hys tellApart_fromZero).mpr
    (.cons hmatrix (.cons hrange .nil))

end Witness

end ColorPipeline
