-- The lines of a text, and the words of a line. Reading splits the bytes of a file, but a line
-- feed and a carriage return are bytes of their own in UTF-8, so the lines are those of the
-- characters.
import ColorPipeline.Text.Blank
import ColorPipeline.Text.Lines
import Mathlib

namespace ColorPipeline

namespace Text

/-! ## Characters as bytes -/

/-- The bytes of characters. -/
def encode (cs : List Char) : List UInt8 := cs.flatMap String.utf8EncodeChar

theorem encode_append (cs ds : List Char) : encode (cs ++ ds) = encode cs ++ encode ds :=
  List.flatMap_append

theorem encode_cons (c : Char) (cs : List Char) :
    encode (c :: cs) = String.utf8EncodeChar c ++ encode cs :=
  List.flatMap_cons

theorem encode_ne_nil {cs : List Char} (h : cs ≠ []) : encode cs ≠ [] := by
  cases cs with
  | nil => exact absurd rfl h
  | cons c cs =>
    rw [encode_cons]
    exact List.append_ne_nil_of_left_ne_nil String.utf8EncodeChar_ne_nil _

/-- Only a character that is a byte alone has a byte below 128. -/
theorem toNat_eq_of_mem_utf8EncodeChar {c : Char} {b : UInt8} (hb : b ∈ String.utf8EncodeChar c)
    (hsmall : b.toNat < 128) : c.toNat = b.toNat := by
  have hval : c.val.toNat = c.toNat := rfl
  unfold String.utf8EncodeChar at hb
  simp only [hval] at hb
  split at hb
  · rw [List.mem_singleton] at hb
    rw [hb, UInt8.toNat_ofNat']
    omega
  · -- every byte of a longer sequence has its highest bit set
    split at hb
    · simp only [List.mem_cons, List.not_mem_nil, or_false] at hb
      rcases hb with rfl | rfl <;> (rw [UInt8.toNat_ofNat'] at hsmall; omega)
    · split at hb
      · simp only [List.mem_cons, List.not_mem_nil, or_false] at hb
        rcases hb with rfl | rfl | rfl <;> (rw [UInt8.toNat_ofNat'] at hsmall; omega)
      · simp only [List.mem_cons, List.not_mem_nil, or_false] at hb
        rcases hb with rfl | rfl | rfl | rfl <;> (rw [UInt8.toNat_ofNat'] at hsmall; omega)

/-- A byte below 128 is found only in its own character. -/
theorem eq_of_mem_utf8EncodeChar {c d : Char} (hd : d.toNat < 128)
    (h : UInt8.ofNat d.toNat ∈ String.utf8EncodeChar c) : c = d := by
  have hsmall : (UInt8.ofNat d.toNat).toNat = d.toNat := by
    rw [UInt8.toNat_ofNat']
    omega
  have htoNat := toNat_eq_of_mem_utf8EncodeChar h (by omega)
  rw [hsmall] at htoNat
  exact Char.toNat_inj.mp htoNat

theorem mk_encode (cs : List Char) : (⟨(encode cs).toArray⟩ : ByteArray) = cs.utf8Encode := by
  apply ByteArray.ext
  rw [List.utf8Encode, List.data_toByteArray]
  rfl

theorem ofBytes?_encode (cs : List Char) : ofBytes? (encode cs) = some (String.ofList cs) := by
  unfold ofBytes? String.fromUTF8?
  rw [mk_encode, dif_pos ByteArray.isValidUTF8_utf8Encode]
  rfl

theorem toList_loop (bytes : ByteArray) (i : Nat) (taken : List UInt8) :
    ByteArray.toList.loop bytes i taken = taken.reverse ++ bytes.data.toList.drop i := by
  fun_induction ByteArray.toList.loop bytes i taken with
  | case1 i taken hlt ih =>
    have hi : i < bytes.data.toList.length := by simpa using hlt
    have hget : bytes.get! i = bytes.data.toList[i] := by
      change bytes.data[i]! = _
      rw [getElem!_pos bytes.data i hlt, Array.getElem_toList]
    rw [ih, List.drop_eq_getElem_cons hi, hget, List.reverse_cons, List.append_assoc]
    rfl
  | case2 i taken hge =>
    have hlength : bytes.data.toList.length ≤ i := by simpa using hge
    rw [List.drop_eq_nil_of_le hlength, List.append_nil]

theorem toList_toUTF8 (text : String) : text.toUTF8.toList = encode text.toList := by
  rw [String.toUTF8_eq_toByteArray, ← String.utf8Encode_toList, ← mk_encode]
  unfold ByteArray.toList
  rw [toList_loop]
  rfl

/-! ## Lines of characters -/

/-- The characters of a line whose last character comes first, less a carriage return at its
end. -/
def lineOf : List Char → List Char
  | '\r' :: rest => rest.reverse
  | cs => cs.reverse

/-- The lines of characters, where `current` holds the line that has begun, last character
first. -/
def splitChars (current : List Char) : List Char → List (List Char)
  | [] => if current.isEmpty then [] else [current.reverse]
  | '\n' :: rest => lineOf current :: splitChars [] rest
  | c :: rest => splitChars (c :: current) rest

/-- The lines of a text. -/
def linesOf (text : String) : List String := (splitChars [] text.toList).map String.ofList

theorem splitLines_append {bytes rest current : List UInt8} (h : (10 : UInt8) ∉ bytes) :
    splitLines current (bytes ++ rest) = splitLines (bytes.reverse ++ current) rest := by
  induction bytes generalizing current with
  | nil => rfl
  | cons b bytes ih =>
    rw [List.mem_cons, not_or] at h
    rw [List.cons_append, splitLines, ih h.2, List.reverse_cons, List.append_assoc]
    · rfl
    · exact fun hb => h.1 hb.symm

theorem lineFeed_notMem {c : Char} (hc : c ≠ '\n') : (10 : UInt8) ∉ String.utf8EncodeChar c :=
  fun h => hc (@eq_of_mem_utf8EncodeChar c '\n' (by decide) h)

/-- The bytes of a line end with a carriage return where its characters do. -/
theorem withoutReturn_encode (current : List Char) :
    withoutReturn (encode current.reverse).reverse = encode (lineOf current) := by
  have hkept : ∀ bytes : List UInt8, bytes.head? ≠ some 13 →
      withoutReturn bytes = bytes.reverse := by
    intro bytes hhead
    unfold withoutReturn
    split
    · exact absurd rfl hhead
    · rfl
  cases current with
  | nil => rfl
  | cons c current =>
    rw [List.reverse_cons, encode_append, List.reverse_append]
    by_cases hc : c = '\r'
    · subst hc
      exact List.reverse_reverse _
    · have hline : lineOf (c :: current) = current.reverse ++ [c] := by
        unfold lineOf
        split
        · rename_i hreturn
          exact absurd (List.cons.inj hreturn).1 hc
        · exact List.reverse_cons
      have hsingle : (13 : UInt8) ∉ encode [c] := by
        unfold encode
        rw [List.flatMap_singleton]
        exact fun h => hc (@eq_of_mem_utf8EncodeChar c '\r' (by decide) h)
      have hbytes : (encode [c]).reverse ≠ [] :=
        mt List.reverse_eq_nil_iff.mp (encode_ne_nil (List.cons_ne_nil c []))
      rw [hline, encode_append, hkept, List.reverse_append, List.reverse_reverse,
        List.reverse_reverse]
      intro hhead
      rw [List.head?_append_of_ne_nil _ hbytes] at hhead
      exact hsingle (List.mem_reverse.mp (List.mem_of_mem_head? hhead))

/-- Splitting bytes at line feeds splits the characters there. -/
theorem splitLines_encode (current cs : List Char) :
    splitLines (encode current.reverse).reverse (encode cs) =
      (splitChars current cs).map encode := by
  fun_induction splitChars current cs with
  | case1 current hempty =>
    rw [List.isEmpty_iff.mp hempty]
    rfl
  | case2 current hbegun =>
    have hbytes : ¬ (encode current.reverse).reverse.isEmpty := by
      rw [List.isEmpty_iff] at hbegun
      rw [List.isEmpty_iff, List.reverse_eq_nil_iff]
      exact encode_ne_nil (mt List.reverse_eq_nil_iff.mp hbegun)
    change (if (encode current.reverse).reverse.isEmpty then [] else
      [(encode current.reverse).reverse.reverse]) = _
    rw [if_neg hbytes, List.reverse_reverse]
    rfl
  | case3 current rest ih =>
    change withoutReturn (encode current.reverse).reverse :: splitLines [] (encode rest) = _
    rw [withoutReturn_encode, List.map_cons, ← ih]
    rfl
  | case4 current c rest hc ih =>
    rw [encode_cons, splitLines_append (lineFeed_notMem fun h => hc h), ← ih, List.reverse_cons,
      encode_append, List.reverse_append]
    unfold encode
    rw [List.flatMap_singleton]

/-- The lines of the bytes of a text are those of its characters. -/
theorem lines_toUTF8 (text : String) : lines text.toUTF8 = (linesOf text).map some := by
  unfold lines linesOf
  rw [toList_toUTF8]
  have hsplit : splitLines [] (encode text.toList) = (splitChars [] text.toList).map encode :=
    splitLines_encode [] text.toList
  rw [hsplit, List.map_map, List.map_map]
  exact List.map_congr_left fun cs _ => ofBytes?_encode cs

/-! ## Words -/

theorem wordsFrom_append_of_isBlank (current cs : List Char) {blanks : List Char}
    (h : ∀ c ∈ blanks, isBlank c) : wordsFrom current (cs ++ blanks) = wordsFrom current cs := by
  induction cs generalizing current with
  | nil =>
    induction blanks generalizing current with
    | nil => rfl
    | cons c blanks ih =>
      rw [List.forall_mem_cons] at h
      have hrest : wordsFrom [] blanks = [] := ih h.2 []
      simp only [List.nil_append, wordsFrom, h.1, if_true, hrest]
  | cons c cs ih =>
    rw [List.cons_append, wordsFrom, wordsFrom, ih, ih]

/-- Blanks in front of the first word do not count. -/
theorem words_dropWhile (cs : List Char) : words (cs.dropWhile isBlank) = words cs := by
  induction cs with
  | nil => rfl
  | cons c cs ih =>
    by_cases hc : isBlank c
    · have hskip : words (c :: cs) = words cs := by
        unfold words
        rw [wordsFrom, if_pos hc]
        rfl
      rw [List.dropWhile_cons_of_pos hc, ih, hskip]
    · rw [List.dropWhile_cons_of_neg hc]

/-- The blanks at the ends of a text are not part of its words. -/
theorem words_trim (cs : List Char) : words (trim cs) = words cs := by
  have hends : cs.dropWhile isBlank = trim cs ++
      (((cs.dropWhile isBlank).reverse.takeWhile isBlank)).reverse := by
    unfold trim
    rw [← List.reverse_append, List.takeWhile_append_dropWhile, List.reverse_reverse]
  have hblanks : ∀ c ∈ ((cs.dropWhile isBlank).reverse.takeWhile isBlank).reverse, isBlank c := by
    intro c hc
    exact List.mem_takeWhile_imp (List.mem_reverse.mp hc)
  rw [← words_dropWhile cs, hends]
  exact (wordsFrom_append_of_isBlank [] (trim cs) hblanks).symm

end Text

end ColorPipeline
