-- Checks of sizes that are products. The machine counts a product in 64 bits, and a check compares
-- what there is with that count. So what a check lets pass has the size that it should have where
-- that size can be counted, and only there.
import ColorPipeline.Image.Packed
import ColorPipeline.Proofs.Checks
import ColorPipeline.Proofs.ItxFiles

namespace ColorPipeline

/-! ## Images -/

namespace Image

variable {S : Type}

/-- An image is accepted where its samples are as many as the machine counts. -/
theorem make_eq_ok_iff (samples : Samples S) (depth : BitDepth) (channels pixels : Nat)
    {image : Image S} : make samples depth channels pixels = .ok image ↔
      (channels = 3 ∨ channels = 4) ∧ samples.storage.holds depth = true ∧
        samples.size = sizeProduct pixels channels ∧
        image = ⟨samples, depth, channels, pixels⟩ := by
  unfold make checkChannels
  by_cases hchannels : channels = 3 ∨ channels = 4
  · by_cases hholds : samples.storage.holds depth = true
    · by_cases hsize : samples.size = sizeProduct pixels channels
      · simp [hchannels, hholds, hsize, bind, Except.bind, pure, Except.pure, eq_comm]
      · simp [hchannels, hholds, hsize, bind, Except.bind, throw, throwThe, MonadExceptOf.throw]
    · simp [hchannels, hholds, bind, Except.bind, throw, throwThe, MonadExceptOf.throw]
  · simp [hchannels, bind, Except.bind]

end Image

/-! ## Tables -/

section Tables

variable {S : Type}

theorem Lut3D.ofEntries_eq_ok_iff (entries : Array (Rgb S)) (n : Nat) {lut : Lut3D S} :
    ofEntries entries n = .ok lut ↔
      2 ≤ n ∧ entries.size = sizeCube n ∧ lut = { entries, size := n } := by
  unfold ofEntries
  rcases hcheck : checkEntries entries.size n with e | u
  · have hfails : ¬ (2 ≤ n ∧ entries.size = sizeCube n) := by
      rw [← checkEntries_eq_ok_iff, hcheck]
      exact nofun
    simp [← and_assoc, hfails, bind, Except.bind]
  · obtain ⟨htwo, hcount⟩ := checkEntries_eq_ok_iff.mp hcheck
    simp [htwo, hcount, bind, Except.bind, pure, Except.pure, eq_comm]

theorem Lut3D.checkEntries_ne_missing (found n i found' : Nat) :
    checkEntries found n ≠ .error (.pointMissing i found') := by
  unfold checkEntries
  split_ifs <;> exact nofun

theorem Lut3D.ofEntries_ne_missing (entries : Array (Rgb S)) (n i found : Nat) :
    ofEntries entries n ≠ .error (.pointMissing i found) := by
  unfold ofEntries
  rcases hcheck : checkEntries entries.size n with e | u
  · intro h
    exact checkEntries_ne_missing _ _ _ _ (hcheck.trans (congrArg Except.error (Except.error.inj h)))
  · exact nofun

variable [Scalar S]

/-- A listing that becomes a table has its true size, since every point of it is read. -/
theorem Lut3D.exists_ofRedFastest_iff (listing : Array (Rgb S)) (n : Nat) :
    (∃ lut, ofRedFastest listing n = .ok lut) ↔
      2 ≤ n ∧ listing.size = n ^ 3 ∧ n ^ 3 < sizeLimit := by
  simp only [ofRedFastest_eq_ok_iff, ← pow_three']
  constructor
  · rintro ⟨_, htwo, hcount, hlong, _⟩
    have hexact : sizeCube n = n ^ 3 :=
      le_antisymm (by rw [pow_three']; exact sizeCube_le n) (hcount ▸ hlong)
    exact ⟨htwo, hcount.trans hexact, (sizeCube_eq_iff n).mp hexact⟩
  · rintro ⟨htwo, hcount, hfits⟩
    exact ⟨_, htwo, hcount.trans ((sizeCube_eq_iff n).mpr hfits).symm, hcount.ge, rfl⟩

/-- A grid point of a listing that passes the check is not in it where the machine cannot count
the points. -/
theorem Lut3D.ofRedFastest_eq_missing_iff (listing : Array (Rgb S)) (n i found : Nat) :
    ofRedFastest listing n = .error (.pointMissing i found) ↔
      listing.size = sizeCube n ∧ sizeLimit ≤ n ^ 3 ∧ i = listing.size ∧ found = listing.size := by
  have hshort : sizeCube n < n * n * n ↔ sizeLimit ≤ n ^ 3 := by
    rw [← not_lt, ← sizeCube_eq_iff, pow_three', (sizeCube_le n).lt_iff_ne]
  unfold ofRedFastest
  rcases hcheck : checkEntries listing.size n with e | u
  · constructor
    · intro h
      exact absurd (hcheck.trans (congrArg Except.error (Except.error.inj h)))
        (checkEntries_ne_missing _ _ _ _)
    · rintro ⟨hcount, hlarge, _⟩
      have htwo : 2 ≤ n := by
        by_contra hsmall
        have hcube : n ^ 3 ≤ 1 ^ 3 := Nat.pow_le_pow_left (by omega) 3
        exact absurd (hlarge.trans hcube) (by decide)
      rw [checkEntries_eq_ok_iff.mpr ⟨htwo, hcount⟩] at hcheck
      cases hcheck
  · obtain ⟨_, hcount⟩ := checkEntries_eq_ok_iff.mp hcheck
    by_cases hlarge : sizeLimit ≤ n ^ 3
    · have hshort' : listing.size < n * n * n := hcount.trans_lt (hshort.mpr hlarge)
      simp only [bind, Except.bind, if_pos hshort', throw, throwThe, MonadExceptOf.throw, hlarge,
        true_and, ← hcount, Except.error.injEq, LutSizeError.pointMissing.injEq]
      rw [eq_comm, eq_comm (a := found)]
    · have hlong : ¬ listing.size < n * n * n := by rwa [hcount, hshort]
      simp only [hlong, hlarge, if_false, bind, Except.bind, false_and, and_false, iff_false]
      exact ofEntries_ne_missing _ _ _ _

end Tables

/-! ## Texts -/

namespace ItxFile

variable {S : Type} [Stored S]

/-- A text with a single size, in its first line, needs room for that one only. -/
theorem roomForSizes_cons {line : String} {rest : List String}
    (hfirst : ∀ n, sizeIn? line = some n → sizeCube n ≤ room)
    (hrest : ∀ other ∈ rest, ¬ IsSize other) : RoomForSizes S (line :: rest) := by
  intro before found after n hlines hsize hn
  cases before with
  | nil =>
    obtain ⟨rfl, _⟩ := List.cons.inj hlines
    have hnone : (colors (S := S) []).length = 0 := rfl
    rw [hnone, Nat.zero_add]
    exact hfirst n hn
  | cons first before =>
    obtain ⟨_, rfl⟩ := List.cons.inj hlines
    exact absurd hsize (hrest found (List.mem_append_right _ List.mem_cons_self))

/-- A line is refused for its size only where there is no room for what it announces. -/
theorem no_room_of_read {file : String} {l : Listing S} {number : Nat} {line : String}
    {e : LutSizeError} (h : l.read file ⟨number, line⟩ = .error (.size e)) :
    IsSize line ∧ ∃ n, sizeIn? line = some n ∧ room < l.colors.length + sizeCube n := by
  unfold Listing.read at h
  split at h
  · cases h
  · rename_i hcomment
    split at h
    · cases h
    · rename_i first rest hwords
      replace hwords : lineWords line = first :: rest := hwords
      split at h
      · rename_i hfirst
        have hsize : IsSize line := ⟨hcomment, by rw [hwords, hfirst]; rfl⟩
        split at h
        · rename_i n hrest
          obtain ⟨value, rfl, hvalue⟩ := List.map_eq_singleton_iff.mp hrest
          have hn : sizeIn? line = some n := by
            unfold sizeIn?
            rw [hwords]
            exact hvalue
          split at h
          · cases h
          · rename_i hroom
            exact ⟨hsize, n, hn, Nat.not_le.mp hroom⟩
        · cases h
      · split at h
        · cases h
        · split at h <;> cases h

/-- Where there is room, no line is refused for its size. -/
theorem readLines_ne_of_room (file : String) {lines : List String} (hroom : RoomForSizes S lines)
    (e : LutSizeError) :
    readLines file (Listing.empty : Listing S) 1 (lines.map some) ≠ .error (.size e) := by
  induction lines using List.reverseRecOn with
  | nil => exact nofun
  | append_singleton lines line ih =>
    obtain ⟨hbefore, hlast⟩ := roomForSizes_snoc.mp hroom
    intro h
    rw [List.map_append, List.map_singleton, readLines_append] at h
    rcases hread : readLines file (Listing.empty : Listing S) 1 (lines.map some) with e' | l
    · rw [hread] at h
      exact ih hbefore (hread.trans h)
    · obtain ⟨_, _, rfl⟩ := (readLines_eq_ok_iff file lines).mp hread
      rw [hread] at h
      simp only [readLines_singleton] at h
      obtain ⟨hsize, n, hn, hfull⟩ := no_room_of_read h
      rw [length_colors_listing] at hfull
      have := hlast n hsize hn
      omega

variable [Scalar S]

theorem exists_ofRedFastest_of_parse {file : String} {lines : List (Option String)} {lut : Lut3D S}
    (h : parse file lines = .ok lut) : ∃ listing n, Lut3D.ofRedFastest listing n = .ok lut := by
  unfold parse at h
  rcases hread : readLines file (Listing.empty : Listing S) 1 lines with e | l
  · rw [hread] at h
    cases h
  · rw [hread] at h
    simp only [bind, Except.bind] at h
    cases hsize : l.size with
    | none => simp [hsize, faultIn] at h
    | some n =>
      by_cases hcount : l.colors.length = sizeCube n
      · simp only [hsize, hcount, ne_eq, not_true, if_false] at h
        split at h
        · rename_i table htable
          rw [← Except.ok.inj h]
          exact ⟨_, _, htable⟩
        · cases h
        · cases h
      · simp [hsize, hcount, faultIn] at h

/-- Where there is room, a text leads to a grid point that is not listed if all its lines can be
read and if its colours are as many as the last size announces, but only as the machine counts
the points of so large a grid. -/
theorem parse_eq_missing_iff (file : String) {lines : List String}
    (hroom : RoomForSizes S lines) {i found : Nat} :
    parse file (lines.map some) = (.error (.size (.pointMissing i found)) :
      Except LutError (Lut3D S)) ↔
      Legible S lines ∧ ∃ n, lastSize? lines = some n ∧
        (colors (S := S) lines).length = n ^ 3 % sizeLimit ∧ sizeLimit ≤ n ^ 3 ∧
        i = (colors (S := S) lines).length ∧ found = (colors (S := S) lines).length := by
  unfold parse
  rcases hread : readLines file (Listing.empty : Listing S) 1 (lines.map some) with e | l
  · constructor
    · intro h
      exact absurd (hread.trans (congrArg Except.error (Except.error.inj h)))
        (readLines_ne_of_room file hroom _)
    · rintro ⟨hlegible, _⟩
      rw [(readLines_eq_ok_iff file lines).mpr ⟨hlegible, hroom, rfl⟩] at hread
      cases hread
  · obtain ⟨hlegible, _, rfl⟩ := (readLines_eq_ok_iff file lines).mp hread
    simp only [hlegible, true_and, bind, Except.bind, size_listing, reverse_colors_listing,
      length_colors_listing, ← sizeCube_eq]
    cases hlast : lastSize? lines with
    | none => simp [faultIn]
    | some n =>
      simp only [Option.some.injEq, exists_eq_left']
      have hmissing := Lut3D.ofRedFastest_eq_missing_iff (colors (S := S) lines).toArray n i found
      rw [List.size_toArray] at hmissing
      rw [← hmissing]
      by_cases hcount : (colors (S := S) lines).length = sizeCube n
      · rw [if_neg (not_not.mpr hcount)]
        rcases hread' : Lut3D.ofRedFastest (colors (S := S) lines).toArray n with e | lut
        · cases e <;> simp [faultIn]
        · simp [pure, Except.pure]
      · have hfound : Lut3D.ofRedFastest (colors (S := S) lines).toArray n ≠
            .error (.pointMissing i found) := fun h => hcount (hmissing.mp h).1
        rw [if_pos hcount]
        simp [hfound, faultIn]

end ItxFile

/-! ## All checks -/

/-- A check accepts what has other properties and, as the machine counts, the size expected of it.
What it accepts has that size exactly where the size can be counted. -/
structure ComparesCounts (accepted others : Prop) (found expected : Nat) : Prop where
  accepts : accepted ↔ others ∧ found = expected % sizeLimit
  right : accepted → (found = expected ↔ expected < sizeLimit)

/-- Any check that compares a number with a wrapped product is right where the product fits. -/
theorem ComparesCounts.of_accepts {accepted others : Prop} {found expected : Nat}
    (h : accepted ↔ others ∧ found = expected % sizeLimit) :
    ComparesCounts accepted others found expected where
  accepts := h
  right haccepted := by
    rw [(h.mp haccepted).2]
    exact Nat.mod_eq_iff_lt (by decide)

/-- The checks of images, of tables and of table ops go by the count of the machine, so they are
right where that count is, and only there. Tables from listings and from texts always have their
true size: where the machine counts wrong, some grid point is not listed, and reading goes on
behind the end of the listing. -/
theorem sizes_are_true_where_they_can_be_counted (P S : Type) [Scalar S] [Stored S] :
    (∀ (samples : Samples S) (depth : BitDepth) (channels pixels : Nat),
      ComparesCounts (∃ image, Image.make samples depth channels pixels = .ok image)
        ((channels = 3 ∨ channels = 4) ∧ samples.storage.holds depth) samples.size
        (pixels * channels)) ∧
    (∀ (entries : Array (Rgb S)) (n : Nat),
      ComparesCounts (∃ lut, Lut3D.ofEntries entries n = .ok lut) (2 ≤ n) entries.size (n ^ 3)) ∧
    (∀ l : Lut3DOp S,
      ComparesCounts ((l.validate : Except (OpError P) Unit) = .ok ())
        (2 ≤ l.lut.size ∧ ∀ v ∈ tableNumbers l.lut.entries, Scalar.isFinite v)
        l.lut.entries.size (l.lut.size ^ 3)) ∧
    (∀ (listing : Array (Rgb S)) (n : Nat), (∃ lut, Lut3D.ofRedFastest listing n = .ok lut) ↔
      2 ≤ n ∧ listing.size = n ^ 3 ∧ n ^ 3 < sizeLimit) ∧
    (∀ (file : String) (lines : List (Option String)) (lut : Lut3D S),
      ItxFile.parse file lines = .ok lut → lut.entries.size = lut.size ^ 3) ∧
    ∀ file text : String,
      let lines := Text.linesOf text
      ItxFile.RoomForSizes S lines →
        ((∃ i found, ItxFile.parse file (Text.lines text.toUTF8) =
            (.error (.size (.pointMissing i found)) : Except LutError (Lut3D S))) ↔
          ItxFile.Legible S lines ∧ ∃ n, ItxFile.lastSize? lines = some n ∧
            (ItxFile.colors (S := S) lines).length = n ^ 3 % sizeLimit ∧ sizeLimit ≤ n ^ 3) := by
  refine ⟨?_, ?_, ?_, Lut3D.exists_ofRedFastest_iff, ?_, ?_⟩
  · intro samples depth channels pixels
    refine .of_accepts ?_
    simp only [Image.make_eq_ok_iff, exists_and_left, exists_eq, and_true, and_assoc]
    rfl
  · intro entries n
    refine .of_accepts ?_
    simp only [Lut3D.ofEntries_eq_ok_iff, exists_and_left, exists_eq, and_true, sizeCube_eq]
  · intro l
    refine .of_accepts ?_
    rw [l.validate_iff, sizeCube_eq]
    tauto
  · intro file lines lut h
    obtain ⟨listing, n, htable⟩ := ItxFile.exists_ofRedFastest_of_parse h
    obtain ⟨hsize, hlisting, hperm, _⟩ := Lut3D.of_ofRedFastest htable
    have hentries : lut.entries.size = listing.size := by
      simpa using hperm.length_eq
    rw [hentries, hlisting, hsize, pow_three']
  · intro file text lines hroom
    rw [Text.lines_toUTF8]
    constructor
    · rintro ⟨i, found, h⟩
      obtain ⟨hlegible, n, hlast, hcount, hlarge, _⟩ :=
        (ItxFile.parse_eq_missing_iff file hroom).mp h
      exact ⟨hlegible, n, hlast, hcount, hlarge⟩
    · rintro ⟨hlegible, n, hlast, hcount, hlarge⟩
      exact ⟨_, _, (ItxFile.parse_eq_missing_iff file hroom).mpr
        ⟨hlegible, n, hlast, hcount, hlarge, rfl, rfl⟩⟩

/-- A size and the eight colours that it announces. -/
def eightColors : String :=
  "LUT_3D_SIZE 2\n0 0 0\n1 0 0\n0 1 0\n1 1 0\n0 0 1\n1 0 1\n0 1 1\n1 1 1\n"

theorem linesOf_eightColors : Text.linesOf eightColors = ["LUT_3D_SIZE 2", "0 0 0", "1 0 0",
    "0 1 0", "1 1 0", "0 0 1", "1 0 1", "0 1 1", "1 1 1"] := by
  rfl

/-- Eight samples are two pixels of four channels, and eight colours are a table of two points to
an axis. -/
theorem eight_samples_and_eight_colors_are_counted_right :
    let samples : Samples Float32 := .bytes [0, 1, 2, 3, 4, 5, 6, 7]
    let lines := Text.linesOf eightColors
    ((∃ image, Image.make samples .uint8 4 2 = .ok image) ∧ samples.size = 2 * 4) ∧
      (∃ lut : Lut3D Float32, ItxFile.parse "a.itx" (lines.map some) = .ok lut ∧
        lut.entries.size = lut.size ^ 3) ∧
      ItxFile.RoomForSizes Float32 lines ∧
      ¬ ∃ i found, ItxFile.parse "a.itx" (Text.lines eightColors.toUTF8) =
        (.error (.size (.pointMissing i found)) : Except LutError (Lut3D Float32)) := by
  intro samples lines
  obtain ⟨himages, _, _, _, hparsed, hmissing⟩ :=
    sizes_are_true_where_they_can_be_counted Float Float32
  have hlines : lines = _ := linesOf_eightColors
  have hlegible : ItxFile.Legible Float32 lines := by
    rw [hlines]
    exact ⟨by decide, by decide⟩
  have hroom : ItxFile.RoomForSizes Float32 lines := by
    rw [hlines]
    refine ItxFile.roomForSizes_cons ?_ (by decide)
    intro n hn
    obtain rfl : 2 = n := Option.some.inj hn
    decide
  have hlast : ItxFile.lastSize? lines = some 2 := by
    rw [hlines]
    decide
  have hcount : (ItxFile.colors (S := Float32) lines).length = 8 := by
    rw [ItxFile.length_colors hlegible, hlines]
    decide
  have haccepted := (himages samples .uint8 4 2).accepts.mpr ⟨⟨.inr rfl, rfl⟩, rfl⟩
  have hparse := (ItxFile.parse_eq_ok_iff "a.itx").mpr ⟨hlegible, hroom, 2, hlast, hcount,
    (Lut3D.ofRedFastest_eq_ok_iff _ 2).mpr ⟨le_rfl, hcount, hcount.ge, rfl⟩⟩
  refine ⟨⟨haccepted, ((himages samples .uint8 4 2).right haccepted).mpr (by decide)⟩,
    ⟨_, hparse, hparsed _ _ _ hparse⟩, hroom, ?_⟩
  intro h
  obtain ⟨_, n, hn, _, hlarge⟩ := (hmissing "a.itx" eightColors hroom).mp h
  obtain rfl : 2 = n := Option.some.inj (hlast.symm.trans hn)
  exact absurd hlarge (by decide)

/-- A size line and nothing else. The cube of this size is a multiple of what the machine counts
to. -/
def emptyListing : String := "LUT_3D_SIZE 4194304\n"

theorem linesOf_emptyListing : Text.linesOf emptyListing = ["LUT_3D_SIZE 4194304"] := by
  rfl

/-- Four samples pass for `2 ^ 62 + 1` pixels of four channels, and nothing at all for a table of
`2 ^ 22` points to an axis. A text that lists such a table is not refused, and its first grid
point is missing. -/
theorem four_samples_pass_for_far_too_many_pixels :
    let samples : Samples Float32 := .floats [0, 0, 0, 0]
    let pixels := 4611686018427387905
    let lut : Lut3D Float32 := { entries := #[], size := 4194304 }
    (Image.make samples .float 4 pixels = .ok ⟨samples, .float, 4, pixels⟩ ∧
      samples.size ≠ pixels * 4) ∧
    (Lut3D.ofEntries #[] 4194304 = .ok lut ∧
      ((⟨lut, .forward⟩ : Lut3DOp Float32).validate : Except (OpError Float) Unit) = .ok () ∧
      lut.entries.size ≠ lut.size ^ 3) ∧
    ItxFile.parse "a.itx" (Text.lines emptyListing.toUTF8) =
      (.error (.size (.pointMissing 0 0)) : Except LutError (Lut3D Float32)) := by
  intro samples pixels lut
  have hlegible : ItxFile.Legible Float32 ["LUT_3D_SIZE 4194304"] := ⟨by decide, by decide⟩
  have hroom : ItxFile.RoomForSizes Float32 ["LUT_3D_SIZE 4194304"] := by
    refine ItxFile.roomForSizes_cons ?_ nofun
    intro n hn
    obtain rfl : 4194304 = n := Option.some.inj hn
    decide
  refine ⟨⟨?_, by decide⟩, ⟨?_, ?_, by decide⟩, ?_⟩
  · exact (Image.make_eq_ok_iff samples .float 4 pixels).mpr ⟨.inr rfl, rfl, by decide, rfl⟩
  · exact (Lut3D.ofEntries_eq_ok_iff #[] 4194304).mpr ⟨by decide, by decide, rfl⟩
  · exact (Lut3DOp.validate_iff _).mpr ⟨by decide, by decide, nofun⟩
  rw [Text.lines_toUTF8, linesOf_emptyListing, ItxFile.parse_eq_missing_iff "a.itx" hroom]
  exact ⟨hlegible, 4194304, by decide, by decide, by decide, by decide, by decide⟩

end ColorPipeline
