import Rmol.InventoryParser
/-!
# Loads of the demand file that fail (`InventoryParser.cpp:74-128`)

The parser inserts a class as soon as the field that completes it is read, and asks the stream only after the loop
whether it has come to the end. What keeps it from the end is a field that does not fit into the buffer. Nothing is
taken back then: the classes of the fields before stay in both lists, and so the lists are as before only where these
fields complete no class (`parseInputFileAndBuildBom_failed`). `RMOL_Service::parseAndLoad` does not look at the
result.
-/

namespace Rmol

open DelimitedFields

variable {V : Type} {readDouble : List Char → Option V}

/-- The stream starts with a field that is longer than the buffer. -/
def StartsTooLong (stream : List Char) : Prop := 79 < (stream.takeWhile (· ≠ ';')).length

instance (stream : List Char) : Decidable (StartsTooLong stream) := inferInstanceAs (Decidable (_ < _))

/-! ## Where the loop ends -/

theorem parseLoop_tooLong {stream : List Char} (h : StartsTooLong stream) (state : ParserState V) :
    parseLoop readDouble stream state = (false, state) := by
  rw [parseLoop]
  split
  · rename_i heq
    rw [getline_long h] at heq
    obtain rfl := Line.failed.inj heq
    rfl
  · rename_i heq
    rw [getline_long h] at heq
    cases heq

/-- The last field of a file needs no separator. -/
theorem parseLoop_last {field : List Char} (h : IsField 79 ';' field) (hne : field ≠ []) (state : ParserState V) :
    parseLoop readDouble field state = (true, readToken state (readDouble field)) := by
  rw [parseLoop]
  split
  · rename_i heq
    rw [getline_last h hne] at heq
    cases heq
  · rename_i heq
    rw [getline_last h hne] at heq
    obtain ⟨rfl, rfl⟩ := Line.read.inj heq
    exact parseLoop_nil _

/-- Every file is a list of fields that fit, and then ends, ends with a field that fits, or goes on with one that does
not. -/
theorem file_split (inputFile : List Char) :
    ∃ fields rest, inputFile = fileOf fields ++ rest ∧ (∀ field ∈ fields, IsField 79 ';' field) ∧
      (rest = [] ∨ StartsTooLong rest ∨ (rest ≠ [] ∧ IsField 79 ';' rest)) := by
  induction hlength : inputFile.length using Nat.strong_induction_on generalizing inputFile with
  | _ n ih =>
    rcases stream_cases 79 ';' inputFile with hnil | hlong | hlast | ⟨field, rest, hfield, rfl⟩
    · exact ⟨[], inputFile, rfl, by simp, .inl hnil⟩
    · exact ⟨[], inputFile, rfl, by simp, .inr (.inl hlong)⟩
    · exact ⟨[], inputFile, rfl, by simp, .inr (.inr hlast)⟩
    · have hlt : rest.length < n := by
        rw [← hlength, List.length_append, List.length_cons]
        omega
      obtain ⟨fields, rest', rfl, hfields, hend⟩ := ih rest.length hlt rest rfl
      exact ⟨field :: fields, rest', by simp [fileOf], List.forall_mem_cons.2 ⟨hfield, hfields⟩, hend⟩

/-! ## The fields of a file -/

/-- The fields before the first one that does not fit into the buffer. -/
def fieldsBefore (inputFile : List Char) : List (List Char) :=
  (inputFile.splitOn ';').takeWhile fun field => field.length ≤ 79

section fields
variable {fields : List (List Char)} {rest : List Char}

theorem splitOn_fileOf (hfields : ∀ field ∈ fields, IsField 79 ';' field) (rest : List Char) :
    (fileOf fields ++ rest).splitOn ';' = fields ++ rest.splitOn ';' := by
  induction fields with
  | nil => rfl
  | cons field fields ih =>
    have hsplit : fileOf (field :: fields) ++ rest = field ++ ';' :: (fileOf fields ++ rest) := by
      simp [fileOf]
    rw [hsplit, List.splitOn_append_cons_self, List.splitOn_eq_singleton (hfields field List.mem_cons_self).1,
      ih fun f hf => hfields f (List.mem_cons_of_mem _ hf)]
    rfl

theorem startsTooLong_iff (hfields : ∀ field ∈ fields, IsField 79 ';' field)
    (hend : rest = [] ∨ StartsTooLong rest ∨ (rest ≠ [] ∧ IsField 79 ';' rest)) :
    StartsTooLong rest ↔ ∃ field ∈ (fileOf fields ++ rest).splitOn ';', 79 < field.length := by
  rw [splitOn_fileOf hfields]
  constructor
  · intro hlong
    obtain ⟨fields', hcons⟩ := splitOn_eq_takeWhile_cons ';' rest
    exact ⟨rest.takeWhile (· ≠ ';'), by simp [hcons], hlong⟩
  · rintro ⟨field, hmem, hlong⟩
    rcases List.mem_append.1 hmem with hmem | hmem
    · exact absurd (hfields field hmem).2 (not_le.2 hlong)
    rcases hend with rfl | hstarts | ⟨-, hfield⟩
    · rw [List.splitOn_nil, List.mem_singleton] at hmem
      simp [hmem] at hlong
    · exact hstarts
    · rw [List.splitOn_eq_singleton hfield.1, List.mem_singleton] at hmem
      subst hmem
      exact absurd hfield.2 (not_le.2 hlong)

theorem fieldsBefore_fileOf (hfields : ∀ field ∈ fields, IsField 79 ';' field) (hlong : StartsTooLong rest) :
    fieldsBefore (fileOf fields ++ rest) = fields := by
  obtain ⟨fields', hcons⟩ := splitOn_eq_takeWhile_cons ';' rest
  have hfit : ∀ field ∈ fields, decide (field.length ≤ 79) = true := fun field hfield =>
    decide_eq_true (hfields field hfield).2
  have hstop : ¬ (rest.takeWhile (· ≠ ';')).length ≤ 79 := not_le.2 hlong
  rw [fieldsBefore, splitOn_fileOf hfields, List.takeWhile_append_of_pos hfit, hcons,
    List.takeWhile_cons_of_neg (by simpa using hstop), List.append_nil]

end fields

/-! ## What a failed load leaves -/

section failed
variable {uninitialised : V} {bom : SampleBom V} {fields : List (List Char)} {rest : List Char}

/-- Only an over-long field makes a load fail. -/
theorem parseInputFileAndBuildBom_fst (hfields : ∀ field ∈ fields, IsField 79 ';' field)
    (hend : rest = [] ∨ StartsTooLong rest ∨ (rest ≠ [] ∧ IsField 79 ';' rest)) :
    (parseInputFileAndBuildBom readDouble uninitialised (fileOf fields ++ rest) bom).1 = false ↔ StartsTooLong rest := by
  rw [parseInputFileAndBuildBom, parseLoop_fileOf hfields]
  rcases hend with rfl | hlong | ⟨hne, hfield⟩
  · rw [parseLoop_nil]
    exact iff_of_false Bool.noConfusion (by decide)
  · rw [parseLoop_tooLong hlong]
    exact iff_of_true rfl hlong
  · rw [parseLoop_last hfield hne]
    refine iff_of_false Bool.noConfusion fun hlong => ?_
    have hwhole : rest.takeWhile (· ≠ ';') = rest := List.takeWhile_eq_self_iff.2 (all_ne_of_notMem hfield.1)
    rw [StartsTooLong, hwhole] at hlong
    exact absurd hfield.2 (not_le.2 hlong)

/-- The classes of the fields before the over-long one stay. -/
theorem parseInputFileAndBuildBom_tooLong (hfields : ∀ field ∈ fields, IsField 79 ';' field)
    (hlong : StartsTooLong rest) :
    parseInputFileAndBuildBom readDouble uninitialised (fileOf fields ++ rest) bom =
      (false, bom.addClasses (completedClasses (fields.map readDouble))) := by
  rw [parseInputFileAndBuildBom, parseLoop_fileOf hfields, parseLoop_tooLong hlong]
  exact Prod.ext rfl (foldl_readToken_bom uninitialised bom)

theorem addClasses_unchanged_iff {classes : List (DemandClass V)} :
    (bom.addClasses classes).bookingClasses = bom.bookingClasses ∧
      (bom.addClasses classes).virtualClasses = bom.virtualClasses ↔ classes = [] := by
  simp [SampleBom.addClasses]

theorem completedClasses_eq_nil_iff {tokens : List (Option V)} :
    completedClasses tokens = [] ↔ ∀ t, numericBefore tokens t % 3 = 0 → classAt tokens t = none := by
  rw [completedClasses, List.filterMap_eq_nil_iff]
  constructor
  · intro h t hcount
    by_cases ht : t < tokens.length
    · have hnone := h t (List.mem_range.2 ht)
      rwa [if_pos hcount] at hnone
    · exact classAt_of_length_le (by omega)
  · intro h t _
    by_cases hcount : numericBefore tokens t % 3 = 0
    · rw [if_pos hcount, h t hcount]
    · rw [if_neg hcount]

end failed

/-- **A failed load.** A load fails iff some field of the file is longer than the buffer. Then the classes that it adds,
to both lists, are those of every three consecutive numbers among the fields before, where the numbers before come in
threes; and both lists are as before iff there are no such three. -/
theorem parseInputFileAndBuildBom_failed (readDouble : List Char → Option V) (uninitialised : V)
    (inputFile : List Char) (bom : SampleBom V) :
    ((parseInputFileAndBuildBom readDouble uninitialised inputFile bom).1 = false ↔
      ∃ field ∈ inputFile.splitOn ';', 79 < field.length) ∧
    ((parseInputFileAndBuildBom readDouble uninitialised inputFile bom).1 = false →
      (parseInputFileAndBuildBom readDouble uninitialised inputFile bom).2 =
          bom.addClasses (completedClasses ((fieldsBefore inputFile).map readDouble)) ∧
        ((parseInputFileAndBuildBom readDouble uninitialised inputFile bom).2.bookingClasses = bom.bookingClasses ∧
            (parseInputFileAndBuildBom readDouble uninitialised inputFile bom).2.virtualClasses = bom.virtualClasses ↔
          ∀ t, numericBefore ((fieldsBefore inputFile).map readDouble) t % 3 = 0 →
            classAt ((fieldsBefore inputFile).map readDouble) t = none)) := by
  obtain ⟨fields, rest, rfl, hfields, hend⟩ := file_split inputFile
  have hfst : (parseInputFileAndBuildBom readDouble uninitialised (fileOf fields ++ rest) bom).1 = false ↔
      StartsTooLong rest := parseInputFileAndBuildBom_fst hfields hend
  refine ⟨hfst.trans (startsTooLong_iff hfields hend), fun hfalse => ?_⟩
  have hlong := hfst.1 hfalse
  rw [parseInputFileAndBuildBom_tooLong hfields hlong, fieldsBefore_fileOf hfields hlong]
  exact ⟨rfl, addClasses_unchanged_iff.trans completedClasses_eq_nil_iff⟩

/-! ### A record, and then a field of 80 characters -/

def truncatedFields : List (List Char) := ["1050".toList, " 45".toList, " 6".toList]

theorem parseInputFileAndBuildBom_failed_changed :
    parseInputFileAndBuildBom readNatural 0 (fileOf truncatedFields ++ List.replicate 80 'x') ⟨[], []⟩ =
      (false, ⟨[⟨1050, 45, 6⟩], [⟨[⟨1050, 45, 6⟩], 1050, 45, 6⟩]⟩) := by
  have hfields : ∀ field ∈ truncatedFields, IsField 79 ';' field := by decide
  have hlong : StartsTooLong (List.replicate 80 'x') := by decide
  rw [parseInputFileAndBuildBom_tooLong hfields hlong]
  decide

end Rmol
