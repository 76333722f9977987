import Mathlib.Data.List.Range
import Rmol.Lib.DelimitedFields
/-!
# The demand file (`InventoryParser.cpp`)

| here | there |
| --- | --- |
| `readToken`                 | the body of the loop, after the conversion of the buffer (`:77-116`) |
| `parseLoop`                 | `while (inputFile.getline (buffer, sizeof (buffer), ';'))` (`:74`) |
| `parseInputFileAndBuildBom` | `:38`, from the opened file on |

A `Char` stands for a byte of the file, so that the length of a field is what it takes of the buffer. The conversion
`iStringStr >> dval` of a buffer is a parameter (`readDouble`); a field is numeric where it succeeds.

The field counter `i` is moved by numeric fields only. After a record with one or two of them it is no longer the
position in the record, and what is read next goes to the wrong attributes. `parseInputFileAndBuildBom_isolates_iff`
says when that does no harm.
-/

namespace Rmol

open DelimitedFields

variable {V : Type}

/-- What the parser sets of a booking class. -/
structure DemandClass (V : Type) where
  yield : V
  mean : V
  stdDev : V
deriving DecidableEq, Repr

structure VirtualClassStruct (V : Type) where
  bookingClassList : List (DemandClass V)
  yield : V
  mean : V
  stdDev : V
deriving DecidableEq, Repr

/-- The class lists of the dummy segment-cabin and of the dummy leg-cabin. -/
structure SampleBom (V : Type) where
  bookingClasses : List (DemandClass V)
  virtualClasses : List (VirtualClassStruct V)
deriving DecidableEq, Repr

/-- The local variables of the parser. -/
structure ParserState (V : Type) where
  i : ℕ
  hasAllParams : Bool
  lYield : V
  lMean : V
  lStdDev : V
  bom : SampleBom V

/-- The virtual class of a single booking class. -/
def DemandClass.virtualClass (lBookingClass : DemandClass V) : VirtualClassStruct V where
  bookingClassList := [lBookingClass]
  yield := lBookingClass.yield
  mean := lBookingClass.mean
  stdDev := lBookingClass.stdDev

def SampleBom.addClasses (bom : SampleBom V) (classes : List (DemandClass V)) : SampleBom V where
  bookingClasses := bom.bookingClasses ++ classes
  virtualClasses := bom.virtualClasses ++ classes.map DemandClass.virtualClass

@[simp] theorem SampleBom.addClasses_nil (bom : SampleBom V) : bom.addClasses [] = bom := by
  simp [SampleBom.addClasses]

@[simp] theorem SampleBom.addClasses_addClasses (bom : SampleBom V) (l l' : List (DemandClass V)) :
    (bom.addClasses l).addClasses l' = bom.addClasses (l ++ l') := by
  simp [SampleBom.addClasses]

/-! ## The parser -/

/-- `if (iStringStr >> dval)`: the attribute by the field counter, which then moves on. -/
def ParserState.store (state : ParserState V) (dval : V) : ParserState V :=
  if state.i = 1 then { state with lYield := dval, i := 2 }
  else if state.i = 2 then { state with lMean := dval, i := 3 }
  else if state.i = 3 then { state with lStdDev := dval, i := 1 }
  else { state with i := state.i + 1 }

/-- The class of the three attributes. -/
def ParserState.create (state : ParserState V) : ParserState V :=
  { state with bom := state.bom.addClasses [⟨state.lYield, state.lMean, state.lStdDev⟩] }

def readToken (state : ParserState V) (token : Option V) : ParserState V :=
  let state := if state.i = 1 then { state with hasAllParams := true } else state
  let state := match token with
    | some dval => state.store dval
    | none => { state with hasAllParams := false }
  if state.hasAllParams && state.i == 1 then state.create else state

/-- The loop over the stream, with what `inputFile.eof()` is after it. -/
def parseLoop (readDouble : List Char → Option V) (inputFile : List Char) (state : ParserState V) :
    Bool × ParserState V :=
  match _h : getline 79 ';' inputFile with
  | .failed eof => (eof, state)
  | .read buffer rest => parseLoop readDouble rest (readToken state (readDouble buffer))
termination_by inputFile.length
decreasing_by exact length_rest_lt ‹_›

/-- The variables before the loop; the three attributes are not initialised. -/
def startState (uninitialised : V) (bom : SampleBom V) : ParserState V :=
  ⟨1, true, uninitialised, uninitialised, uninitialised, bom⟩

def parseInputFileAndBuildBom (readDouble : List Char → Option V) (uninitialised : V) (inputFile : List Char)
    (bom : SampleBom V) : Bool × SampleBom V :=
  let result := parseLoop readDouble inputFile (startState uninitialised bom)
  (result.1, result.2.bom)

/-! ### One token -/

theorem readToken_none (state : ParserState V) : readToken state none = { state with hasAllParams := false } := by
  unfold readToken
  split <;> rfl

theorem readToken_first {state : ParserState V} (h : state.i = 1) (dval : V) :
    readToken state (some dval) = { state with hasAllParams := true, lYield := dval, i := 2 } := by
  simp [readToken, ParserState.store, h]

theorem readToken_second {state : ParserState V} (h : state.i = 2) (dval : V) :
    readToken state (some dval) = { state with lMean := dval, i := 3 } := by
  simp [readToken, ParserState.store, h]

theorem readToken_third {state : ParserState V} (h : state.i = 3) (dval : V) :
    readToken state (some dval) = if state.hasAllParams then { state with lStdDev := dval, i := 1 : ParserState V }.create
      else { state with lStdDev := dval, i := 1 } := by
  simp [readToken, ParserState.store, h]

/-! ## From the file to its tokens -/

section file
variable {readDouble : List Char → Option V}

theorem parseLoop_field {field : List Char} (h : IsField 79 ';' field) (rest : List Char) (state : ParserState V) :
    parseLoop readDouble (field ++ ';' :: rest) state =
      parseLoop readDouble rest (readToken state (readDouble field)) := by
  rw [parseLoop]
  split
  · rename_i heq
    rw [getline_field h] at heq
    cases heq
  · rename_i heq
    rw [getline_field h] at heq
    obtain ⟨rfl, rfl⟩ := Line.read.inj heq
    rfl

theorem parseLoop_nil (state : ParserState V) : parseLoop readDouble [] state = (true, state) := by
  rw [parseLoop]
  rfl

/-- The text of a list of fields. -/
def fileOf (fields : List (List Char)) : List Char := fields.flatMap fun field => field ++ [';']

theorem parseLoop_fileOf {fields : List (List Char)} (h : ∀ field ∈ fields, IsField 79 ';' field)
    (rest : List Char) (state : ParserState V) :
    parseLoop readDouble (fileOf fields ++ rest) state =
      parseLoop readDouble rest ((fields.map readDouble).foldl readToken state) := by
  induction fields generalizing state with
  | nil => rfl
  | cons field fields ih =>
    have hsplit : fileOf (field :: fields) ++ rest = field ++ ';' :: (fileOf fields ++ rest) := by
      simp [fileOf]
    rw [hsplit, parseLoop_field (h field List.mem_cons_self), ih fun f hf => h f (List.mem_cons_of_mem _ hf)]
    rfl

/-- The end of the last line. -/
theorem parseLoop_trailer {trailer : List Char}
    (h : trailer = [] ∨ IsField 79 ';' trailer ∧ readDouble trailer = none) (state : ParserState V) :
    (parseLoop readDouble trailer state).1 = true ∧ (parseLoop readDouble trailer state).2.bom = state.bom := by
  by_cases hnil : trailer = []
  · subst hnil
    rw [parseLoop_nil]
    exact ⟨rfl, rfl⟩
  · obtain ⟨hfield, hnone⟩ := h.resolve_left hnil
    rw [parseLoop]
    split
    · rename_i heq
      rw [getline_last hfield hnil] at heq
      cases heq
    · rename_i heq
      rw [getline_last hfield hnil] at heq
      obtain ⟨rfl, rfl⟩ := Line.read.inj heq
      rw [parseLoop_nil, hnone]
      exact ⟨rfl, by rw [readToken_none]⟩

end file

/-! ## The classes that the tokens make -/

/-- The number at a position, none where there is none. -/
def number (tokens : List (Option V)) (t : ℕ) : Option V := tokens[t]?.join

/-- The class of three consecutive fields from a position on. -/
def classAt (tokens : List (Option V)) (t : ℕ) : Option (DemandClass V) :=
  match number tokens t, number tokens (t + 1), number tokens (t + 2) with
  | some lYield, some lMean, some lStdDev => some ⟨lYield, lMean, lStdDev⟩
  | _, _, _ => none

/-- The numeric fields before a position. -/
def numericBefore (tokens : List (Option V)) (t : ℕ) : ℕ := (tokens.take t).countP Option.isSome

/-- The classes of every three consecutive numbers before which the numbers come in threes. -/
def completedClasses (tokens : List (Option V)) : List (DemandClass V) :=
  (List.range tokens.length).filterMap fun t => if numericBefore tokens t % 3 = 0 then classAt tokens t else none

section tokens
variable {tokens : List (Option V)}

theorem classAt_eq_some {t : ℕ} {c : DemandClass V} : classAt tokens t = some c ↔
    number tokens t = some c.yield ∧ number tokens (t + 1) = some c.mean ∧
      number tokens (t + 2) = some c.stdDev := by
  unfold classAt
  split
  · rename_i h₁ h₂ h₃
    obtain ⟨y, m, s⟩ := c
    simp [h₁, h₂, h₃]
  · rename_i hnone
    constructor
    · intro h
      cases h
    · rintro ⟨h₁, h₂, h₃⟩
      exact absurd h₃ (hnone _ _ _ h₁ h₂)

theorem numericBefore_succ (t : ℕ) :
    numericBefore tokens (t + 1) = numericBefore tokens t + if (number tokens t).isSome then 1 else 0 := by
  unfold numericBefore number
  rw [List.take_add_one, List.countP_append]
  cases htoken : tokens[t]? with
  | none => simp
  | some token => cases token <;> simp

/-- The class that the field at a position completes. -/
def completedAt (tokens : List (Option V)) : ℕ → Option (DemandClass V)
  | t + 2 => if numericBefore tokens t % 3 = 0 then classAt tokens t else none
  | _ => none

/-- What the variables hold before the field at position `n`. The counter is the number of numeric fields modulo
three; the flag tells whether the fields since it was 1 are numeric. -/
structure ReadSoFar (tokens : List (Option V)) (bom : SampleBom V) (n : ℕ) (state : ParserState V) : Prop where
  i : state.i = numericBefore tokens n % 3 + 1
  bom : state.bom = bom.addClasses ((List.range n).filterMap (completedAt tokens))
  second : state.i = 2 → ∃ t, n = t + 1 ∧
    number tokens t = if state.hasAllParams then some state.lYield else none
  third : state.i = 3 → ∃ t, n = t + 2 ∧
    if state.hasAllParams then number tokens t = some state.lYield ∧ number tokens (t + 1) = some state.lMean
    else number tokens t = none ∨ number tokens (t + 1) = none

/-- A completed class is the third number since the counter was 1. -/
theorem completedAt_eq_some {n : ℕ} {c : DemandClass V} : completedAt tokens n = some c ↔
    ∃ t, n = t + 2 ∧ numericBefore tokens n % 3 = 2 ∧ classAt tokens t = some c := by
  have hcount : ∀ t, classAt tokens t = some c →
      numericBefore tokens (t + 2) = numericBefore tokens t + 2 := by
    intro t hclass
    obtain ⟨h₁, h₂, -⟩ := classAt_eq_some.1 hclass
    rw [numericBefore_succ, numericBefore_succ, h₁, h₂]
    rfl
  constructor
  · intro h
    match n, h with
    | t + 2, h =>
      rw [completedAt] at h
      split at h
      · refine ⟨t, rfl, ?_, h⟩
        rw [hcount t h]
        omega
      · cases h
  · rintro ⟨t, rfl, hmod, hclass⟩
    rw [hcount t hclass] at hmod
    rw [completedAt, if_pos (by omega), hclass]

theorem completedAt_eq_none {n : ℕ} (h : number tokens n = none ∨ numericBefore tokens n % 3 ≠ 2) :
    completedAt tokens n = none := by
  refine Option.eq_none_iff_forall_ne_some.2 fun c hc => ?_
  obtain ⟨t, rfl, hmod, hclass⟩ := completedAt_eq_some.1 hc
  rcases h with h | h
  · rw [(classAt_eq_some.1 hclass).2.2] at h
    cases h
  · exact h hmod

theorem filterMap_completedAt_succ (n : ℕ) : (List.range (n + 1)).filterMap (completedAt tokens) =
    (List.range n).filterMap (completedAt tokens) ++ (completedAt tokens n).toList := by
  rw [List.range_succ, List.filterMap_append]
  cases h : completedAt tokens n with
  | none => simp [h]
  | some c => simp [h]

section step
variable {bom : SampleBom V} {n : ℕ} {state : ParserState V} {dval : V}

theorem ReadSoFar.step_none (h : ReadSoFar tokens bom n state) (hnumber : number tokens n = none) :
    ReadSoFar tokens bom (n + 1) (readToken state none) := by
  have hnone : completedAt tokens n = none := completedAt_eq_none (.inl hnumber)
  rw [readToken_none]
  refine ⟨?_, ?_, fun _ => ⟨n, rfl, hnumber⟩, fun hthree => ?_⟩
  · simpa [numericBefore_succ, hnumber] using h.i
  · simpa [filterMap_completedAt_succ, hnone] using h.bom
  · obtain ⟨t, rfl, -⟩ := h.third hthree
    exact ⟨t + 1, rfl, .inr hnumber⟩

theorem numericBefore_succ_of_some (hnumber : number tokens n = some dval) :
    numericBefore tokens (n + 1) = numericBefore tokens n + 1 := by
  rw [numericBefore_succ, hnumber]
  rfl

theorem ReadSoFar.step_first (h : ReadSoFar tokens bom n state) (hnumber : number tokens n = some dval)
    (hone : state.i = 1) : ReadSoFar tokens bom (n + 1) (readToken state (some dval)) := by
  have hi := h.i
  have hnone : completedAt tokens n = none := completedAt_eq_none (.inr (by omega))
  rw [readToken_first hone]
  refine ⟨?_, ?_, fun _ => ⟨n, rfl, hnumber⟩, fun hthree => ?_⟩
  · simp only [numericBefore_succ_of_some hnumber]
    omega
  · simpa [filterMap_completedAt_succ, hnone] using h.bom
  · cases hthree

theorem ReadSoFar.step_second (h : ReadSoFar tokens bom n state) (hnumber : number tokens n = some dval)
    (htwo : state.i = 2) : ReadSoFar tokens bom (n + 1) (readToken state (some dval)) := by
  have hi := h.i
  have hnone : completedAt tokens n = none := completedAt_eq_none (.inr (by omega))
  obtain ⟨t, rfl, hyield⟩ := h.second htwo
  rw [readToken_second htwo]
  refine ⟨?_, ?_, fun h => (by cases h), fun _ => ⟨t, rfl, ?_⟩⟩
  · simp only [numericBefore_succ_of_some hnumber]
    omega
  · simpa [filterMap_completedAt_succ, hnone] using h.bom
  · by_cases hflag : state.hasAllParams = true
    · rw [if_pos hflag] at hyield ⊢
      exact ⟨hyield, hnumber⟩
    · rw [if_neg hflag] at hyield ⊢
      exact .inl hyield

/-- The third number completes a class iff the flag is still up, that is iff the two fields before it are numbers. -/
theorem ReadSoFar.step_third (h : ReadSoFar tokens bom n state) (hnumber : number tokens n = some dval)
    (hthree : state.i = 3) : ReadSoFar tokens bom (n + 1) (readToken state (some dval)) := by
  have hi := h.i
  obtain ⟨t, rfl, hpair⟩ := h.third hthree
  rw [readToken_third hthree]
  by_cases hflag : state.hasAllParams = true
  · rw [if_pos hflag] at hpair ⊢
    have hsome : completedAt tokens (t + 2) = some ⟨state.lYield, state.lMean, dval⟩ :=
      completedAt_eq_some.2 ⟨t, rfl, by omega, classAt_eq_some.2 ⟨hpair.1, hpair.2, hnumber⟩⟩
    refine ⟨?_, ?_, fun h => (by cases h), fun h => (by cases h)⟩
    · simp only [numericBefore_succ_of_some hnumber, ParserState.create]
      omega
    · simp [filterMap_completedAt_succ, hsome, ParserState.create, h.bom]
  · rw [if_neg hflag] at hpair ⊢
    have hnone : completedAt tokens (t + 2) = none := by
      refine Option.eq_none_iff_forall_ne_some.2 fun c hc => ?_
      obtain ⟨t', heq, -, hclass⟩ := completedAt_eq_some.1 hc
      obtain rfl : t = t' := by omega
      obtain ⟨h₁, h₂, -⟩ := classAt_eq_some.1 hclass
      rcases hpair with hpair | hpair
      · rw [h₁] at hpair
        cases hpair
      · rw [h₂] at hpair
        cases hpair
    refine ⟨?_, ?_, fun h => (by cases h), fun h => (by cases h)⟩
    · simp only [numericBefore_succ_of_some hnumber]
      omega
    · simpa [filterMap_completedAt_succ, hnone] using h.bom

/-- **One token.** -/
theorem ReadSoFar.step (h : ReadSoFar tokens bom n state) {token : Option V} (htoken : tokens[n]? = some token) :
    ReadSoFar tokens bom (n + 1) (readToken state token) := by
  have hnumber : number tokens n = token := by
    rw [number, htoken]
    rfl
  cases token with
  | none => exact h.step_none hnumber
  | some dval =>
    have hi := h.i
    have hcases : state.i = 1 ∨ state.i = 2 ∨ state.i = 3 := by omega
    rcases hcases with hone | htwo | hthree
    · exact h.step_first hnumber hone
    · exact h.step_second hnumber htwo
    · exact h.step_third hnumber hthree

end step

/-- **All tokens.** -/
theorem readSoFar_take (uninitialised : V) (bom : SampleBom V) : ∀ n ≤ tokens.length,
    ReadSoFar tokens bom n ((tokens.take n).foldl readToken (startState uninitialised bom))
  | 0, _ => by
    refine ⟨rfl, ?_, fun h => (by cases h), fun h => (by cases h)⟩
    simp [startState]
  | n + 1, hn => by
    have htoken : tokens[n]? = some tokens[n] := List.getElem?_eq_getElem hn
    rw [List.take_add_one, htoken, List.foldl_append]
    exact (readSoFar_take uninitialised bom n (Nat.le_of_succ_le hn)).step htoken

theorem classAt_of_length_le {t : ℕ} (h : tokens.length ≤ t + 2) : classAt tokens t = none := by
  refine Option.eq_none_iff_forall_ne_some.2 fun c hc => ?_
  have hlast := (classAt_eq_some.1 hc).2.2
  rw [number, List.getElem?_eq_none h] at hlast
  cases hlast

/-- The classes that are completed, by the positions that they start at. -/
theorem filterMap_completedAt :
    (List.range tokens.length).filterMap (completedAt tokens) = completedClasses tokens := by
  unfold completedClasses
  have hnone : ∀ t, tokens.length ≤ t + 2 →
      (if numericBefore tokens t % 3 = 0 then classAt tokens t else none) = none := by
    intro t ht
    rw [classAt_of_length_le ht, ite_self]
  match hlength : tokens.length with
  | 0 => rfl
  | 1 =>
    have hfirst := hnone 0 (by omega)
    simp only [List.range_one, List.filterMap_cons, List.filterMap_nil, hfirst, completedAt]
  | n + 2 =>
    have hlast := hnone n (by omega)
    have hnext := hnone (n + 1) (by omega)
    conv_rhs => rw [List.range_succ, List.range_succ]
    conv_lhs => rw [List.range_succ_eq_map, List.range_succ_eq_map]
    simp only [List.filterMap_append, List.filterMap_cons, List.filterMap_nil, List.filterMap_map, List.map_cons,
      List.map_map, hlast, hnext, completedAt, List.append_nil]
    rfl

end tokens

/-- The classes that the tokens of a file make. -/
def parsedClasses (uninitialised : V) (tokens : List (Option V)) : List (DemandClass V) :=
  (tokens.foldl readToken (startState uninitialised ⟨[], []⟩)).bom.bookingClasses

/-- The classes of the records with three numbers: what the parser is for. -/
def recordClasses : List (Option V) → List (DemandClass V)
  | some lYield :: some lMean :: some lStdDev :: tokens => ⟨lYield, lMean, lStdDev⟩ :: recordClasses tokens
  | _ :: _ :: _ :: tokens => recordClasses tokens
  | _ => []

/-- The tokens with their positions for numbers. -/
def positions (tokens : List (Option V)) : List (Option ℕ) := tokens.mapIdx fun t token => token.map fun _ => t

/-- The classes with, for each attribute, the position of the field that it is read from. -/
def parsedFields (tokens : List (Option V)) : List (DemandClass ℕ) := parsedClasses 0 (positions tokens)

/-- The class of three fields. -/
def ofFields (tokens : List (Option V)) (c : DemandClass ℕ) : Option (DemandClass V) :=
  match number tokens c.yield, number tokens c.mean, number tokens c.stdDev with
  | some lYield, some lMean, some lStdDev => some ⟨lYield, lMean, lStdDev⟩
  | _, _, _ => none

/-- Three numbers in a row are a record iff the numbers before them come in threes. -/
def Aligned (tokens : List (Option V)) : Prop :=
  ∀ t, (classAt tokens t).isSome → (numericBefore tokens t % 3 = 0 ↔ t % 3 = 0)

section classes
variable {tokens : List (Option V)}

theorem foldl_readToken_bom (uninitialised : V) (bom : SampleBom V) :
    (tokens.foldl readToken (startState uninitialised bom)).bom = bom.addClasses (completedClasses tokens) := by
  have h := (readSoFar_take uninitialised bom tokens.length (le_refl tokens.length)).bom
  rwa [List.take_length, filterMap_completedAt] at h

theorem parsedClasses_eq (uninitialised : V) : parsedClasses uninitialised tokens = completedClasses tokens := by
  rw [parsedClasses, foldl_readToken_bom]
  rfl

theorem classAt_add_three (a b c : Option V) (t : ℕ) : classAt (a :: b :: c :: tokens) (t + 3) = classAt tokens t := rfl

theorem recordClasses_eq : ∀ tokens : List (Option V), recordClasses tokens =
    (List.range tokens.length).filterMap fun t => if t % 3 = 0 then classAt tokens t else none
  | [] => rfl
  | [a] => by cases a <;> rfl
  | [a, b] => by cases a <;> cases b <;> rfl
  | a :: b :: c :: tokens => by
    have hstep : recordClasses (a :: b :: c :: tokens) =
        (classAt (a :: b :: c :: tokens) 0).toList ++ recordClasses tokens := by
      cases a <;> cases b <;> cases c <;> rfl
    have hrange : List.range (tokens.length + 1 + 1 + 1) =
        0 :: 1 :: 2 :: (List.range tokens.length).map fun t => t + 3 := by
      simp only [List.range_succ_eq_map, List.map_cons, List.map_map]
      rfl
    rw [hstep, recordClasses_eq tokens, List.length_cons, List.length_cons, List.length_cons, hrange]
    simp only [List.filterMap_cons, List.filterMap_map, Function.comp_def, Nat.add_mod_right, classAt_add_three]
    cases classAt (a :: b :: c :: tokens) 0 <;> rfl

/-- Where the condition holds, the classes are those of the records. -/
theorem parsedClasses_of_aligned (h : Aligned tokens) (uninitialised : V) :
    parsedClasses uninitialised tokens = recordClasses tokens := by
  rw [parsedClasses_eq, completedClasses, recordClasses_eq]
  refine List.filterMap_congr fun t _ => ?_
  cases hclass : classAt tokens t with
  | none => simp
  | some c =>
    have hiff := h t (by rw [hclass]; rfl)
    simp only [hiff]

/-! ### Where the attributes come from -/

theorem number_positions (t : ℕ) : number (positions tokens) t = (number tokens t).map fun _ => t := by
  unfold number positions
  rw [List.getElem?_mapIdx]
  cases tokens[t]? with
  | none => rfl
  | some token => rfl

theorem numericBefore_positions (t : ℕ) : numericBefore (positions tokens) t = numericBefore tokens t := by
  induction t with
  | zero => rfl
  | succ t ih => rw [numericBefore_succ, numericBefore_succ, ih, number_positions, Option.isSome_map]

theorem classAt_positions (t : ℕ) :
    classAt (positions tokens) t = (classAt tokens t).map fun _ => ⟨t, t + 1, t + 2⟩ := by
  unfold classAt
  rw [number_positions, number_positions, number_positions]
  cases number tokens t <;> cases number tokens (t + 1) <;> cases number tokens (t + 2) <;> rfl

theorem aligned_positions : Aligned (positions tokens) ↔ Aligned tokens := by
  simp only [Aligned, classAt_positions, numericBefore_positions, Option.isSome_map]

/-- The classes are made of the fields at their positions. -/
theorem parsedClasses_eq_ofFields (uninitialised : V) :
    parsedClasses uninitialised tokens = (parsedFields tokens).filterMap (ofFields tokens) := by
  have hlength : (positions tokens).length = tokens.length := List.length_mapIdx
  rw [parsedFields, parsedClasses_eq, parsedClasses_eq, completedClasses, completedClasses, hlength,
    List.filterMap_filterMap]
  refine List.filterMap_congr fun t _ => ?_
  rw [numericBefore_positions, classAt_positions]
  by_cases hcount : numericBefore tokens t % 3 = 0
  · rw [if_pos hcount, if_pos hcount]
    cases hclass : classAt tokens t with
    | none => rfl
    | some c => exact hclass.symm
  · rw [if_neg hcount, if_neg hcount]
    rfl

/-- A class of fields names the position that it starts at. -/
theorem mem_classes_positions {t : ℕ} (hclass : (classAt tokens t).isSome) (p : ℕ → Prop) [DecidablePred p] :
    (⟨t, t + 1, t + 2⟩ : DemandClass ℕ) ∈ ((List.range (positions tokens).length).filterMap fun t =>
      if p t then classAt (positions tokens) t else none) ↔ p t := by
  obtain ⟨c, hc⟩ := Option.isSome_iff_exists.1 hclass
  have hat : classAt (positions tokens) t = some ⟨t, t + 1, t + 2⟩ := by
    rw [classAt_positions, hc]
    rfl
  rw [List.mem_filterMap]
  constructor
  · rintro ⟨t', -, hsome⟩
    split at hsome
    · rename_i hp
      have hyield := (classAt_eq_some.1 hsome).1
      rw [number_positions] at hyield
      obtain ⟨_, -, rfl⟩ := Option.map_eq_some_iff.1 hyield
      exact hp
    · cases hsome
  · intro hp
    have hlt : t < (positions tokens).length := by
      by_contra hlt
      rw [classAt_of_length_le (by omega)] at hat
      cases hat
    exact ⟨t, List.mem_range.2 hlt, by rw [if_pos hp, hat]⟩

/-- **Every class from its own record**, and one for each record of numbers, iff the numbers are aligned. -/
theorem parsedFields_iff : parsedFields tokens = recordClasses (positions tokens) ↔ Aligned tokens := by
  constructor
  · intro h t hclass
    rw [parsedFields, parsedClasses_eq, completedClasses, recordClasses_eq] at h
    rw [← numericBefore_positions, ← mem_classes_positions hclass fun t => numericBefore (positions tokens) t % 3 = 0, h,
      mem_classes_positions hclass fun t => t % 3 = 0]
  · intro h
    exact parsedClasses_of_aligned (aligned_positions.2 h) 0

end classes

/-! ## The records of a file -/

/-- A line `price; mean; standard deviation;`. -/
structure DemandRecord where
  price : List Char
  mean : List Char
  stdDev : List Char

def DemandRecord.fields (record : DemandRecord) : List (List Char) := [record.price, record.mean, record.stdDev]

/-- The class of a record whose three fields are numeric. -/
def DemandRecord.demandClass (readDouble : List Char → Option V) (record : DemandRecord) : Option (DemandClass V) :=
  match readDouble record.price, readDouble record.mean, readDouble record.stdDev with
  | some lYield, some lMean, some lStdDev => some ⟨lYield, lMean, lStdDev⟩
  | _, _, _ => none

/-- What the conversions of the fields give. -/
def tokensOf (readDouble : List Char → Option V) (records : List DemandRecord) : List (Option V) :=
  (records.flatMap DemandRecord.fields).map readDouble

theorem recordClasses_tokensOf (readDouble : List Char → Option V) (records : List DemandRecord) :
    recordClasses (tokensOf readDouble records) = records.filterMap (DemandRecord.demandClass readDouble) := by
  induction records with
  | nil => rfl
  | cons record records ih =>
    have htokens : tokensOf readDouble (record :: records) = readDouble record.price :: readDouble record.mean ::
        readDouble record.stdDev :: tokensOf readDouble records := rfl
    rw [htokens, List.filterMap_cons, DemandRecord.demandClass]
    cases readDouble record.price <;> cases readDouble record.mean <;> cases readDouble record.stdDev <;>
      simp [recordClasses, ih]

/-- **Isolation of malformed records.** A file of records is read to its end. The classes that it adds, to both
lists, are made of the fields `parsedFields`; these are the fields of the records of numbers, record by record, iff
every three numeric fields in a row are a record exactly when the numeric fields before them come in threes. -/
theorem parseInputFileAndBuildBom_isolates_iff (readDouble : List Char → Option V) (uninitialised : V)
    {records : List DemandRecord} {trailer : List Char}
    (hfields : ∀ record ∈ records, ∀ field ∈ record.fields, IsField 79 ';' field)
    (htrailer : trailer = [] ∨ IsField 79 ';' trailer ∧ readDouble trailer = none) (bom : SampleBom V) :
    parseInputFileAndBuildBom readDouble uninitialised (fileOf (records.flatMap DemandRecord.fields) ++ trailer) bom =
      (true, bom.addClasses ((parsedFields (tokensOf readDouble records)).filterMap
        (ofFields (tokensOf readDouble records)))) ∧
    (Aligned (tokensOf readDouble records) →
      (parsedFields (tokensOf readDouble records)).filterMap (ofFields (tokensOf readDouble records)) =
        records.filterMap (DemandRecord.demandClass readDouble)) ∧
    (parsedFields (tokensOf readDouble records) = recordClasses (positions (tokensOf readDouble records)) ↔
      Aligned (tokensOf readDouble records)) := by
  have hall : ∀ field ∈ records.flatMap DemandRecord.fields, IsField 79 ';' field := by
    intro field hfield
    obtain ⟨record, hrecord, hfield⟩ := List.mem_flatMap.1 hfield
    exact hfields record hrecord field hfield
  refine ⟨?_, fun h => ?_, parsedFields_iff⟩
  · obtain ⟨heof, hbom⟩ := parseLoop_trailer htrailer
      ((tokensOf readDouble records).foldl readToken (startState uninitialised bom))
    rw [parseInputFileAndBuildBom, parseLoop_fileOf hall]
    refine Prod.ext heof (hbom.trans ?_)
    rw [← parsedClasses_eq_ofFields uninitialised, foldl_readToken_bom, parsedClasses_eq]
  · rw [← parsedClasses_eq_ofFields uninitialised, parsedClasses_of_aligned h, recordClasses_tokensOf]

/-! ### Two files

The conversion reads natural numbers: blanks, then digits. The first file starts with a line of words; in the second
one the mean of the first record is missing. -/

def readNatural (buffer : List Char) : Option ℕ :=
  match (buffer.dropWhile Char.isWhitespace).takeWhile Char.isDigit with
  | [] => none
  | digits => some (digits.foldl (fun n c => 10 * n + (c.toNat - '0'.toNat)) 0)

def headerLine : List DemandRecord :=
  [⟨"price".toList, " mean".toList, " deviation".toList⟩, ⟨"\n567".toList, " 45".toList, " 15".toList⟩,
    ⟨"\n534".toList, " 40".toList, " 13".toList⟩]

theorem headerLine_fields : ∀ record ∈ headerLine, ∀ field ∈ record.fields, IsField 79 ';' field := by decide

theorem parseInputFileAndBuildBom_isolates_iff_headerLine :
    parseInputFileAndBuildBom readNatural 0 (fileOf (headerLine.flatMap DemandRecord.fields) ++ "\n".toList) ⟨[], []⟩ =
      (true, (⟨[], []⟩ : SampleBom ℕ).addClasses [⟨567, 45, 15⟩, ⟨534, 40, 13⟩]) ∧
    Aligned (tokensOf readNatural headerLine) := by
  have htrailer : "\n".toList = [] ∨ IsField 79 ';' "\n".toList ∧ readNatural "\n".toList = none :=
    .inr ⟨by decide, by decide⟩
  obtain ⟨hfile, hclasses, hiff⟩ :=
    parseInputFileAndBuildBom_isolates_iff readNatural 0 headerLine_fields htrailer ⟨[], []⟩
  have hfields : parsedFields (tokensOf readNatural headerLine) =
      recordClasses (positions (tokensOf readNatural headerLine)) := by decide
  have haligned := hiff.1 hfields
  refine ⟨?_, haligned⟩
  rw [hfile, hclasses haligned]
  decide

def missingMean : List DemandRecord :=
  [⟨"1050".toList, " n/a".toList, " 6".toList⟩, ⟨"\n567".toList, " 45".toList, " 15".toList⟩,
    ⟨"\n534".toList, " 40".toList, " 13".toList⟩]

/-- The one class takes its deviation from the price of the third record; none is made for the second one. -/
theorem parseInputFileAndBuildBom_misaligned :
    parseInputFileAndBuildBom readNatural 0 (fileOf (missingMean.flatMap DemandRecord.fields)) ⟨[], []⟩ =
      (true, ⟨[⟨45, 15, 534⟩], [⟨[⟨45, 15, 534⟩], 45, 15, 534⟩]⟩) ∧
    missingMean.filterMap (DemandRecord.demandClass readNatural) = [⟨567, 45, 15⟩, ⟨534, 40, 13⟩] := by
  refine ⟨?_, by decide⟩
  have hall : ∀ field ∈ missingMean.flatMap DemandRecord.fields, IsField 79 ';' field := by decide
  have hfile := @parseLoop_fileOf _ readNatural _ hall [] (startState 0 ⟨[], []⟩)
  rw [List.append_nil, parseLoop_nil] at hfile
  rw [parseInputFileAndBuildBom, hfile]
  decide

end Rmol
