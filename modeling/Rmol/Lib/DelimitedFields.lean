import Mathlib.Data.List.TakeWhile
/-!
# Reading a stream field by field

`std::istream::getline` into a buffer of fixed size, up to a delimiter. The delimiter is taken from the stream and
not stored. A call fails on a stream that is at its end, and in front of a field that is longer than the buffer; the
`eofbit` is set in the first case only.
-/

namespace DelimitedFields

universe u
variable {α : Type u} [DecidableEq α]

inductive Line (α : Type u) where
  /-- What is stored, and the rest of the stream. -/
  | read (buffer rest : List α)
  /-- The call failed; `eof` tells whether the stream is at its end. -/
  | failed (eof : Bool)

def getline (room : ℕ) (delim : α) (stream : List α) : Line α :=
  let buffer := stream.takeWhile (· ≠ delim)
  if stream = [] then .failed true
  else if room < buffer.length then .failed false
  else .read buffer (stream.dropWhile (· ≠ delim)).tail

/-- A field that fits into the buffer. -/
def IsField (room : ℕ) (delim : α) (field : List α) : Prop := delim ∉ field ∧ field.length ≤ room

instance (room : ℕ) (delim : α) (field : List α) : Decidable (IsField room delim field) :=
  inferInstanceAs (Decidable (_ ∧ _))

variable {room : ℕ} {delim : α}

theorem all_ne_of_notMem {field : List α} (h : delim ∉ field) : ∀ c ∈ field, decide (c ≠ delim) = true := by
  intro c hc
  exact decide_eq_true fun heq => h (heq ▸ hc)

theorem getline_field {field : List α} (h : IsField room delim field) (rest : List α) :
    getline room delim (field ++ delim :: rest) = .read field rest := by
  obtain ⟨hdelim, hlength⟩ := h
  have hall := all_ne_of_notMem hdelim
  have hbuffer : (field ++ delim :: rest).takeWhile (· ≠ delim) = field := by
    rw [List.takeWhile_append_of_pos hall]
    simp
  have hrest : (field ++ delim :: rest).dropWhile (· ≠ delim) = delim :: rest := by
    rw [List.dropWhile_append_of_pos hall]
    simp
  have hne : field ++ delim :: rest ≠ [] := List.append_ne_nil_of_right_ne_nil _ (List.cons_ne_nil _ _)
  simp only [getline, hbuffer, hrest, if_neg hne, if_neg (Nat.not_lt.2 hlength), List.tail_cons]

/-- The last field of a stream needs no delimiter. -/
theorem getline_last {field : List α} (h : IsField room delim field) (hne : field ≠ []) :
    getline room delim field = .read field [] := by
  obtain ⟨hdelim, hlength⟩ := h
  have hall := all_ne_of_notMem hdelim
  have hbuffer : field.takeWhile (· ≠ delim) = field := List.takeWhile_eq_self_iff.2 hall
  have hrest : field.dropWhile (· ≠ delim) = [] := List.dropWhile_eq_nil_iff.2 hall
  simp only [getline, hbuffer, hrest, if_neg hne, if_neg (Nat.not_lt.2 hlength), List.tail_nil]

/-- In front of a field that is longer than the buffer the call fails, without the end of the stream. -/
theorem getline_long {stream : List α} (h : room < (stream.takeWhile (· ≠ delim)).length) :
    getline room delim stream = .failed false := by
  have hne : stream ≠ [] := by
    rintro rfl
    simp at h
  simp only [getline, if_neg hne, if_pos h]

/-- The first field of a stream goes up to a delimiter or to the end. -/
theorem takeWhile_cases (delim : α) (stream : List α) : delim ∉ stream.takeWhile (· ≠ delim) ∧
    (stream = stream.takeWhile (· ≠ delim) ∨ ∃ rest, stream = stream.takeWhile (· ≠ delim) ++ delim :: rest) := by
  have hsplit := List.takeWhile_append_dropWhile (p := (· ≠ delim)) (l := stream)
  refine ⟨fun hmem => by simpa using List.mem_takeWhile_imp hmem, ?_⟩
  cases hdrop : stream.dropWhile (· ≠ delim) with
  | nil =>
    rw [hdrop, List.append_nil] at hsplit
    exact .inl hsplit.symm
  | cons c rest =>
    have hhead := List.head?_dropWhile_not (· ≠ delim) stream
    rw [hdrop] at hhead
    obtain rfl : c = delim := by simpa using hhead
    rw [hdrop] at hsplit
    exact .inr ⟨rest, hsplit.symm⟩

theorem splitOn_eq_takeWhile_cons (delim : α) (stream : List α) :
    ∃ fields, stream.splitOn delim = stream.takeWhile (· ≠ delim) :: fields := by
  obtain ⟨hnot, hwhole | ⟨rest, hrest⟩⟩ := takeWhile_cases delim stream
  · rw [← hwhole] at hnot ⊢
    exact ⟨[], List.splitOn_eq_singleton hnot⟩
  · have hfields := List.splitOn_append_cons_self (a := delim) (stream.takeWhile (· ≠ delim)) rest
    rw [← hrest, List.splitOn_eq_singleton hnot, List.singleton_append] at hfields
    exact ⟨rest.splitOn delim, hfields⟩

/-- What a stream starts with. -/
theorem stream_cases (room : ℕ) (delim : α) (stream : List α) :
    stream = [] ∨ room < (stream.takeWhile (· ≠ delim)).length ∨ (stream ≠ [] ∧ IsField room delim stream) ∨
      ∃ field rest, IsField room delim field ∧ stream = field ++ delim :: rest := by
  by_cases hnil : stream = []
  · exact .inl hnil
  by_cases hlong : room < (stream.takeWhile (· ≠ delim)).length
  · exact .inr (.inl hlong)
  obtain ⟨hnot, hwhole | ⟨rest, hrest⟩⟩ := takeWhile_cases delim stream
  · rw [← hwhole] at hnot hlong
    exact .inr (.inr (.inl ⟨hnil, hnot, not_lt.1 hlong⟩))
  · exact .inr (.inr (.inr ⟨_, rest, ⟨hnot, not_lt.1 hlong⟩, hrest⟩))

/-- A call that stores something shortens the stream. -/
theorem length_rest_lt {stream buffer rest : List α} (h : getline room delim stream = .read buffer rest) :
    rest.length < stream.length := by
  simp only [getline] at h
  split_ifs at h with hnil hlong
  obtain ⟨-, rfl⟩ := Line.read.inj h
  have hpos : 0 < stream.length := List.length_pos_iff.2 hnil
  have hdrop : (stream.dropWhile (· ≠ delim)).length ≤ stream.length := (List.dropWhile_suffix _).length_le
  rw [List.length_tail]
  omega

end DelimitedFields
