import Mathlib
import SqlClause.Column.Path

/-! # What reading a column accepts

A path is a star or a word, with at most one word before it. Reading gives the column that a path
names, and refuses all other texts. -/

namespace SqlClause.Column

/-- Letters of ASCII and the underscore. -/
def IsInitial (c : Char) : Prop := ('a' ≤ c ∧ c ≤ 'z') ∨ ('A' ≤ c ∧ c ≤ 'Z') ∨ c = '_'

/-- Letters and digits of ASCII, the underscore and the dollar sign. -/
def IsInner (c : Char) : Prop := IsInitial c ∨ ('0' ≤ c ∧ c ≤ '9') ∨ c = '$'

instance : DecidablePred IsInitial := fun c =>
  inferInstanceAs (Decidable (('a' ≤ c ∧ c ≤ 'z') ∨ ('A' ≤ c ∧ c ≤ 'Z') ∨ c = '_'))

instance : DecidablePred IsInner := fun c =>
  inferInstanceAs (Decidable (IsInitial c ∨ ('0' ≤ c ∧ c ≤ '9') ∨ c = '$'))

theorem startsWord_iff {c : Char} : startsWord c = true ↔ IsInitial c := by
  simp only [startsWord, IsInitial, Char.isAlpha, Char.isUpper, Char.isLower, decide_eq_true_eq,
    Bool.or_eq_true, Bool.and_eq_true]
  tauto

theorem continuesWord_iff {c : Char} : continuesWord c = true ↔ IsInner c := by
  simp only [continuesWord, IsInner, IsInitial, Char.isAlphanum, Char.isAlpha, Char.isUpper,
    Char.isLower, Char.isDigit, decide_eq_true_eq, Bool.or_eq_true, Bool.and_eq_true]
  tauto

def IsSegment : List Char → Prop
  | [] => False
  | c :: cs => IsInitial c ∧ ∀ d ∈ cs, IsInner d

instance : DecidablePred IsSegment
  | [] => .isFalse id
  | c :: cs =>
    have : Decidable (∀ d ∈ cs, IsInner d) := List.decidableBAll _ _
    inferInstanceAs (Decidable (IsInitial c ∧ ∀ d ∈ cs, IsInner d))

/-- The last part is a word or a star, and the part before it, if there is one, is a word. -/
inductive IsPath : List Char → Prop where
  | star : IsPath ['*']
  | word {cs : List Char} (h : IsSegment cs) : IsPath cs
  | starIn {ts : List Char} (ht : IsSegment ts) : IsPath (ts ++ ['.', '*'])
  | wordIn {ts cs : List Char} (ht : IsSegment ts) (h : IsSegment cs) : IsPath (ts ++ '.' :: cs)

/-- The table and the name with a point between them. -/
def path (c : Column) : List Char :=
  match c.table with
  | some table => table.toList ++ '.' :: c.name.toList
  | none => c.name.toList

/-- A last part, and the column that it names without a table. -/
inductive NamesLast : List Char → Column → Prop where
  | star : NamesLast ['*'] star
  | word {cs : List Char} (h : IsSegment cs) : NamesLast cs (named (String.ofList cs))

/-- A path and the column that it names. -/
inductive Names : List Char → Column → Prop where
  | last {cs : List Char} {c : Column} (h : NamesLast cs c) : Names cs c
  | inTable {ts cs : List Char} {c : Column} (ht : IsSegment ts) (h : NamesLast cs c) :
      Names (ts ++ '.' :: cs) { c with table := some (String.ofList ts) }

theorem isPath_iff_exists_names {cs : List Char} : IsPath cs ↔ ∃ c, Names cs c := by
  constructor
  · rintro (_ | h | ht | ⟨ht, h⟩)
    · exact ⟨_, .last .star⟩
    · exact ⟨_, .last (.word h)⟩
    · exact ⟨_, .inTable ht .star⟩
    · exact ⟨_, .inTable ht (.word h)⟩
  · rintro ⟨c, (_ | h) | ⟨ht, _ | h⟩⟩
    · exact .star
    · exact .word h
    · exact .starIn ht
    · exact .wordIn ht h

/-! ## Words -/

theorem not_isSegment_star : ¬IsSegment ['*'] := by decide

theorem IsSegment.isInner {cs : List Char} (h : IsSegment cs) : ∀ c ∈ cs, IsInner c := by
  cases cs with
  | nil => cases h
  | cons c cs => exact List.forall_mem_cons.mpr ⟨.inl h.1, h.2⟩

theorem IsSegment.not_mem {cs : List Char} {c : Char} (h : IsSegment cs) (hc : ¬IsInner c) : c ∉ cs :=
  fun hmem => hc (h.isInner c hmem)

theorem IsSegment.ne_nil {cs : List Char} (h : IsSegment cs) : cs ≠ [] := by
  rintro rfl
  exact h

theorem IsSegment.head? {cs : List Char} (h : IsSegment cs) : cs.head? ≠ some '*' := by
  cases cs with
  | nil => nofun
  | cons c cs =>
    rintro ⟨⟩
    exact not_isSegment_star ⟨h.1, nofun⟩

/-- No table is a star. -/
theorem IsPath.eq_star {cs : List Char} (h : IsPath cs) (hstar : cs.head? = some '*') :
    cs = ['*'] := by
  have lead {ts rest : List Char} (ht : IsSegment ts) : (ts ++ rest).head? ≠ some '*' := by
    rw [List.head?_append_of_ne_nil _ ht.ne_nil]
    exact ht.head?
  cases h with
  | star => rfl
  | word h => exact absurd hstar h.head?
  | starIn ht => exact absurd hstar (lead ht)
  | wordIn ht h => exact absurd hstar (lead ht)

theorem checked_eq_ok_iff {segment : List Char} {s : String} :
    checked segment = .ok s ↔ IsSegment segment ∧ s = String.ofList segment := by
  cases segment with
  | nil => simp [checked, IsSegment]
  | cons c rest =>
    have inner : rest.find? (!continuesWord ·) = none ↔ ∀ d ∈ rest, IsInner d := by
      simp only [List.find?_eq_none, Bool.not_eq_true, Bool.not_eq_false', ← continuesWord_iff]
    rw [checked, IsSegment, ← startsWord_iff, ← inner]
    cases startsWord c <;> cases rest.find? (!continuesWord ·) <;> simp [eq_comm]

theorem last_eq_ok_iff {segment : List Char} {c : Column} :
    last segment = .ok c ↔ NamesLast segment c := by
  rw [last]
  split
  · rename_i hstar
    subst hstar
    constructor
    · intro h
      obtain rfl := Except.ok.inj h
      exact .star
    · rintro (_ | h)
      · rfl
      · exact absurd h not_isSegment_star
  · rename_i hword
    constructor
    · intro h
      cases hs : checked segment with
      | error fault => rw [hs] at h; cases h
      | ok s =>
        rw [hs] at h
        obtain rfl := Except.ok.inj h
        obtain ⟨hsegment, rfl⟩ := checked_eq_ok_iff.mp hs
        exact .word hsegment
    · rintro (_ | h)
      · exact absurd rfl hword
      · rw [checked_eq_ok_iff.mpr ⟨h, rfl⟩]
        rfl

/-! ## Parts -/

theorem segments_eq_splitOn (cs : List Char) : segments cs = cs.splitOn '.' := by
  induction cs with
  | nil => rfl
  | cons c cs ih =>
    rw [List.splitOn_cons_eq_if_modifyHead, ← ih, segments, segments, List.foldr_cons]
    simp only [beq_iff_eq]

theorem NamesLast.not_mem {cs : List Char} {c : Column} (h : NamesLast cs c) {d : Char}
    (hd : ¬IsInner d) (hstar : d ≠ '*') : d ∉ cs := by
  cases h with
  | star => simpa using hstar
  | word h => exact h.not_mem hd

theorem segments_last {cs : List Char} {c : Column} (h : NamesLast cs c) : segments cs = [cs] := by
  rw [segments_eq_splitOn]
  exact List.splitOn_eq_singleton (h.not_mem (by decide) (by decide))

theorem segments_inTable {ts cs : List Char} {c : Column} (ht : IsSegment ts) (h : NamesLast cs c) :
    segments (ts ++ '.' :: cs) = [ts, cs] := by
  have parts : ∀ part ∈ [ts, cs], '.' ∉ part := by
    simp only [List.forall_mem_cons]
    exact ⟨ht.not_mem (by decide), h.not_mem (by decide) (by decide), nofun⟩
  have joined : ['.'].intercalate [ts, cs] = ts ++ '.' :: cs := by simp [List.intercalate]
  rw [segments_eq_splitOn, ← joined, List.splitOn_intercalate _ parts (by simp)]

theorem ofSegments_pair_eq_ok_iff {ts cs : List Char} {c : Column} :
    ofSegments [ts, cs] = .ok c ↔
      IsSegment ts ∧ ∃ b, NamesLast cs b ∧ c = { b with table := some (String.ofList ts) } := by
  rw [ofSegments]
  constructor
  · intro h
    cases ht : checked ts with
    | error fault => rw [ht] at h; cases h
    | ok t =>
      cases hb : last cs with
      | error fault => rw [ht, hb] at h; cases h
      | ok b =>
        rw [ht, hb] at h
        obtain rfl := Except.ok.inj h
        obtain ⟨hts, rfl⟩ := checked_eq_ok_iff.mp ht
        have full : String.ofList ts ≠ "" := by simpa using hts.ne_nil
        exact ⟨hts, b, last_eq_ok_iff.mp hb, by rw [Column.inTable, if_neg full]⟩
  · rintro ⟨hts, b, hb, rfl⟩
    have full : String.ofList ts ≠ "" := by simpa using hts.ne_nil
    have placed : b.inTable (String.ofList ts) = { b with table := some (String.ofList ts) } := by
      rw [Column.inTable, if_neg full]
    rw [checked_eq_ok_iff.mpr ⟨hts, rfl⟩, last_eq_ok_iff.mpr hb, ← placed]
    rfl

theorem ofSegments_segments_eq_ok_iff {cs : List Char} {c : Column} :
    ofSegments (segments cs) = .ok c ↔ Names cs c := by
  constructor
  · have joined : ['.'].intercalate (segments cs) = cs := by
      rw [segments_eq_splitOn, List.intercalate_splitOn]
    intro h
    generalize segments cs = parts at h joined
    match parts with
    | [] => cases h
    | [name] =>
      obtain rfl : name = cs := by simpa [List.intercalate] using joined
      exact .last (last_eq_ok_iff.mp h)
    | [table, name] =>
      obtain rfl : table ++ '.' :: name = cs := by simpa [List.intercalate] using joined
      obtain ⟨ht, b, hb, rfl⟩ := ofSegments_pair_eq_ok_iff.mp h
      exact .inTable ht hb
    | _ :: _ :: _ :: _ => cases h
  · rintro (h | ⟨ht, h⟩)
    · rw [segments_last h]
      exact last_eq_ok_iff.mpr h
    · rw [segments_inTable ht h]
      exact ofSegments_pair_eq_ok_iff.mpr ⟨ht, _, h, rfl⟩

theorem Names.not_mem {cs : List Char} {c : Column} (h : Names cs c) {d : Char} (hd : ¬IsInner d)
    (hstar : d ≠ '*') (hpoint : d ≠ '.') : d ∉ cs := by
  rcases h with h | ⟨ht, h⟩
  · exact h.not_mem hd hstar
  · simp only [List.mem_append, List.mem_cons, not_or]
    exact ⟨ht.not_mem hd, hpoint, h.not_mem hd hstar⟩

theorem Names.ne_nil {cs : List Char} {c : Column} (h : Names cs c) : cs ≠ [] := by
  rcases h with (_ | h) | _
  · simp
  · exact h.ne_nil
  · simp

/-- Reading gives the columns that paths name. -/
theorem read_eq_ok_iff_names {s : String} {c : Column} : read s = .ok c ↔ Names s.toList c := by
  constructor
  · intro h
    rw [read] at h
    split at h
    · cases h
    · split at h
      · cases h
      · cases hp : ofSegments (segments s.toList) with
        | error fault => rw [hp] at h; cases h
        | ok b =>
          rw [hp] at h
          obtain rfl := Except.ok.inj h
          exact ofSegments_segments_eq_ok_iff.mp hp
  · intro h
    have clean : '\x00' ∉ s.toList := h.not_mem (by decide) (by decide) (by decide)
    rw [read, if_neg h.ne_nil, if_neg clean, ofSegments_segments_eq_ok_iff.mpr h]
    rfl

/-- All that reading refuses it refuses as a bad path. -/
theorem read_eq_ok_or_invalid (s : String) :
    (∃ c, read s = .ok c) ∨ ∃ fault, read s = .error (.invalidIdentifier s fault) := by
  rw [read]
  generalize (if s.toList = [] then Except.error PathFault.empty
    else if '\x00' ∈ s.toList then .error .nul else ofSegments (segments s.toList)) = column
  cases column with
  | ok c => exact .inl ⟨c, rfl⟩
  | error fault => exact .inr ⟨fault, rfl⟩

/-! ## Columns -/

section Named

variable {cs : List Char} {c : Column}

theorem NamesLast.label (h : NamesLast cs c) : c.label = none := by cases h <;> rfl

theorem NamesLast.table (h : NamesLast cs c) : c.table = none := by cases h <;> rfl

theorem NamesLast.name (h : NamesLast cs c) : c.name.toList = cs := by
  cases h with
  | star => rfl
  | word h => exact String.toList_ofList

theorem NamesLast.raw_iff (h : NamesLast cs c) : c.raw = true ↔ c.name = "*" := by
  cases h with
  | star => exact iff_of_true rfl rfl
  | word h =>
    refine iff_of_false Bool.false_ne_true fun hname => not_isSegment_star ?_
    have hcs : (String.ofList cs).toList = ['*'] := congrArg String.toList hname
    rw [String.toList_ofList] at hcs
    exact hcs ▸ h

theorem Names.label (h : Names cs c) : c.label = none := by
  cases h with
  | last h => exact h.label
  | inTable ht h => exact h.label

theorem Names.raw_iff (h : Names cs c) : c.raw = true ↔ c.name = "*" := by
  cases h with
  | last h => exact h.raw_iff
  | inTable ht h => exact h.raw_iff

theorem Names.path (h : Names cs c) : c.path = cs := by
  cases h with
  | last h => rw [Column.path, h.table]; exact h.name
  | inTable ht h => rw [Column.path]; simp only [String.toList_ofList, h.name]

end Named

end SqlClause.Column
