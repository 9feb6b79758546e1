import Mathlib
import SqlClause.Field.Function
import SqlClause.Proofs.ParameterOrder
import SqlClause.Proofs.TemplateWalk

/-! # The intervals that shifted dates bind

A date is shifted by whole microseconds. They are counted exactly while sixty-four bits hold the
count. Beyond that whole milliseconds are counted instead, and a thousand taken for each: where that
fits and the count itself does not, the rest of the last thousand is lost, and what is bound is not
the end of the range. -/

namespace SqlClause

namespace Duration

/-- The integer of sixty-four bits that is nearest to `n`. -/
def clamped (n : Int) : Int := max Int64.minValue.toInt (min n Int64.maxValue.toInt)

/-- Out of the range of sixty-four bits, but so near to it that the whole thousands are within. -/
def JustOutside (n : Int) : Prop := fits n = false ∧ fits (n.tdiv 1000 * 1000) = true

instance (n : Int) : Decidable (JustOutside n) := inferInstanceAs (Decidable (_ ∧ _))

/-- What a calendar answers for a span: the whole microseconds, if sixty-four bits hold them, and the
whole milliseconds. -/
structure Counts (d : Duration) where
  microseconds? : Option Int64
  milliseconds : Int64
  toInt_of_eq_some : ∀ n, microseconds? = some n → n.toInt = d.total.tdiv 1000
  not_fits_of_eq_none : microseconds? = none → fits (d.total.tdiv 1000) = false
  toInt_milliseconds : milliseconds.toInt = d.total.tdiv 1000000

/-- The microseconds, or a thousand for each millisecond up to the end of the range. -/
def Counts.interval {d : Duration} (c : d.Counts) : Int64 :=
  c.microseconds?.getD (saturated (c.milliseconds.toInt * 1000))

/-! ## The range of sixty-four bits -/

section Range

variable {m n : Int}

theorem fits_iff : fits n = true ↔ -9223372036854775808 ≤ n ∧ n ≤ 9223372036854775807 :=
  decide_eq_true_iff

theorem fits_eq_false_iff :
    fits n = false ↔ n < -9223372036854775808 ∨ 9223372036854775807 < n := by
  rw [← Bool.not_eq_true, fits_iff]
  omega

theorem fits_toInt (k : Int64) : fits k.toInt = true :=
  fits_iff.mpr ⟨k.le_toInt, Int.le_of_lt_add_one k.toInt_lt⟩

theorem clamped_eq (n : Int) :
    clamped n = max (-9223372036854775808) (min n 9223372036854775807) := rfl

theorem clamped_of_fits (h : fits n = true) : clamped n = n := by
  rw [fits_iff] at h
  rw [clamped_eq]
  omega

theorem clamped_mono (h : m ≤ n) : clamped m ≤ clamped n :=
  max_le_max_left _ (min_le_min_right _ h)

theorem toInt_saturated (n : Int) : (saturated n).toInt = clamped n := by
  have lowest : Int64.minValue.toInt = -9223372036854775808 := rfl
  have highest : Int64.maxValue.toInt = 9223372036854775807 := rfl
  rw [saturated, clamped_eq, lowest, highest]
  split
  next below => rw [lowest]; omega
  next notBelow =>
    split
    next above => rw [highest]; omega
    next notAbove =>
      rw [Int64.toInt_ofInt_of_le (by omega) (by omega)]
      omega

/-- Truncation toward zero by flooring the absolute value. -/
theorem tdiv_eq_or (n k : Int) :
    0 ≤ n ∧ n.tdiv k = n / k ∨ n < 0 ∧ n.tdiv k = -(-n / k) := by
  rcases lt_or_ge n 0 with negative | nonnegative
  · refine .inr ⟨negative, ?_⟩
    rw [← Int.tdiv_eq_ediv_of_nonneg (by omega), Int.neg_tdiv, Int.neg_neg]
  · exact .inl ⟨nonnegative, Int.tdiv_eq_ediv_of_nonneg nonnegative⟩

theorem justOutside_iff : JustOutside n ↔
    -9223372036854775999 ≤ n ∧ n < -9223372036854775808 ∨
      9223372036854775807 < n ∧ n ≤ 9223372036854775999 := by
  rw [JustOutside, fits_eq_false_iff, fits_iff]
  rcases tdiv_eq_or n 1000 with ⟨_, thousands⟩ | ⟨_, thousands⟩ <;> omega

theorem clamped_thousands_eq_iff (h : fits n = false) :
    clamped (n.tdiv 1000 * 1000) = clamped n ↔ ¬JustOutside n := by
  rw [fits_eq_false_iff] at h
  rw [justOutside_iff, clamped_eq, clamped_eq]
  rcases tdiv_eq_or n 1000 with ⟨_, thousands⟩ | ⟨_, thousands⟩ <;> omega

end Range

/-! ## The count that is bound -/

theorem total_tdiv_milliseconds (d : Duration) :
    d.total.tdiv 1000000 = (d.total.tdiv 1000).tdiv 1000 := by
  rcases tdiv_eq_or d.total 1000 with ⟨_, inner⟩ | ⟨_, inner⟩ <;>
    rcases tdiv_eq_or d.total 1000000 with ⟨_, whole⟩ | ⟨_, whole⟩ <;>
    rcases tdiv_eq_or (d.total.tdiv 1000) 1000 with ⟨_, outer⟩ | ⟨_, outer⟩ <;> omega

theorem Counts.interval_eq {d : Duration} (c : d.Counts) : c.interval = d.microseconds := by
  rw [interval]
  cases h : c.microseconds? with
  | none =>
    rw [microseconds, c.not_fits_of_eq_none h, c.toInt_milliseconds]
    rfl
  | some n =>
    have exact := c.toInt_of_eq_some n h
    have within : fits (d.total.tdiv 1000) = true := exact ▸ fits_toInt n
    exact Int64.toInt_inj.mp (exact.trans (toInt_microseconds within).symm)

theorem toInt_microseconds_of_not_fits {d : Duration} (h : fits (d.total.tdiv 1000) = false) :
    d.microseconds.toInt = clamped ((d.total.tdiv 1000).tdiv 1000 * 1000) := by
  rw [microseconds, h, total_tdiv_milliseconds]
  exact toInt_saturated _

/-- The exact count up to the ends of the range is bound for every span but those just outside. -/
theorem toInt_microseconds_eq_clamped_iff (d : Duration) :
    d.microseconds.toInt = clamped (d.total.tdiv 1000) ↔ ¬JustOutside (d.total.tdiv 1000) := by
  -- within the range the exact count is bound, and outside of it the whole thousands decide
  cases h : fits (d.total.tdiv 1000) with
  | true =>
    rw [toInt_microseconds h, clamped_of_fits h]
    exact iff_of_true rfl fun outside => Bool.false_ne_true (outside.1.symm.trans h)
  | false => rw [toInt_microseconds_of_not_fits h, clamped_thousands_eq_iff h]

theorem toInt_microseconds_of_justOutside {d : Duration} (h : JustOutside (d.total.tdiv 1000)) :
    d.microseconds.toInt = (d.total.tdiv 1000).tdiv 1000 * 1000 := by
  rw [toInt_microseconds_of_not_fits h.1, clamped_of_fits h.2]

theorem toInt_microseconds_mono {d d' : Duration} (h : ¬JustOutside (d.total.tdiv 1000))
    (h' : ¬JustOutside (d'.total.tdiv 1000)) (longer : d.total ≤ d'.total) :
    d.microseconds.toInt ≤ d'.microseconds.toInt := by
  rw [(toInt_microseconds_eq_clamped_iff d).mpr h, (toInt_microseconds_eq_clamped_iff d').mpr h']
  exact clamped_mono (Int.tdiv_le_tdiv (by decide) longer)

end Duration

/-! ## The call that binds it -/

/-- A call that shifts the date in a fragment by so many microseconds. -/
def Fragment.shifted (call : String) (f : Fragment) (n : Int64) : Fragment :=
  (((((blank f.dialect).writeString call).append f).writeString ", INTERVAL ").bind
    (.int n)).writeString " MICROSECOND)"

@[simp] theorem Fragment.params_shifted (call : String) (f : Fragment) (n : Int64) :
    (f.shifted call n).params = f.params ++ [.int n] := by
  simp [shifted, writeString]

/-- After the opening bracket of the call the date is written as it is. -/
theorem Field.fragment_shifted {text call : String}
    (pieces : text.toList.splitOn '?' =
      [call.toList, ", INTERVAL ".toList, " MICROSECOND)".toList])
    (opened : call.toList.getLast? = some '(') (x : Field DateTime) (n : Int64) (d : Dialect) :
    (x.apply text [.value (.int n)] : Field DateTime).expr.fragment d =
      (x.expr.fragment d).shifted call n := by
  have flat : Mode.after false ([] ++ call.toList) = .flat := if_pos (by simp [opened])
  have date (f : Fragment) : x.arg.write .flat f = f.append (x.expr.fragment f.dialect) := by
    simp [arg, Arg.write, x.expr.write_eq_append f]
  have interval (before : List Char) (f : Fragment) :
      (Arg.value (.int n)).write (.after false before) f = f.bind (.int n) := by
    rw [Mode.after]
    split <;> simp [Arg.write]
  rw [Expr.fragment, apply, Expr.write_template, Expr.effective_pair, pieces,
    Fragment.splice_cons_cons, Fragment.splice_cons_cons, Fragment.splice_single, flat, date,
    interval, Fragment.shifted, Expr.dialect_fragment]
  rfl

section Shifts

variable (x : Field DateTime) (d : Duration) (dialect : Dialect)

theorem Field.fragment_later : (x.later d).expr.fragment dialect =
    (x.expr.fragment dialect).shifted "DATE_ADD(" d.microseconds :=
  fragment_shifted (by decide) (by decide) x d.microseconds dialect

theorem Field.fragment_earlier : (x.earlier d).expr.fragment dialect =
    (x.expr.fragment dialect).shifted "DATE_SUB(" d.microseconds :=
  fragment_shifted (by decide) (by decide) x d.microseconds dialect

theorem Field.params_later : ((x.later d).expr.statement dialect).params =
    (x.expr.statement dialect).params ++ [.int d.microseconds] :=
  (congrArg Fragment.params (x.fragment_later d dialect)).trans (Fragment.params_shifted ..)

theorem Field.params_earlier : ((x.earlier d).expr.statement dialect).params =
    (x.expr.statement dialect).params ++ [.int d.microseconds] :=
  (congrArg Fragment.params (x.fragment_earlier d dialect)).trans (Fragment.params_shifted ..)

end Shifts

open Duration

/-- In every dialect a shifted date is the call with the date and, as its last value, the number of
microseconds that the calendar's counts give. It is the exact number toward zero, up to the ends of
sixty-four bits, for every span but those just outside of the range; for those it is the whole
thousands. Between spans that are not just outside, a longer one never binds less. -/
theorem bound_interval_is_clamped_count (x : Field DateTime) (d : Duration) (dialect : Dialect) :
    let n := d.total.tdiv 1000
    ((x.later d).expr.fragment dialect =
        (x.expr.fragment dialect).shifted "DATE_ADD(" d.microseconds ∧
      (x.earlier d).expr.fragment dialect =
        (x.expr.fragment dialect).shifted "DATE_SUB(" d.microseconds) ∧
      (((x.later d).expr.statement dialect).params =
          (x.expr.statement dialect).params ++ [.int d.microseconds] ∧
        ((x.earlier d).expr.statement dialect).params =
          (x.expr.statement dialect).params ++ [.int d.microseconds]) ∧
      (∀ c : d.Counts, c.interval = d.microseconds) ∧
      (d.microseconds.toInt = clamped n ↔ ¬JustOutside n) ∧
      (JustOutside n → d.microseconds.toInt = n.tdiv 1000 * 1000) ∧
      ∀ d' : Duration, ¬JustOutside n → ¬JustOutside (d'.total.tdiv 1000) → d.total ≤ d'.total →
        d.microseconds.toInt ≤ d'.microseconds.toInt := by
  intro n
  exact ⟨⟨x.fragment_later d dialect, x.fragment_earlier d dialect⟩,
    ⟨x.params_later d dialect, x.params_earlier d dialect⟩, Counts.interval_eq,
    toInt_microseconds_eq_clamped_iff d, toInt_microseconds_of_justOutside,
    fun _ => toInt_microseconds_mono⟩

/-- Spans at the upper end of the range: the last within, the last just outside, and the first
beyond that, which has no count of microseconds. -/
theorem bound_interval_is_clamped_count_at_end :
    let x : Field DateTime := .ofColumn "t" "created_at"
    let within : Duration := ⟨9223372036854, 775807999⟩
    let outside : Duration := ⟨9223372036854, 775999999⟩
    let beyond : Duration := ⟨9223372036854, 776000000⟩
    ¬JustOutside (within.total.tdiv 1000) ∧ JustOutside (outside.total.tdiv 1000) ∧
      ¬JustOutside (beyond.total.tdiv 1000) ∧ within.total ≤ beyond.total ∧
      within.microseconds.toInt ≤ beyond.microseconds.toInt ∧
      outside.microseconds.toInt = 9223372036854775000 ∧
      (∃ c : beyond.Counts, c.microseconds? = none ∧ c.interval = beyond.microseconds) ∧
      ((x.earlier beyond).expr.statement .postgres).params =
        (x.expr.statement .postgres).params ++ [.int 9223372036854775807] := by
  intro x within outside beyond
  have first : ¬JustOutside (within.total.tdiv 1000) := by decide
  have second : JustOutside (outside.total.tdiv 1000) := by decide
  have third : ¬JustOutside (beyond.total.tdiv 1000) := by decide
  have longer : within.total ≤ beyond.total := by decide
  obtain ⟨-, -, -, -, -, mono⟩ := bound_interval_is_clamped_count x within .mysql
  obtain ⟨-, -, -, -, thousands, -⟩ := bound_interval_is_clamped_count x outside .sqlite
  obtain ⟨-, ⟨-, params⟩, counts, -⟩ := bound_interval_is_clamped_count x beyond .postgres
  have highest : beyond.microseconds = 9223372036854775807 := by decide
  let answer : beyond.Counts :=
    ⟨none, 9223372036854776, by simp, fun _ => by decide, by decide⟩
  exact ⟨first, second, third, longer, mono beyond first third longer,
    (thousands second).trans (by decide), ⟨answer, rfl, counts answer⟩, highest ▸ params⟩

/-- One microsecond more than the last that fits binds 807 less, and not the last that fits. -/
theorem interval_just_outside_is_smaller :
    let x : Field DateTime := .ofColumn "" "created_at"
    let shorter : Duration := ⟨9223372036854, 775807000⟩
    let longer : Duration := ⟨9223372036854, 775808000⟩
    shorter.total < longer.total ∧ clamped (longer.total.tdiv 1000) = 9223372036854775807 ∧
      ((x.later shorter).expr.statement .mysql).params = [.int 9223372036854775807] ∧
      ((x.later longer).expr.statement .mysql).params = [.int 9223372036854775000] := by
  intro x shorter longer
  have none : (x.expr.statement .mysql).params = [] :=
    (Expr.params_write x.expr (.blank .mysql)).trans
      (by simp [x, Field.ofColumn, Expr.scalars, Expr.operands])
  have params (d : Duration) :
      ((x.later d).expr.statement .mysql).params = [.int d.microseconds] := by
    rw [x.params_later, none, List.nil_append]
  have last : shorter.microseconds = 9223372036854775807 := by decide
  have thousands : longer.microseconds = 9223372036854775000 := by decide
  exact ⟨by decide, by decide, last ▸ params shorter, thousands ▸ params longer⟩

end SqlClause
