/-! # Spans of time -/

namespace SqlClause

/-- Whole seconds of either sign, and nanoseconds that count upwards from them. -/
structure Duration where
  seconds : Int
  nanoseconds : Nat
  deriving DecidableEq

namespace Duration

/-- The span in nanoseconds. -/
def total (d : Duration) : Int := d.seconds * 1000000000 + d.nanoseconds

def fits (n : Int) : Bool := Int64.minValue.toInt ≤ n ∧ n ≤ Int64.maxValue.toInt

/-- The number of sixty-four bits that is nearest to `n`. -/
def saturated (n : Int) : Int64 :=
  if n < Int64.minValue.toInt then Int64.minValue
  else if Int64.maxValue.toInt < n then Int64.maxValue
  else .ofInt n

/-- Whole microseconds toward zero. A span with too many of them is counted in whole milliseconds,
and beyond the range of sixty-four bits the end of the range stands for it. -/
def microseconds (d : Duration) : Int64 :=
  let exact := d.total.tdiv 1000
  if fits exact then .ofInt exact else saturated (d.total.tdiv 1000000 * 1000)

theorem toInt_microseconds {d : Duration} (h : fits (d.total.tdiv 1000) = true) :
    d.microseconds.toInt = d.total.tdiv 1000 := by
  have bounds := h
  simp only [fits, decide_eq_true_eq] at bounds
  simp only [microseconds, h, if_true]
  exact Int64.toInt_ofInt_of_le bounds.1 (Int.lt_of_le_of_lt bounds.2 (by decide))

example : (⟨-1, 999999500⟩ : Duration).microseconds = 0 := by decide

end Duration

end SqlClause
