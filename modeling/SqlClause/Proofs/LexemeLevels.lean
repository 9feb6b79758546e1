import SqlClause.Proofs.Lexemes

/-! # Levels of lexemes

Brackets open and close, and so do the words of a case. A scan counts what is open, and fails where
something closes that is not open or where it meets a lexeme at the outer level at which it stops. -/

namespace SqlClause.Sql

inductive Turn where
  | opens
  | closes
  | stays
  deriving DecidableEq

/-- The level after lexemes that start at the level `n`. -/
def scan (turn : Lexeme → Turn) (stops : Lexeme → Bool) (n : Nat) : List Lexeme → Option Nat
  | [] => some n
  | t :: ts =>
    if n = 0 ∧ stops t then none
    else
      match turn t, n with
      | .opens, n => scan turn stops (n + 1) ts
      | .closes, 0 => none
      | .closes, n + 1 => scan turn stops n ts
      | .stays, n => scan turn stops n ts

section Scan

variable {turn : Lexeme → Turn} {stops stops' : Lexeme → Bool} {m n : Nat} {t : Lexeme}
  {ts us : List Lexeme}

@[simp] theorem scan_nil : scan turn stops n [] = some n := rfl

theorem scan_cons (t : Lexeme) (ts : List Lexeme) :
    scan turn stops n (t :: ts) = (scan turn stops n [t]).bind fun m => scan turn stops m ts := by
  simp only [scan]
  split
  · rfl
  · cases turn t <;> cases n <;> rfl

theorem scan_append :
    scan turn stops n (ts ++ us) = (scan turn stops n ts).bind fun m => scan turn stops m us := by
  induction ts generalizing n with
  | nil => rfl
  | cons t ts ih =>
    rw [List.cons_append, scan_cons, scan_cons t ts, Option.bind_assoc]
    congr 1
    funext m
    exact ih

theorem scan_append_of_some (h : scan turn stops n ts = some m) :
    scan turn stops n (ts ++ us) = scan turn stops m us := by
  rw [scan_append, h]
  rfl

theorem scan_cons_of_stays (h : turn t = .stays) (hs : n = 0 → stops t = false) :
    scan turn stops n (t :: ts) = scan turn stops n ts := by
  have go : ¬(n = 0 ∧ stops t = true) := fun hn => by
    rw [hs hn.1] at hn
    cases hn.2
  simp only [scan, if_neg go, h]

/-- Within something that is open nothing stops a scan. -/
theorem scan_within (stops' : Lexeme → Bool) (h : scan turn stops n ts = some m) (k : Nat) :
    scan turn stops' (n + (k + 1)) ts = some (m + (k + 1)) := by
  induction ts generalizing n with
  | nil => rw [← Option.some.inj h]; rfl
  | cons t ts ih =>
    simp only [scan] at h ⊢
    split at h
    · cases h
    · rw [if_neg fun hn => by omega]
      cases hturn : turn t with
      | opens =>
        rw [hturn] at h
        have := ih h
        rwa [show n + 1 + (k + 1) = n + (k + 1) + 1 by omega] at this
      | closes =>
        cases n with
        | zero => rw [hturn] at h; cases h
        | succ n =>
          rw [hturn] at h
          rw [show n + 1 + (k + 1) = n + (k + 1) + 1 by omega]
          exact ih h
      | stays =>
        rw [hturn] at h
        exact ih h

/-- What is scanned without a stop is scanned where less stops. -/
theorem scan_mono (le : ∀ t, stops' t = true → stops t = true) (h : scan turn stops n ts = some m) :
    scan turn stops' n ts = some m := by
  induction ts generalizing n with
  | nil => exact h
  | cons t ts ih =>
    simp only [scan] at h ⊢
    split at h
    · cases h
    · rename_i hs
      rw [if_neg fun hn => hs ⟨hn.1, le t hn.2⟩]
      cases hturn : turn t with
      | opens => rw [hturn] at h; exact ih h
      | closes =>
        cases n with
        | zero => rw [hturn] at h; cases h
        | succ n => rw [hturn] at h; exact ih h
      | stays => rw [hturn] at h; exact ih h

/-- What is open, with all that is in it, is scanned as one piece. -/
theorem scan_enclosed {a b : Lexeme} (ha : turn a = .opens) (hb : turn b = .closes)
    (hstop : stops a = false) (h : scan turn stops' 0 ts = some 0) :
    scan turn stops 0 (a :: ts ++ [b]) = some 0 := by
  have inner : scan turn stops 1 ts = some 1 := by simpa using scan_within stops h 0
  rw [scan_append, scan_cons]
  simp [scan, ha, hb, hstop, inner]

end Scan

namespace Lexeme

def bracket : Lexeme → Turn
  | .opened => .opens
  | .closed => .closes
  | _ => .stays

/-- The case of letters does not matter. -/
def isWord (word : String) : Lexeme → Bool
  | .word cs => cs.map Char.toUpper = word.toList
  | _ => false

/-- The words around a case. -/
def caseWord (t : Lexeme) : Turn :=
  if t.isWord "CASE" then .opens else if t.isWord "END" then .closes else .stays

end Lexeme

/-- The number of brackets that are open after some lexemes, if none closes that is not open. -/
def brackets (n : Nat) (ts : List Lexeme) : Option Nat :=
  scan Lexeme.bracket (fun _ => false) n ts

def IsBalanced (ts : List Lexeme) : Prop := brackets 0 ts = some 0

instance (ts : List Lexeme) : Decidable (IsBalanced ts) := inferInstanceAs (Decidable (_ = _))

end SqlClause.Sql
