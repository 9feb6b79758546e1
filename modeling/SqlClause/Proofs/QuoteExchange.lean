import Mathlib
import SqlClause.Dialect
import SqlClause.Proofs.Spellings

/-! # Other quotes around the same text

Whether a text is atomic depends on its significant characters and on where its quotes stand. So it
stays what it is when other characters take the place of the quotes. -/

namespace SqlClause

/-- The significant characters stay, and no other becomes significant. -/
def KeepsSignificant (σ : Char → Char) : Prop :=
  ∀ c, σ c = c ∨ isSignificant c = false ∧ isSignificant (σ c) = false

/-- Texts of significant characters come of the same texts under changes that agree on what becomes
significant. -/
theorem map_eq_map_iff {f g : Char → Char}
    (h : ∀ c d, isSignificant d = true → (f c = d ↔ g c = d)) {cs ds : List Char}
    (hds : ds.all isSignificant = true) : cs.map f = ds ↔ cs.map g = ds := by
  induction cs generalizing ds with
  | nil => rfl
  | cons c cs ih =>
    cases ds with
    | nil => simp
    | cons d ds =>
      rw [List.all_cons, Bool.and_eq_true] at hds
      obtain ⟨hd, hds⟩ := hds
      rw [List.map_cons, List.map_cons, List.cons.injEq, List.cons.injEq, h c d hd, ih hds]

namespace KeepsSignificant

variable {σ : Char → Char} (h : KeepsSignificant σ) {c d : Char} {cs ds : List Char}

include h

theorem apply_eq_self (hc : isSignificant c = true) : σ c = c :=
  (h c).resolve_right fun hn => by rw [hn.1] at hc; cases hc

theorem apply_eq_iff (hd : isSignificant d = true) : σ c = d ↔ c = d := by
  rcases h c with hc | ⟨hc, hs⟩
  · rw [hc]
  · constructor
    · rintro rfl
      rw [hs] at hd
      cases hd
    · rintro rfl
      rw [hc] at hd
      cases hd

theorem apply_ne (hd : isSignificant d = true) (hc : c ≠ d) : σ c ≠ d :=
  fun e => hc ((h.apply_eq_iff hd).mp e)

/-- A property of significant characters only is kept. -/
theorem comp_eq {p : Char → Bool} (hp : ∀ c, p c = true → isSignificant c = true) : p ∘ σ = p := by
  funext c
  rcases h c with hc | ⟨hc, hs⟩
  · rw [Function.comp, hc]
  · have lost {d : Char} (hd : isSignificant d = false) : p d = false :=
      Bool.eq_false_iff.mpr fun hpd => by rw [hp d hpd] at hd; cases hd
    rw [Function.comp, lost hs, lost hc]

theorem map_eq_iff (hds : ds.all isSignificant = true) : cs.map σ = ds ↔ cs = ds := by
  have same : cs.map σ = ds ↔ cs.map id = ds := map_eq_map_iff (fun _ _ hd => h.apply_eq_iff hd) hds
  rwa [List.map_id] at same

theorem map_eq_some_iff {c? : Option Char} (hd : isSignificant d = true) :
    c?.map σ = some d ↔ c? = some d := by
  cases c? with
  | none => simp
  | some c => simp [h.apply_eq_iff hd]

end KeepsSignificant

theorem isSignificant_of_isAlphanum {c : Char} (h : c.isAlphanum = true) :
    isSignificant c = true := by
  rw [isSignificant, h, Bool.true_or]

theorem isSignificant_of_isDigit {c : Char} (h : c.isDigit = true) : isSignificant c = true :=
  isSignificant_of_isAlphanum (by rw [Char.isAlphanum, h, Bool.or_true])

theorem isSignificant_of_isUpper {c : Char} (h : c.isUpper = true) : isSignificant c = true :=
  isSignificant_of_isAlphanum (by rw [Char.isAlphanum, Char.isAlpha, h]; rfl)

theorem isSignificant_of_isWordCharacter {c : Char} (h : Atom.isWordCharacter c = true) :
    isSignificant c = true := by
  simp only [Atom.isWordCharacter, Bool.or_eq_true, decide_eq_true_eq] at h
  rcases h with (rfl | rfl) | h
  · decide
  · decide
  · exact isSignificant_of_isAlphanum h

theorem isSignificant_of_isLower {c : Char} (h : c.isLower = true) : isSignificant c = true :=
  isSignificant_of_isAlphanum (by rw [Char.isAlphanum, Char.isAlpha, h, Bool.or_true, Bool.true_or])

/-- Capitals come of letters only. -/
theorem KeepsSignificant.toUpper_eq_iff {σ : Char → Char} (h : KeepsSignificant σ) {c d : Char}
    (hd : isSignificant d = true) : (σ c).toUpper = d ↔ c.toUpper = d := by
  rcases h c with hc | ⟨hc, hs⟩
  · rw [hc]
  · have same {b : Char} (hb : isSignificant b = false) : b.toUpper = b :=
      Char.toUpper_eq_of_not_isLower fun hl => by rw [isSignificant_of_isLower hl] at hb; cases hb
    rw [same hs, same hc, h.apply_eq_iff hd]

namespace Atom

section Shapes

variable {σ : Char → Char} (h : KeepsSignificant σ)

include h

theorem closesAtEnd_map (depth : Nat) (cs : List Char) :
    closesAtEnd depth (cs.map σ) = closesAtEnd depth cs := by
  have opened : σ '(' = '(' := h.apply_eq_self (by decide)
  have closed : σ ')' = ')' := h.apply_eq_self (by decide)
  fun_induction closesAtEnd depth cs with
  | case1 depth => rfl
  | case2 depth cs ih => rw [List.map_cons, opened, closesAtEnd, ih]
  | case3 cs => rw [List.map_cons, closed, closesAtEnd, List.isEmpty_map]
  | case4 depth cs ih => rw [List.map_cons, closed, closesAtEnd, ih]
  | case5 depth c cs hopened hzero hsucc ih =>
    have ho : σ c ≠ '(' := h.apply_ne (by decide) hopened
    have hc : σ c ≠ ')' := h.apply_ne (by decide) fun e => by
      cases depth with
      | zero => exact hzero rfl e
      | succ depth => exact hsucc depth rfl e
    rw [List.map_cons, ← ih]
    cases depth <;> simp [closesAtEnd, hc]

theorem isGroup_map (cs : List Char) : isGroup (cs.map σ) = isGroup cs := by
  cases cs with
  | nil => rfl
  | cons c cs =>
    by_cases hc : c = '('
    · subst hc
      rw [List.map_cons, h.apply_eq_self (by decide), isGroup, isGroup, closesAtEnd_map h]
    · have hs : σ c ≠ '(' := h.apply_ne (by decide) hc
      simp [isGroup, hc, hs]

theorem isCall_map (cs : List Char) : isCall (cs.map σ) = isCall cs := by
  have letter : (fun c : Char => c.isUpper || c = '_') ∘ σ = fun c => c.isUpper || c = '_' :=
    h.comp_eq fun c hc => by
      simp only [Bool.or_eq_true, decide_eq_true_eq] at hc
      rcases hc with hc | rfl
      · exact isSignificant_of_isUpper hc
      · decide
  simp only [isCall, List.takeWhile_map, List.dropWhile_map, letter, List.isEmpty_map, isGroup_map h]

theorem isKeyword_map (cs : List Char) : isKeyword (cs.map σ) = isKeyword cs := by
  have significant : ∀ k ∈ keywords, k.toList.all isSignificant = true :=
    List.all_eq_true.mp (by decide)
  have same (k : String) (hk : k ∈ keywords) :
      String.ofList ((cs.map σ).map Char.toUpper) = k ↔ String.ofList (cs.map Char.toUpper) = k := by
    rw [String.ofList_eq, String.ofList_eq, List.map_map]
    exact map_eq_map_iff (fun _ _ hd => h.toUpper_eq_iff hd) (significant k hk)
  rw [isKeyword, isKeyword, Bool.eq_iff_iff, List.contains_iff_mem, List.contains_iff_mem]
  constructor
  · exact fun hm => (same _ hm).mp rfl ▸ hm
  · exact fun hm => (same _ hm).mpr rfl ▸ hm

theorem isNumeral_map (cs : List Char) : isNumeral (cs.map σ) = isNumeral cs := by
  have digit : Char.isDigit ∘ σ = Char.isDigit := h.comp_eq fun c => isSignificant_of_isDigit
  have minus : (cs.map σ).head? = some '-' ↔ cs.head? = some '-' := by
    rw [List.head?_map]
    exact h.map_eq_some_iff (by decide)
  have body : (if (cs.map σ).head? = some '-' then (cs.map σ).tail else cs.map σ) =
      (if cs.head? = some '-' then cs.tail else cs).map σ := by
    rw [if_congr minus rfl rfl, ← List.map_tail]
    split <;> rfl
  simp only [isNumeral, body, List.dropWhile_map, digit]
  generalize (if cs.head? = some '-' then cs.tail else cs) = ds
  cases hds : ds.dropWhile Char.isDigit with
  | nil => simp
  | cons c places =>
    by_cases hc : c = '.'
    · subst hc
      rw [List.map_cons, h.apply_eq_self (by decide)]
      simp [digit]
    · have hs : σ c ≠ '.' := h.apply_ne (by decide) hc
      simp [hc, hs]

theorem isString_map (cs : List Char) : isString (cs.map σ) = isString cs := by
  cases cs with
  | nil => rfl
  | cons c cs =>
    by_cases hc : c = '\''
    · subst hc
      have last : (cs.map σ).getLast? = some '\'' ↔ cs.getLast? = some '\'' := by
        rw [List.getLast?_map]
        exact h.map_eq_some_iff (by decide)
      rw [List.map_cons, h.apply_eq_self (by decide), isString, isString, decide_eq_decide]
      exact last
    · have hs : σ c ≠ '\'' := h.apply_ne (by decide) hc
      simp [isString, hc, hs]

theorem isStar_map (cs : List Char) : isStar (cs.map σ) = isStar cs := by
  have alone : cs.map σ = ['*'] ↔ cs = ['*'] := h.map_eq_iff (by decide)
  have suffix : ['.', '*'].isSuffixOf (cs.map σ) = ['.', '*'].isSuffixOf cs := by
    have kept : ['.', '*'].map σ = ['.', '*'] := (h.map_eq_iff (by decide)).mpr rfl
    rw [Bool.eq_iff_iff, List.isSuffixOf_iff_suffix, List.isSuffixOf_iff_suffix]
    constructor
    · rintro ⟨ds, hds⟩
      obtain ⟨es, fs, rfl, -, hfs⟩ := List.map_eq_append_iff.mp hds.symm
      rw [(h.map_eq_iff (by decide)).mp hfs]
      exact List.suffix_append _ _
    · rintro ⟨ds, rfl⟩
      exact ⟨ds.map σ, by rw [List.map_append, kept]⟩
  simp only [isStar, alone, suffix]

variable {q q' : Char} (hq : ∀ c, σ c = q' ↔ c = q)

include hq

theorem afterQuotedWord?_map (cs : List Char) :
    afterQuotedWord? q' (cs.map σ) = (afterQuotedWord? q cs).map (List.map σ) := by
  cases cs with
  | nil => rfl
  | cons c cs =>
    have quote : (fun c => decide (c ≠ q')) ∘ σ = fun c => decide (c ≠ q) := by
      funext c
      simp [hq]
    have word : isWordCharacter ∘ σ = isWordCharacter :=
      h.comp_eq fun _ => isSignificant_of_isWordCharacter
    rw [List.map_cons]
    simp only [afterQuotedWord?, List.takeWhile_map, List.dropWhile_map, quote, List.all_map, word,
      hq, ne_eq, List.map_eq_nil_iff]
    cases cs.dropWhile fun c => decide (c ≠ q) with
    | nil => rfl
    | cons d rest =>
      simp only [List.map_cons]
      split <;> rfl

theorem isReference_map (cs : List Char) : isReference q' (cs.map σ) = isReference q cs := by
  rw [isReference, isReference, afterQuotedWord?_map h hq]
  cases afterQuotedWord? q cs with
  | none => rfl
  | some rest =>
    cases rest with
    | nil => rfl
    | cons c rest =>
      by_cases hc : c = '.'
      · subst hc
        have point : σ '.' = '.' := h.apply_eq_self (by decide)
        simp [point, afterQuotedWord?_map h hq]
      · have hs : σ c ≠ '.' := h.apply_ne (by decide) hc
        simp [hc, hs]

/-- A text is atomic between other quotes if it was. -/
theorem isAtomic_map (params : Nat) (cs : List Char) :
    isAtomic q' params (cs.map σ) = isAtomic q params cs := by
  have mark : cs.map σ = ['?'] ↔ cs = ['?'] :=
    h.map_eq_iff (by decide)
  simp only [isAtomic, List.isEmpty_map, isReference_map h hq, isCall_map h, mark, isGroup_map h,
    isKeyword_map h, isNumeral_map h, isString_map h, isStar_map h]

end Shapes

end Atom

section Quotes

variable {σ : Char → Char} {q q' : Char} (hq : ∀ c, σ c = q' ↔ c = q)

include hq

theorem Text.doubled_map (cs : List Char) :
    doubled q' (cs.map σ) = (doubled q cs).map σ := by
  have quote : σ q = q' := (hq q).mpr rfl
  induction cs with
  | nil => rfl
  | cons c cs ih =>
    simp only [List.map_cons, doubled, hq, ih]
    split <;> simp [quote]

theorem Text.quoted_map (cs : List Char) : quoted q' (cs.map σ) = (quoted q cs).map σ := by
  rw [quoted, quoted, doubled_map hq, List.map_cons, List.map_append, List.map_singleton,
    (hq q).mpr rfl]

end Quotes

/-! ## Backticks for double quotes -/

/-- A backtick takes the place of a double quote, and another character that of a backtick. -/
def exchange (x c : Char) : Char := if c = '"' then '\x60' else if c = '\x60' then x else c

variable {x c : Char} {cs : List Char}

theorem exchange_eq_backtick_iff (hx : x ≠ '\x60') : exchange x c = '\x60' ↔ c = '"' := by
  unfold exchange
  split
  · simp_all
  · split <;> simp_all

theorem exchange_eq_self_iff (hx : x ≠ '\x60') : exchange x c = c ↔ c ≠ '"' ∧ c ≠ '\x60' := by
  unfold exchange
  split
  · simp_all
  · split <;> simp_all

theorem keepsSignificant_exchange (hx : isSignificant x = false) :
    KeepsSignificant (exchange x) := by
  intro c
  unfold exchange
  split
  · exact .inr ⟨by subst c; decide, by decide⟩
  · split
    · exact .inr ⟨by subst c; decide, hx⟩
    · exact .inl rfl

/-- If it does not matter what takes the place of backticks, there are none. -/
theorem not_mem_of_map_exchange {y : Char} (hxy : x ≠ y)
    (h : cs.map (exchange x) = cs.map (exchange y)) : '\x60' ∉ cs :=
  fun hm => hxy (List.map_inj_left.mp h _ hm)

end SqlClause
