import SqlClause.Proofs.Spellings
import SqlClause.Proofs.ValueReplacement
import SqlClause.Proofs.WritingLocality

/-! # Recodings

A recoding turns the characters of one dialect into those of another and values into values. If it
leaves alone what the writer looks at, writing goes along with it: what an expression writes into a
recoded fragment is the recoding of what it writes into the fragment. -/

namespace SqlClause

/-- A change of characters and values, from one dialect to another, that neither makes nor loses a
null, keeps what is significant, and agrees with how the dialects quote and with what is atomic in
them. -/
structure Recoding where
  source : Dialect
  target : Dialect
  char : Char → Char
  value : Value → Value
  value_eq_null_iff : ∀ v, value v = .null ↔ v = .null
  char_eq_self : ∀ c, isSignificant c = true → char c = c
  quoted : ∀ cs : List Char, (∀ c ∈ cs, char c = c) →
    target.quoted cs = (source.quoted cs).map char
  isAtomic_map : ∀ n cs, Atom.isAtomic target.quote n (cs.map char) = Atom.isAtomic source.quote n cs

namespace Recoding

variable (r : Recoding)

def part : Part → Part
  | .text cs => .text (cs.map r.char)
  | .parameter index => .parameter index

def fragment (f : Fragment) : Fragment where
  dialect := r.target
  parts := f.parts.map r.part
  params := f.params.map r.value

def operand (p : Operand) : Operand := ⟨r.fragment p.fragment, p.loose⟩

/-- A text that stays as it is. -/
def IsPlain (cs : List Char) : Prop := ∀ c ∈ cs, r.char c = c

variable {r} {f g : Fragment} {cs : List Char}

theorem IsPlain.map (h : r.IsPlain cs) : cs.map r.char = cs :=
  (List.map_congr_left h).trans (List.map_id' cs)

theorem isPlain_of_all (h : cs.all isSignificant = true) : r.IsPlain cs :=
  fun c hc => r.char_eq_self c (List.all_eq_true.mp h c hc)

/-! ## Parts -/

theorem rewrites_part (r : Recoding) : Part.Rewrites r.part r.char :=
  ⟨fun _ => rfl, fun index => ⟨index, rfl⟩⟩

theorem part_shift (n : Nat) (p : Part) : r.part (p.shift n) = (r.part p).shift n := by
  cases p <;> rfl

/-! ## Fragments -/

variable (r)

@[simp] theorem dialect_fragment (f : Fragment) : (r.fragment f).dialect = r.target := rfl

@[simp] theorem params_fragment (f : Fragment) :
    (r.fragment f).params = f.params.map r.value := rfl

theorem bind_fragment (f : Fragment) (v : Value) :
    (r.fragment f).bind (r.value v) = r.fragment (f.bind v) := by
  simp [Fragment.bind, fragment, part]

theorem supply_fragment (f : Fragment) (v : Value) :
    (r.fragment f).supply (r.value v) = r.fragment (f.supply v) := by
  simp [Fragment.supply, fragment]

theorem supplyAll_fragment (f : Fragment) (vs : List Value) :
    (r.fragment f).supplyAll (vs.map r.value) = r.fragment (f.supplyAll vs) := by
  induction vs generalizing f with
  | nil => rfl
  | cons v vs ih =>
    rw [List.map_cons, Fragment.supplyAll, List.foldl_cons, supply_fragment]
    exact ih _

theorem append_fragment (f g : Fragment) :
    (r.fragment f).append (r.fragment g) = r.fragment (f.append g) := by
  have shifted (n : Nat) (ps : List Part) :
      (ps.map r.part).map (Part.shift n) = (ps.map (Part.shift n)).map r.part := by
    rw [List.map_map, List.map_map]
    exact List.map_congr_left fun p _ => (part_shift n p).symm
  simp only [Fragment.append, fragment, List.length_map, shifted, r.rewrites_part.map_foldl_add,
    List.map_append]

@[simp] theorem isVoid_fragment (f : Fragment) : (r.fragment f).isVoid = f.isVoid := by
  have kept : (fun p => decide (p = .text [])) ∘ r.part = fun p => decide (p = .text []) := by
    funext p
    cases p <;> simp [part]
  rw [Fragment.isVoid, fragment, List.isEmpty_map, List.all_map, kept, Fragment.isVoid]

theorem canonical_fragment (f : Fragment) :
    (r.fragment f).canonical = f.canonical.map r.char := by
  have mark : r.char '?' = '?' := r.char_eq_self _ (by decide)
  have here : (Part.chars fun _ => ['?']) ∘ r.part =
      fun p => (p.chars fun _ => ['?']).map r.char := by
    funext p
    cases p <;> simp [part, Part.chars, mark]
  rw [Fragment.canonical, Fragment.chars, fragment, List.flatMap_map, Fragment.canonical,
    Fragment.chars, List.map_flatMap]
  exact congrArg (f.parts.flatMap ·) here

variable {r}

theorem write_fragment (h : r.IsPlain cs) (f : Fragment) :
    (r.fragment f).write cs = r.fragment (f.write cs) := by
  have here := r.rewrites_part.map_addText cs f.parts
  rw [h.map] at here
  simp [Fragment.write, fragment, here]

theorem writeName_fragment (hf : f.dialect = r.source) {name : String} (h : r.IsPlain name.toList) :
    (r.fragment f).writeName name = r.fragment (f.writeName name) := by
  have here := r.rewrites_part.map_addText (f.dialect.quoted name.toList) f.parts
  rw [hf, ← r.quoted _ h] at here
  simp [Fragment.writeName, Fragment.write, fragment, here, hf]

theorem isAtomic_fragment (hg : g.dialect = r.source) : (r.fragment g).isAtomic = g.isAtomic := by
  rw [Fragment.isAtomic, canonical_fragment, dialect_fragment, params_fragment, List.length_map,
    r.isAtomic_map, Fragment.isAtomic, hg]

theorem bindAll_fragment (f : Fragment) (vs : List Value) :
    (r.fragment f).bindAll (vs.map r.value) = r.fragment (f.bindAll vs) := by
  fun_induction Fragment.bindAll f vs with
  | case1 f => rfl
  | case2 f v => exact bind_fragment r f v
  | case3 f v vs h ih =>
    cases vs with
    | nil => exact absurd rfl h
    | cons w vs => rw [← ih, ← write_fragment (isPlain_of_all (by decide)), ← bind_fragment]; rfl

theorem bindBracketed_fragment (f : Fragment) (vs : List Value) :
    (r.fragment f).bindBracketed (vs.map r.value) = r.fragment (f.bindBracketed vs) := by
  cases vs with
  | nil => exact write_fragment (isPlain_of_all (by decide)) f
  | cons v vs =>
    simp only [Fragment.bindBracketed, List.map_cons, List.isEmpty_cons]
    rw [write_fragment (isPlain_of_all (by decide)), ← List.map_cons, bindAll_fragment]
    exact write_fragment (isPlain_of_all (by decide)) _

theorem bindFlat_fragment (f : Fragment) (vs : List Value) :
    (r.fragment f).bindFlat (vs.map r.value) = r.fragment (f.bindFlat vs) := by
  cases vs with
  | nil =>
    have null := r.bind_fragment f .null
    rwa [(r.value_eq_null_iff .null).mpr rfl] at null
  | cons v vs => exact bindAll_fragment f (v :: vs)

theorem bracketed_fragment (f g : Fragment) :
    (r.fragment f).bracketed (r.fragment g) = r.fragment (f.bracketed g) := by
  rw [Fragment.bracketed, write_fragment (isPlain_of_all (by decide)), append_fragment,
    write_fragment (isPlain_of_all (by decide)), Fragment.bracketed]

theorem appendOperand_fragment (f : Fragment) (hg : g.dialect = r.source) :
    (r.fragment f).appendOperand (r.fragment g) = r.fragment (f.appendOperand g) := by
  simp only [Fragment.appendOperand, isAtomic_fragment hg, append_fragment, bracketed_fragment]
  split <;> rfl

theorem embed_fragment (f : Fragment) (hg : g.dialect = r.source) (mode : Mode) (whole : Bool) :
    (r.fragment f).embed (r.fragment g) mode whole = r.fragment (f.embed g mode whole) := by
  cases mode with
  | surplus => exact supplyAll_fragment r f g.params
  | operand =>
    cases whole with
    | true => exact append_fragment r f g
    | false => exact appendOperand_fragment f hg
  | plain | flat => exact append_fragment r f g

theorem addRefused_fragment (f : Fragment) (hg : g.dialect = r.source) (whole : Bool) :
    (r.fragment f).addRefused (r.fragment g) whole = r.fragment (f.addRefused g whole) := by
  have word : r.IsPlain "NOT ".toList := isPlain_of_all (by decide)
  simp only [Fragment.addRefused, isVoid_fragment, Fragment.writeString, write_fragment word,
    append_fragment, appendOperand_fragment _ hg]
  split
  · rfl
  · split <;> rfl

theorem writeColumn_fragment (hf : f.dialect = r.source) {c : Column}
    (htable : ∀ t ∈ c.table, r.IsPlain t.toList) (hname : r.IsPlain c.name.toList)
    (hlabel : ∀ l ∈ c.label, r.IsPlain l.toList) :
    (r.fragment f).writeColumn c = r.fragment (f.writeColumn c) := by
  have point : r.IsPlain ['.'] := isPlain_of_all (by decide)
  have as : r.IsPlain [' ', 'A', 'S', ' '] := isPlain_of_all (by decide)
  obtain ⟨table, name, label, raw⟩ := c
  cases table <;> cases label <;> simp only [Fragment.writeColumn] <;> split <;>
    simp_all [write_fragment, writeName_fragment]

/-! ## Groups -/

theorem addOperand_fragment (f : Fragment) (p : Operand) :
    (r.fragment f).addOperand (r.operand p) = r.fragment (f.addOperand p) := by
  simp only [Fragment.addOperand, operand, bracketed_fragment, append_fragment]
  split <;> rfl

variable {separator : List Char}

theorem addJoined_fragment (h : r.IsPlain separator) (f : Fragment) (ps : List Operand) :
    (r.fragment f).addJoined separator (ps.map r.operand) =
      r.fragment (f.addJoined separator ps) := by
  fun_induction Fragment.addJoined f separator ps with
  | case1 f => rfl
  | case2 f p => exact addOperand_fragment f p
  | case3 f p ps hps ih =>
    cases ps with
    | nil => exact absurd rfl hps
    | cons q ps => rw [← ih, ← write_fragment h, ← addOperand_fragment]; rfl

theorem addGroup_fragment (h : r.IsPlain separator) (f : Fragment) (ps : List Operand) :
    (r.fragment f).addGroup separator (ps.map r.operand) =
      r.operand (f.addGroup separator ps) := by
  have kept : Fragment.shown (ps.map r.operand) = (Fragment.shown ps).map r.operand := by
    rw [Fragment.shown, Fragment.shown, List.filter_map]
    congr 2
    funext p
    exact congrArg _ (r.isVoid_fragment p.fragment)
  rcases hs : Fragment.shown ps with _ | ⟨p, _ | ⟨q, qs⟩⟩
  · rw [hs] at kept
    rw [Fragment.addGroup_of_shown_nil kept, Fragment.addGroup_of_shown_nil hs, operand]
  · rw [hs] at kept
    rw [Fragment.addGroup_of_shown_single kept, Fragment.addGroup_of_shown_single hs]
    exact congrArg (Operand.mk · p.loose) (r.append_fragment f p.fragment)
  · rw [hs] at kept
    rw [Fragment.addGroup_of_shown_many kept, Fragment.addGroup_of_shown_many hs,
      write_fragment (isPlain_of_all (by decide))]
    have joined := addJoined_fragment h (f.write ['(']) (p :: q :: qs)
    rw [List.map_cons, List.map_cons] at joined
    rw [joined, write_fragment (isPlain_of_all (by decide)), operand]

/-- A group of children that are written alike, each in a fragment of its own, is written alike. -/
theorem addGroup_mapValuesAll (h : r.IsPlain separator) (member : Expr → Dialect → Operand)
    {es : List Expr}
    (inner : ∀ c ∈ es, member (c.mapValues r.value) r.target = r.operand (member c r.source))
    (hf : f.dialect = r.source) :
    (r.fragment f).addGroup separator
        ((Expr.mapValuesAll r.value es).map fun c => member c r.target) =
      r.operand (f.addGroup separator (es.map fun c => member c f.dialect)) := by
  rw [Expr.mapValuesAll_eq_map, ← addGroup_fragment h, List.map_map, List.map_map, hf]
  congr 1
  exact List.map_congr_left inner

/-! ## Expressions -/

/-- What is said of writing an expression into a recoded fragment. -/
def Agrees (r : Recoding) (e : Expr) : Prop :=
  ∀ f : Fragment, f.dialect = r.source →
    (e.mapValues r.value).write (r.fragment f) = r.operand (e.write f)

theorem Agrees.write_blank {e : Expr} (h : r.Agrees e) :
    (e.mapValues r.value).write (.blank r.target) = r.operand (e.write (.blank r.source)) :=
  h (.blank r.source) (Fragment.dialect_blank _)

theorem Agrees.fragment_eq {e : Expr} (h : r.Agrees e) :
    (e.mapValues r.value).fragment r.target = r.fragment (e.fragment r.source) :=
  congrArg Operand.fragment h.write_blank

theorem write_arg (a : Arg) (mode : Mode) (inner : ∀ e, a.expr? = some e → r.Agrees e)
    {f : Fragment} (hf : f.dialect = r.source) :
    (a.mapValues r.value).write mode (r.fragment f) = r.fragment (a.write mode f) := by
  cases a with
  | value v =>
    cases mode with
    | surplus => simpa [Arg.mapValues, Arg.write] using supply_fragment r f v
    | _ => simpa [Arg.mapValues, Arg.write] using bind_fragment r f v
  | list vs =>
    cases mode with
    | surplus => simpa [Arg.mapValues, Arg.write] using supplyAll_fragment r f vs
    | flat => simpa [Arg.mapValues, Arg.write] using bindFlat_fragment f vs
    | _ => simpa [Arg.mapValues, Arg.write] using bindBracketed_fragment f vs
  | expr e =>
    rw [Arg.mapValues, Arg.write_expr, Arg.write_expr, dialect_fragment, (inner e rfl).fragment_eq,
      Expr.isCase_mapValues, hf, embed_fragment f (e.dialect_fragment r.source)]
  | verbatim e =>
    rw [Arg.mapValues, Arg.write_verbatim, Arg.write_verbatim, dialect_fragment,
      (inner e rfl).fragment_eq, hf, embed_fragment f (e.dialect_fragment r.source)]

theorem write_step (s : Step) (plain : s.IsSpelledIn fun c => r.char c = c)
    (inner : ∀ a, s.arg? = some a → ∀ e, a.expr? = some e → r.Agrees e)
    {f : Fragment} (hf : f.dialect = r.source) :
    (s.mapValues r.value).write (r.fragment f) = r.fragment (s.write f) := by
  cases s with
  | text cs => exact write_fragment plain f
  | name word => exact writeName_fragment hf plain
  | column c =>
    obtain ⟨htable, hname, hlabel⟩ : (∀ t ∈ c.table.toList, r.IsPlain t.toList) ∧
        r.IsPlain c.name.toList ∧ ∀ l ∈ c.label.toList, r.IsPlain l.toList := by
      obtain ⟨htable, hrest⟩ := AreSpelledIn.append_iff.mp plain
      exact ⟨htable, AreSpelledIn.cons_iff.mp hrest⟩
    exact writeColumn_fragment hf (fun t ht => htable t (Option.mem_toList.mpr ht)) hname
      fun l hl => hlabel l (Option.mem_toList.mpr hl)
  | arg mode a => exact write_arg a mode (inner a rfl) hf

theorem foldl_write_step (steps : List Step)
    (plain : ∀ s ∈ steps, s.IsSpelledIn fun c => r.char c = c)
    (inner : ∀ s ∈ steps, ∀ a, s.arg? = some a → ∀ e, a.expr? = some e → r.Agrees e)
    {f : Fragment} (hf : f.dialect = r.source) :
    (steps.map (Step.mapValues r.value)).foldl Step.write (r.fragment f) =
      r.fragment (steps.foldl Step.write f) := by
  induction steps generalizing f with
  | nil => rfl
  | cons s steps ih =>
    have hs : (s.write f).dialect = r.source :=
      (Step.dialect_write s (fun _ _ e _ => e.dialect_write) f).trans hf
    rw [List.map_cons, List.foldl_cons, List.foldl_cons,
      write_step s (plain s List.mem_cons_self) (inner s List.mem_cons_self) hf]
    exact ih (fun t ht => plain t (List.mem_cons_of_mem _ ht))
      (fun t ht => inner t (List.mem_cons_of_mem _ ht)) hs

/-- A child is negated alike if it and its negation are written alike. -/
theorem refusal_mapValues {e : Expr} (here : r.Agrees e)
    (negated : ∀ n, e.negation? = some n → r.Agrees n) :
    (e.mapValues r.value).refusal r.target = r.operand (e.refusal r.source) := by
  cases hn : e.negation? with
  | none =>
    have hm : (e.mapValues r.value).negation? = none := by rw [Expr.negation?_mapValues, hn]; rfl
    rw [Expr.refusal_of_none hn, Expr.refusal_of_none hm, operand, Expr.fragment, here.write_blank,
      Expr.isCase_mapValues, operand, ← addRefused_fragment _ (e.dialect_write _)]
    rfl
  | some n =>
    have hm : (e.mapValues r.value).negation? = some (n.mapValues r.value) := by
      rw [Expr.negation?_mapValues, hn]
      rfl
    rw [Expr.refusal_of_some hn, Expr.refusal_of_some hm]
    exact (negated n hn).write_blank

/-- What an expression writes into a recoded fragment is the recoding of what it writes into the
fragment, if the recoding leaves the spellings in the expression as they are. -/
theorem agrees_of_areSpelledIn {e : Expr} (h : AreSpelledIn (fun c => r.char c = c) e.spellings) :
    r.Agrees e := by
  induction e using Expr.writing_induction with
  | steps e hgroup inner =>
    intro f hf
    have spelled := Expr.isSpelledIn_steps r.char_eq_self h
    have inside : ∀ s ∈ e.steps, ∀ a, s.arg? = some a → ∀ c, a.expr? = some c → r.Agrees c :=
      fun s hs a ha c hc => inner s hs a ha c hc ((spelled s hs).of_expr? ha hc)
    rw [Expr.write_of_isGroup_eq_false hgroup,
      Expr.write_of_isGroup_eq_false (by rw [Expr.isGroup_mapValues, hgroup]),
      Expr.steps_mapValues r.value_eq_null_iff, foldl_write_step _ spelled inside hf,
      Expr.isLoose_mapValues]
    rfl
  | and es ih =>
    intro f hf
    rw [Expr.mapValues, Expr.write_and, Expr.write_and]
    exact addGroup_mapValuesAll (isPlain_of_all (by decide)) (fun c d => c.write (.blank d))
      (fun c hc => (ih c hc (h.expr_of_mem hc)).write_blank) hf
  | or es ih =>
    intro f hf
    rw [Expr.mapValues, Expr.write_or, Expr.write_or]
    exact addGroup_mapValuesAll (isPlain_of_all (by decide)) (fun c d => c.write (.blank d))
      (fun c hc => (ih c hc (h.expr_of_mem hc)).write_blank) hf
  | not es ih ihn =>
    intro f hf
    rw [Expr.mapValues, Expr.write_not, Expr.write_not]
    refine addGroup_mapValuesAll (isPlain_of_all (by decide)) Expr.refusal (fun c hc => ?_) hf
    have spelled := h.expr_of_mem hc
    exact refusal_mapValues (ih c hc spelled) fun n hn =>
      ihn c hc n hn (by rwa [Expr.spellings_of_negation? hn])

/-! ## The same quotes -/

section SameQuotes

variable (source target : Dialect) (hquote : target.quote = source.quote)
  (hquoted : target.quoted = source.quoted) {φ : Value → Value} (hφ : ∀ v, φ v = .null ↔ v = .null)

/-- New values, between the same quotes. -/
def ofSameQuotes : Recoding where
  source := source
  target := target
  char := id
  value := φ
  value_eq_null_iff := hφ
  char_eq_self _ _ := rfl
  quoted cs _ := by rw [hquoted, List.map_id]
  isAtomic_map n cs := by rw [hquote, List.map_id]

theorem fragment_ofSameQuotes (f : Fragment) :
    (ofSameQuotes source target hquote hquoted hφ).fragment f = ⟨target, f.parts, f.params.map φ⟩ := by
  have same : (ofSameQuotes source target hquote hquoted hφ).part = id := by
    funext p
    cases p <;> simp [part, ofSameQuotes]
  rw [fragment, same, List.map_id]
  rfl

theorem agrees_ofSameQuotes (e : Expr) : (ofSameQuotes source target hquote hquoted hφ).Agrees e :=
  agrees_of_areSpelledIn fun _ _ _ _ => rfl

include hquote hquoted hφ

/-- Dialects with the same quotes write the same parts, whatever the values. -/
theorem fragment_mapValues (e : Expr) :
    (e.mapValues φ).fragment target =
      ⟨target, (e.fragment source).parts, (e.fragment source).params.map φ⟩ := by
  have written : (e.mapValues φ).fragment target = _ :=
    congrArg Operand.fragment (agrees_ofSameQuotes source target hquote hquoted hφ e).write_blank
  rw [written, operand, fragment_ofSameQuotes]
  rfl

end SameQuotes

end Recoding

end SqlClause
