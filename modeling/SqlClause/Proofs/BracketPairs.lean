import Mathlib
import SqlClause.Proofs.Spellings
import SqlClause.Proofs.SqlTokens
import SqlClause.Proofs.WritingLocality

/-! # Brackets come in pairs

The brackets of an expression pair up if those of each of its spellings do: what stands between the
pieces of a template has pairs of its own, so it counts as nothing where the brackets of the pieces
are counted. A text with paired brackets becomes one group in another pair, and no more pairs are
put around a group. -/

namespace SqlClause

namespace Text

/-- No beginning of the text closes more brackets than it opens, and the whole closes all of them. -/
def Balanced (cs : List Char) : Prop :=
  (∀ p, p <+: cs → p.count ')' ≤ p.count '(') ∧ cs.count '(' = cs.count ')'

/-- The number of open brackets after a text with so many before it, unless the text closes one that
is not open. -/
def depth : Nat → List Char → Option Nat
  | n, [] => some n
  | n, '(' :: cs => depth (n + 1) cs
  | 0, ')' :: _ => none
  | n + 1, ')' :: cs => depth n cs
  | n, _ :: cs => depth n cs

theorem forall_prefix_cons {P : List Char → Prop} {c : Char} {cs : List Char} :
    (∀ p, p <+: c :: cs → P p) ↔ P [] ∧ ∀ p, p <+: cs → P (c :: p) := by
  constructor
  · intro h
    exact ⟨h [] List.nil_prefix, fun p hp => h (c :: p) (List.cons_prefix_cons.mpr ⟨rfl, hp⟩)⟩
  · rintro ⟨nil, cons⟩ p hp
    rcases List.prefix_cons_iff.mp hp with rfl | ⟨q, rfl, hq⟩
    · exact nil
    · exact cons q hq

theorem depth_eq_some_iff {n m : Nat} {cs : List Char} :
    depth n cs = some m ↔
      (∀ p, p <+: cs → p.count ')' ≤ n + p.count '(') ∧ n + cs.count '(' = m + cs.count ')' := by
  fun_induction depth n cs with
  | case1 n => simp
  | case2 n cs ih =>
    rw [ih, forall_prefix_cons]
    simp only [List.count_cons_self, List.count_nil, List.count_cons_of_ne (by decide : '(' ≠ ')'),
      Nat.zero_le, true_and, Nat.add_right_comm n, ← Nat.add_assoc]
  | case3 cs =>
    rw [forall_prefix_cons]
    refine iff_of_false nofun ?_
    rintro ⟨⟨-, closes⟩, -⟩
    have := closes [] List.nil_prefix
    simp at this
  | case4 n cs ih =>
    rw [ih, forall_prefix_cons]
    simp only [List.count_cons_self, List.count_nil, List.count_cons_of_ne (by decide : ')' ≠ '('),
      Nat.zero_le, true_and, Nat.succ_eq_add_one, Nat.add_right_comm n 1, ← Nat.add_assoc,
      Nat.add_le_add_iff_right, Nat.add_right_cancel_iff]
  | case5 n c cs h h' h'' ih =>
    have opening : c ≠ '(' := h
    have closing : c ≠ ')' := by
      cases n with
      | zero => exact h' rfl
      | succ n => exact h'' n rfl
    rw [ih, forall_prefix_cons]
    simp only [List.count_cons_of_ne opening, List.count_cons_of_ne closing, List.count_nil,
      Nat.zero_le, true_and]

theorem depth_append (n : Nat) (xs ys : List Char) :
    depth n (xs ++ ys) = (depth n xs).bind fun m => depth m ys := by
  fun_induction depth n xs with
  | case1 n => rfl
  | case2 n cs ih => rw [List.cons_append, depth, ih]
  | case3 cs => rw [List.cons_append, depth]; rfl
  | case4 n cs ih => rw [List.cons_append, depth, ih]
  | case5 n c cs h h' h'' ih =>
    rw [List.cons_append, depth, ih]
    · exact h
    · exact h'
    · exact h''

theorem depth_flatMap_congr {α : Type} {f g : α → List Char} {xs : List α}
    (h : ∀ x ∈ xs, ∀ n, depth n (f x) = depth n (g x)) (n : Nat) :
    depth n (xs.flatMap f) = depth n (xs.flatMap g) := by
  induction xs generalizing n with
  | nil => rfl
  | cons x xs ih =>
    obtain ⟨hx, hxs⟩ := List.forall_mem_cons.mp h
    simp only [List.flatMap_cons, depth_append, hx, ih hxs]

theorem balanced_iff {cs : List Char} : Balanced cs ↔ depth 0 cs = some 0 := by
  rw [depth_eq_some_iff]
  simp only [Balanced, Nat.zero_add]

instance : DecidablePred Balanced := fun _ => decidable_of_iff _ balanced_iff.symm

namespace Balanced

variable {cs ds : List Char}

theorem of_depth (h : depth 0 cs = some 0) : Balanced cs := balanced_iff.mpr h

theorem nil : Balanced [] := of_depth rfl

/-- A text whose brackets pair up leaves those around it as they are. -/
theorem depth_eq (h : Balanced cs) (n : Nat) : depth n cs = some n := by
  refine depth_eq_some_iff.mpr ⟨fun p hp => ?_, by rw [h.2]⟩
  have := h.1 p hp
  omega

theorem append (h : Balanced cs) (h' : Balanced ds) : Balanced (cs ++ ds) := by
  rw [balanced_iff, depth_append, h.depth_eq, Option.bind_some, h'.depth_eq]

theorem bracketed (h : Balanced cs) : Balanced ('(' :: (cs ++ [')'])) := by
  rw [balanced_iff, depth, depth_append, h.depth_eq]
  rfl

theorem flatMap {α : Type} {f : α → List Char} {xs : List α} (h : ∀ x ∈ xs, Balanced (f x)) :
    Balanced (xs.flatMap f) := by
  induction xs with
  | nil => exact nil
  | cons x xs ih =>
    obtain ⟨hx, hxs⟩ := List.forall_mem_cons.mp h
    exact hx.append (ih hxs)

/-- Quotes around a name, and doubled within it, do not change the brackets in it. -/
theorem quoted {q : Char} (hq : q = '\x60' ∨ q = '"') (h : Balanced cs) :
    Balanced (Text.quoted q cs) := by
  -- neither quote is a bracket
  have kept (n : Nat) (ds : List Char) : depth n (q :: ds) = depth n ds := by
    rcases hq with rfl | rfl <;> cases n <;> rfl
  have doubled (n : Nat) : depth n (doubled q cs) = depth n cs := by
    clear h
    induction cs generalizing n with
    | nil => rfl
    | cons c cs ih =>
      rw [Text.doubled]
      split
      · rename_i hc
        rw [hc, kept, kept, kept, ih]
      · have passed (ds : List Char) : depth n (c :: ds) = (depth n [c]).bind fun m => depth m ds :=
          depth_append n [c] ds
        rw [passed (Text.doubled q cs), passed cs]
        simp only [ih]
  rw [balanced_iff, Text.quoted, kept, depth_append, doubled, h.depth_eq]
  exact kept 0 []

end Balanced

end Text

open Text (Balanced)

/-! ## Paired brackets make a group -/

theorem Atom.closesAtEnd_append {n m : Nat} {cs : List Char} (h : Text.depth n cs = some m)
    (ds : List Char) : closesAtEnd n (cs ++ ds) = closesAtEnd m ds := by
  fun_induction Text.depth n cs with
  | case1 n =>
    obtain rfl : n = m := Option.some.inj h
    rfl
  | case2 n cs ih => rw [List.cons_append, closesAtEnd, ih h]
  | case3 cs => cases h
  | case4 n cs ih => rw [List.cons_append, closesAtEnd, ih h]
  | case5 n c cs hopen hzero hsucc ih =>
    rw [List.cons_append, closesAtEnd, ih h]
    · exact hopen
    · exact hzero
    · exact hsucc

theorem Atom.isGroup_bracketed {cs : List Char} (h : Balanced cs) :
    isGroup ('(' :: (cs ++ [')'])) = true := by
  rw [isGroup, closesAtEnd_append (h.depth_eq 0)]
  rfl

namespace Fragment

variable {f g : Fragment}

theorem canonical_write (f : Fragment) (cs : List Char) :
    (f.write cs).canonical = f.canonical ++ cs :=
  chars_write f cs _

theorem canonical_bracketed (f g : Fragment) :
    (f.bracketed g).canonical = f.canonical ++ '(' :: (g.canonical ++ [')']) := by
  simp [bracketed, canonical_write, canonical_append]

theorem isAtomic_bracketed (d : Dialect) (h : Balanced g.canonical) :
    ((blank d).bracketed g).isAtomic = true := by
  have group : Atom.isGroup ((blank d).bracketed g).canonical = true := by
    rw [canonical_bracketed]
    exact Atom.isGroup_bracketed h
  rw [isAtomic, Atom.isAtomic, group]
  simp

/-- Whether a fragment is atomic is not changed by writing it into a blank one. -/
theorem isAtomic_blank_append (f : Fragment) :
    ((blank f.dialect).append f).isAtomic = f.isAtomic := by
  rw [isAtomic, isAtomic, canonical_append]
  rfl

/-- The fragment as an operand in a blank one. -/
def asOperand (f : Fragment) : Fragment := (blank f.dialect).appendOperand f

theorem canonical_asOperand (f : Fragment) :
    f.asOperand.canonical = f.canonical ∨ f.asOperand.canonical = '(' :: (f.canonical ++ [')']) := by
  unfold asOperand appendOperand
  split
  · rw [canonical_append]
    exact .inl rfl
  · rw [canonical_bracketed]
    exact .inr rfl

theorem isAtomic_asOperand (h : Balanced f.canonical) : f.asOperand.isAtomic = true := by
  unfold asOperand appendOperand
  split
  · rename_i hf
    rw [isAtomic_blank_append, hf]
  · exact isAtomic_bracketed f.dialect h

/-- An operand that needs no brackets is written as it is. -/
theorem asOperand_asOperand (h : Balanced f.canonical) : f.asOperand.asOperand = f.asOperand := by
  have same : f.asOperand.dialect = f.dialect := dialect_appendOperand _ _
  calc f.asOperand.asOperand
      = (blank f.dialect).append f.asOperand := by
        rw [asOperand, same, appendOperand, if_pos (isAtomic_asOperand h)]
    _ = ((blank f.dialect).append (blank f.dialect)).appendOperand f :=
        (append_appendOperand _ _ _).symm
    _ = f.asOperand := by rw [append_blank, asOperand]

/-! ## What is written into a fragment -/

theorem balanced_blank (d : Dialect) : Balanced (blank d).canonical := .nil

theorem balanced_append (hf : Balanced f.canonical) (hg : Balanced g.canonical) :
    Balanced (f.append g).canonical := by
  rw [canonical_append]
  exact hf.append hg

theorem balanced_write {cs : List Char} (hf : Balanced f.canonical) (hcs : Balanced cs) :
    Balanced (f.write cs).canonical := by
  rw [canonical_write]
  exact hf.append hcs

theorem balanced_bracketed (hf : Balanced f.canonical) (hg : Balanced g.canonical) :
    Balanced (f.bracketed g).canonical := by
  rw [canonical_bracketed]
  exact hf.append hg.bracketed

theorem balanced_appendOperand (hf : Balanced f.canonical) (hg : Balanced g.canonical) :
    Balanced (f.appendOperand g).canonical := by
  unfold appendOperand
  split
  · exact balanced_append hf hg
  · exact balanced_bracketed hf hg

theorem balanced_bind (hf : Balanced f.canonical) (v : Value) : Balanced (f.bind v).canonical := by
  rw [canonical, chars_bind]
  exact hf.append (.of_depth rfl)

theorem balanced_bindAll (hf : Balanced f.canonical) (vs : List Value) :
    Balanced (f.bindAll vs).canonical := by
  fun_induction bindAll f vs with
  | case1 f => exact hf
  | case2 f v => exact balanced_bind hf v
  | case3 f v vs h ih => exact ih (balanced_write (balanced_bind hf v) (.of_depth rfl))

theorem balanced_bindFlat (hf : Balanced f.canonical) (vs : List Value) :
    Balanced (f.bindFlat vs).canonical := by
  unfold bindFlat
  split
  · exact balanced_bind hf .null
  · exact balanced_bindAll hf vs

theorem bindBracketed_eq_bracketed (f : Fragment) {vs : List Value} (h : vs.isEmpty = false) :
    f.bindBracketed vs = f.bracketed ((blank f.dialect).bindAll vs) := by
  have listed := append_bindAll (f.write ['(']) (blank f.dialect) vs
  rw [append_blank] at listed
  rw [bindBracketed, h, bracketed, ← listed]
  rfl

theorem balanced_bindBracketed (hf : Balanced f.canonical) (vs : List Value) :
    Balanced (f.bindBracketed vs).canonical := by
  cases h : vs.isEmpty with
  | true =>
    rw [bindBracketed, h]
    exact balanced_write hf (.of_depth rfl)
  | false =>
    rw [bindBracketed_eq_bracketed f h]
    exact balanced_bracketed hf (balanced_bindAll (balanced_blank _) vs)

theorem canonical_supplyAll (f : Fragment) (vs : List Value) :
    (f.supplyAll vs).canonical = f.canonical := by
  induction vs generalizing f with
  | nil => rfl
  | cons v vs ih => exact ih (f.supply v)

theorem balanced_writeName (hd : Sql.IsLegible f.dialect) (hf : Balanced f.canonical) {name : String}
    (h : Balanced name.toList) : Balanced (f.writeName name).canonical := by
  rw [writeName, hd.quoted]
  exact balanced_write hf (h.quoted hd.quote)

theorem balanced_writeColumn (hd : Sql.IsLegible f.dialect) (hf : Balanced f.canonical) {c : Column}
    (h : ∀ s ∈ c.spellings, Balanced s.toList) : Balanced (f.writeColumn c).canonical := by
  obtain ⟨table, name, label, raw⟩ := c
  simp only [Column.spellings, List.forall_mem_append, List.forall_mem_cons, Option.mem_toList] at h
  obtain ⟨htable, hname, hlabel⟩ := h
  have blank := balanced_blank f.dialect
  have text {cs : List Char} (hcs : Balanced cs) :
      Balanced (Step.write (.blank f.dialect) (.text cs)).canonical := balanced_write blank hcs
  have word {w : String} (hw : Balanced w.toList) :
      Balanced (Step.write (.blank f.dialect) (.name w)).canonical :=
    balanced_writeName (f := .blank f.dialect) hd blank hw
  rw [writeColumn_eq_foldl, canonical, Step.chars_foldl_write]
  refine hf.append (.flatMap ?_)
  simp only [Column.steps, List.forall_mem_append, List.forall_mem_cons, List.mem_flatMap,
    Option.mem_toList]
  refine ⟨?_, ?_, ?_⟩
  · rintro s ⟨t, ht, hs⟩
    revert s
    simp only [List.forall_mem_cons]
    exact ⟨word (htable t ht), text (.of_depth rfl), List.forall_mem_nil _⟩
  · split
    · exact text hname
    · exact word hname
  · rintro s ⟨l, hl, hs⟩
    revert s
    simp only [List.forall_mem_cons]
    exact ⟨text (.of_depth rfl), word (hlabel l hl), List.forall_mem_nil _⟩

section Group

variable {separator : List Char} {ps : List Operand}

theorem balanced_addJoined (hf : Balanced f.canonical) (hs : Balanced separator)
    (h : ∀ p ∈ ps, Balanced p.fragment.canonical) :
    Balanced (f.addJoined separator ps).canonical := by
  have added {f : Fragment} (hf : Balanced f.canonical) {p : Operand}
      (hp : Balanced p.fragment.canonical) : Balanced (f.addOperand p).canonical := by
    unfold addOperand
    split
    · exact balanced_bracketed hf hp
    · exact balanced_append hf hp
  fun_induction addJoined f separator ps with
  | case1 f => exact hf
  | case2 f p => exact added hf (h p List.mem_cons_self)
  | case3 f p ps _ ih =>
    obtain ⟨hp, hps⟩ := List.forall_mem_cons.mp h
    exact ih (balanced_write (added hf hp) hs) hps

theorem balanced_addGroup (hf : Balanced f.canonical) (hs : Balanced separator)
    (h : ∀ p ∈ ps, Balanced p.fragment.canonical) :
    Balanced (f.addGroup separator ps).fragment.canonical := by
  have written : ∀ p ∈ shown ps, Balanced p.fragment.canonical := fun p hp =>
    h p (List.mem_of_mem_filter hp)
  rcases hps : shown ps with _ | ⟨p, _ | ⟨q, qs⟩⟩
  · rw [addGroup_of_shown_nil hps]
    exact hf
  · rw [addGroup_of_shown_single hps]
    exact balanced_append hf (written p (hps ▸ List.mem_cons_self))
  · have joined := append_addJoined (f.write ['(']) (blank f.dialect) separator (p :: q :: qs)
    rw [append_blank] at joined
    rw [addGroup_of_shown_many hps, joined]
    exact balanced_bracketed hf (balanced_addJoined (balanced_blank _) hs (hps ▸ written))

end Group

end Fragment

/-! ## What the steps write themselves -/

/-- The text that a step has of its own. -/
def Step.own : Step → List Char
  | .text cs => cs
  | _ => []

namespace Expr

open Step (say operand own)

/-- The pieces of a template and its left-over marks have the brackets of its text. -/
theorem depth_own_templateSteps (flat opened : Bool) (cs : List Char) (args : List Arg) (n : Nat) :
    Text.depth n ((templateSteps flat opened cs args).flatMap own) = Text.depth n cs := by
  fun_induction templateSteps flat opened cs args generalizing n with
  | case1 opened args =>
    have none : (args.map (Step.arg .surplus)).flatMap own = [] := by
      rw [List.flatMap_map]
      exact List.flatMap_eq_nil_iff.mpr fun a _ => rfl
    rw [none]
  | case2 opened cs a args ih =>
    -- the argument writes its own pairs, and the mark that it replaces is no bracket
    have mark : Text.depth n ('?' :: cs) = Text.depth n cs := by cases n <;> rfl
    rw [mark, ← ih]
    rfl
  | case3 opened c cs a args h ih =>
    rw [List.flatMap_cons, own, Text.depth_append]
    simp only [ih]
    exact (Text.depth_append n [c] cs).symm
  | case4 opened cs h => rw [List.flatMap_singleton, own]

theorem balanced_own_commaSteps (args : List Arg) : Balanced ((commaSteps args).flatMap own) := by
  refine .flatMap ?_
  fun_induction commaSteps args with
  | case1 => exact List.forall_mem_nil _
  | case2 a => exact List.forall_mem_singleton.mpr .nil
  | case3 a args h ih =>
    simp only [List.forall_mem_cons]
    exact ⟨.nil, .of_depth rfl, ih⟩

theorem balanced_own_membershipSteps (left : Expr) (values : List Arg) (negated : Bool) :
    Balanced ((membershipSteps left values negated).flatMap own) := by
  unfold membershipSteps
  split
  case h_5 =>
    have several (lead : List Char) (hlead : Balanced lead) :
        Balanced (lead ++ '(' :: ((commaSteps values).flatMap own ++ [')'])) :=
      hlead.append (balanced_own_commaSteps values).bracketed
    cases negated with
    | true => simpa [own, operand, say] using several " NOT IN ".toList (.of_depth rfl)
    | false => simpa [own, operand, say] using several " IN ".toList (.of_depth rfl)
  all_goals cases negated <;> exact .of_depth rfl

theorem balanced_own_comparisonSteps (left : Expr) (op : Operator) (right : Arg) :
    Balanced ((comparisonSteps left op right).flatMap own) := by
  unfold comparisonSteps
  split
  case h_1 => exact balanced_own_membershipSteps left [right] false
  case h_2 => exact balanced_own_membershipSteps left [right] true
  case h_9 => cases op <;> exact .of_depth rfl
  all_goals exact .of_depth rfl

theorem balanced_own_branchSteps (branches : List (Arg × Arg)) :
    Balanced ((branchSteps branches).flatMap own) := by
  refine .flatMap ?_
  fun_induction branchSteps branches with
  | case1 => exact List.forall_mem_nil _
  | case2 condition result branches ih =>
    simp only [List.forall_mem_cons]
    exact ⟨.of_depth rfl, .nil, .of_depth rfl, .nil, ih⟩

theorem balanced_own_optionalSteps {lead : String} (hlead : Balanced lead.toList)
    (a : Option Arg) : Balanced ((optionalSteps lead a).flatMap own) := by
  cases a with
  | none => exact .nil
  | some a => exact hlead.append .nil

/-- The brackets in the own texts of all steps pair up if those of the templates do. -/
theorem balanced_own_steps {e : Expr} (h : ∀ s ∈ e.spellings, Balanced s.toList) :
    Balanced (e.steps.flatMap own) := by
  cases e with
  | empty | and es | or es | not es => exact .nil
  | column c => exact .nil
  | template text args flat =>
    have text := h text List.mem_cons_self
    rw [steps, Text.balanced_iff, depth_own_templateSteps, text.depth_eq]
  | comparison op left right => exact balanced_own_comparisonSteps left op right
  | membership left values negated => exact balanced_own_membershipSteps left values negated
  | between left low high negated => cases negated <;> exact .of_depth rfl
  | caseWhen subject branches otherwise =>
    rw [steps, List.flatMap_cons, List.flatMap_append, List.flatMap_append, List.flatMap_append]
    exact Balanced.append (.of_depth rfl)
      ((((balanced_own_optionalSteps (.of_depth rfl) subject).append
        (balanced_own_branchSteps branches)).append
        (balanced_own_optionalSteps (.of_depth rfl) otherwise)).append (.of_depth rfl))
  | aliased e name => exact .of_depth rfl

end Expr

/-! ## Writing steps -/

theorem Arg.balanced_write {a : Arg} {d : Dialect}
    (inner : ∀ e, a.expr? = some e → Balanced (e.fragment d).canonical) (mode : Mode) :
    Balanced (a.write mode (.blank d)).canonical := by
  have blank := Fragment.balanced_blank d
  have supplied (vs : List Value) : Balanced ((Fragment.blank d).supplyAll vs).canonical := by
    rw [Fragment.canonical_supplyAll]
    exact blank
  cases a with
  | value v =>
    cases mode with
    | surplus => rw [write]; exact supplied [v]
    | _ => simpa only [write] using Fragment.balanced_bind blank v
  | list vs =>
    cases mode with
    | surplus => rw [write]; exact supplied vs
    | flat => rw [write]; exact Fragment.balanced_bindFlat blank vs
    | _ => simpa only [write] using Fragment.balanced_bindBracketed blank vs
  | expr e =>
    have here := inner e rfl
    rw [Expr.fragment] at here
    cases mode with
    | surplus => rw [write]; exact supplied _
    | operand =>
      rw [write]
      split
      · exact here
      · exact Fragment.balanced_appendOperand blank here
    | _ => simpa only [write] using here
  | verbatim e =>
    have here := inner e rfl
    rw [Expr.fragment] at here
    cases mode with
    | surplus => rw [write]; exact supplied _
    | _ => simpa only [write] using here

namespace Step

variable {d : Dialect}

/-- What a step writes has the brackets of its own text: the names and the argument have only
pairs. -/
theorem depth_write {s : Step} (hd : Sql.IsLegible d) (spelled : ∀ t ∈ s.spellings, Balanced t.toList)
    (inner : ∀ a, s.arg? = some a → ∀ e, a.expr? = some e → Balanced (e.fragment d).canonical)
    (n : Nat) : Text.depth n (s.write (.blank d)).canonical = Text.depth n s.own := by
  have blank := Fragment.balanced_blank d
  cases s with
  | text cs => rw [write, Fragment.canonical_write]; rfl
  | name word =>
    exact (Fragment.balanced_writeName hd blank (spelled word List.mem_cons_self)).depth_eq n
  | column c => exact (Fragment.balanced_writeColumn hd blank spelled).depth_eq n
  | arg mode a => exact (Arg.balanced_write (inner a rfl) mode).depth_eq n

end Step

namespace Expr

variable {d : Dialect}

theorem balanced_refusal {e : Expr} (here : Balanced (e.fragment d).canonical)
    (negated : ∀ n, e.negation? = some n → Balanced (n.fragment d).canonical) :
    Balanced (e.refusal d).fragment.canonical := by
  have blank := Fragment.balanced_blank d
  cases h : e.negation? with
  | some n =>
    rw [refusal_of_some h]
    exact negated n h
  | none =>
    have word : Balanced ((Fragment.blank d).writeString "NOT ").canonical :=
      Fragment.balanced_write blank (.of_depth rfl)
    rw [refusal_of_none h]
    simp only [Fragment.addRefused]
    split
    · exact blank
    · split
      · exact Fragment.balanced_append word here
      · exact Fragment.balanced_appendOperand word here

theorem balanced_fragment (hd : Sql.IsLegible d) (e : Expr)
    (spelled : ∀ s ∈ e.spellings, Balanced s.toList) : Balanced (e.fragment d).canonical := by
  have member {es : List Expr} (h : ∀ s ∈ spellingsAll es, Balanced s.toList) {c : Expr}
      (hc : c ∈ es) : ∀ s ∈ c.spellings, Balanced s.toList :=
    fun s hs => h s (spellings_subset_spellingsAll hc hs)
  have group (separator : List Char) (hs : Balanced separator) (ps : List Operand)
      (h : ∀ p ∈ ps, Balanced p.fragment.canonical) :
      Balanced ((Fragment.blank d).addGroup separator ps).fragment.canonical :=
    Fragment.balanced_addGroup (Fragment.balanced_blank d) hs h
  induction e using writing_induction with
  | steps e h inner =>
    have written (s : Step) (hs : s ∈ e.steps) (n : Nat) :
        Text.depth n (s.write (.blank d)).canonical = Text.depth n s.own := by
      have among := spellings_subset_of_mem_steps hs
      refine Step.depth_write hd (fun t ht => spelled t (among ht)) (fun a ha c hc => ?_) n
      exact inner s hs a ha c hc fun t ht =>
        spelled t (among (Step.spellings_of_expr? ha hc ▸ ht))
    rw [fragment, write_of_isGroup_eq_false h, Fragment.canonical, Step.chars_foldl_write,
      Text.balanced_iff]
    exact (Text.depth_flatMap_congr written 0).trans
      (Text.balanced_iff.mp (balanced_own_steps spelled))
  | and es ih =>
    rw [fragment, write_and]
    refine group _ (.of_depth rfl) _ (List.forall_mem_map.mpr fun c hc => ?_)
    exact ih c hc (member spelled hc)
  | or es ih =>
    rw [fragment, write_or]
    refine group _ (.of_depth rfl) _ (List.forall_mem_map.mpr fun c hc => ?_)
    exact ih c hc (member spelled hc)
  | not es ih ihn =>
    rw [fragment, write_not]
    refine group _ (.of_depth rfl) _ (List.forall_mem_map.mpr fun c hc => ?_)
    -- a negated form is spelled as what it negates
    have here := member spelled hc
    exact balanced_refusal (ih c hc here) fun n hn =>
      ihn c hc n hn (by rw [spellings_of_negation? hn]; exact here)

end Expr

/-- The brackets of a statement pair up in each dialect if those of each template and of each name in
its expression do. A fragment whose brackets pair up becomes, as an operand, one that needs no
brackets, with at most one pair more around it, and that stays as it is however often it is written
as an operand again. -/
theorem brackets_pair_up :
    (∀ e : Expr, (∀ s ∈ e.spellings, Balanced s.toList) →
        ∀ d ∈ [Dialect.mysql, .postgres, .sqlite], Balanced (e.fragment d).canonical) ∧
      ∀ f : Fragment, Balanced f.canonical →
        f.asOperand.isAtomic = true ∧
          (f.asOperand.canonical = f.canonical ∨
            f.asOperand.canonical = '(' :: (f.canonical ++ [')'])) ∧
          ∀ n, Fragment.asOperand^[n] f.asOperand = f.asOperand := by
  constructor
  · intro e spelled d hd
    exact e.balanced_fragment (Sql.isLegible_of_mem hd) spelled
  · intro f h
    exact ⟨Fragment.isAtomic_asOperand h, f.canonical_asOperand,
      fun n => Function.iterate_fixed (Fragment.asOperand_asOperand h) n⟩

/-- The pieces of a template have brackets that do not pair up, and a name has some that do. -/
theorem brackets_pair_up_template :
    let e : Expr := .template "LOG(?, (?)) + 1"
      [.list [.int 1, .int 2], .expr (.column (.named "n(m)"))] false
    (∀ s ∈ e.spellings, Balanced s.toList) ∧ Balanced (e.fragment .postgres).canonical ∧
      (e.fragment .postgres).canonical = "LOG(?,?, (\"n(m)\")) + 1".toList ∧
      (e.fragment .postgres).asOperand.isAtomic = true ∧
      Fragment.asOperand^[3] (e.fragment .postgres).asOperand = (e.fragment .postgres).asOperand := by
  intro e
  have spelled : ∀ s ∈ e.spellings, Balanced s.toList := by decide +kernel
  have paired : Balanced (e.fragment .postgres).canonical :=
    brackets_pair_up.1 e spelled .postgres (by simp)
  obtain ⟨atomic, -, kept⟩ := brackets_pair_up.2 (e.fragment .postgres) paired
  exact ⟨spelled, paired, by cbv, atomic, kept 3⟩

end SqlClause
