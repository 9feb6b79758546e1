import SqlClause.Proofs.BuiltFragments

/-! # Splicing is exact

What is written at the end of a fragment is what is written apart and appended, and of the fragment
itself nothing changes but that a text at its end may go on. The fragments of one dialect that
operations build are a monoid. -/

namespace SqlClause

namespace Part

/-- The parts that are there stay a beginning, with a text at their end perhaps. -/
theorem exists_addText_prefix_foldl_add (ps qs : List Part) :
    ∃ cs, addText cs ps <+: qs.foldl add ps := by
  induction qs generalizing ps with
  | nil => exact ⟨[], by rw [addText_nil]; exact List.prefix_rfl⟩
  | cons q qs ih =>
    obtain ⟨cs, h⟩ := ih (add ps q)
    cases q with
    | text ds => exact ⟨ds ++ cs, by rwa [← addText_addText]⟩
    | parameter index =>
      -- the parameter stands between the parts that were there and any later text
      obtain ⟨ds, hd⟩ : ∃ ds, addText cs (add ps (.parameter index)) =
          ps ++ .parameter index :: ds := by
        rcases addText_eq cs (add ps (.parameter index)) with ⟨rs, es, hs, -⟩ | ⟨-, hadd⟩
        · have := congrArg List.getLast? hs
          simp [add] at this
        · rw [hadd]
          split
          · exact ⟨[], rfl⟩
          · exact ⟨[.text cs], by simp [add]⟩
      rw [hd] at h
      exact ⟨[], by rw [addText_nil]; exact (List.prefix_append _ _).trans h⟩

/-- Tidy parts that are added one after another stay as they are. -/
theorem Tidy.foldl_add_nil {ps : List Part} (h : Tidy ps) : ps.foldl Part.add [] = ps := by
  induction ps using List.reverseRecOn with
  | nil => rfl
  | append_singleton ps p ih =>
    have chain := List.isChain_append.mp h.apart
    have before : Tidy ps := ⟨fun hm => h.full (List.mem_append_left _ hm), chain.1⟩
    rw [List.foldl_append, ih before, List.foldl_cons, List.foldl_nil]
    cases p with
    | parameter index => rfl
    | text cs =>
      have hcs : cs ≠ [] := fun hc => h.full (by simp [hc])
      rcases addText_eq cs ps with ⟨qs, ds, rfl, -⟩ | ⟨-, hadd⟩
      · have := chain.2.2 (.text ds) (by simp) (.text cs) (by simp)
        simp [isParameter] at this
      · rw [Part.add, hadd, if_neg hcs]

end Part

/-- The negation of an expression by a word before it, at the end of a fragment. -/
def Expr.writeRefused (e : Expr) (f : Fragment) : Operand :=
  ⟨f.addRefused (e.fragment f.dialect) e.isCase, false⟩

theorem Expr.refusal_eq_writeRefused {e : Expr} (h : e.negation? = none) (d : Dialect) :
    e.refusal d = e.writeRefused (.blank d) :=
  refusal_of_none h d

namespace Fragment

/-- The values and the parts that are there stay, but that a text at the end may go on. -/
structure Extends (f g : Fragment) : Prop where
  dialect : g.dialect = f.dialect
  params : f.params <+: g.params
  parts : f.parts <+: g.parts ∨
    ∃ ps cs ds, f.parts = ps ++ [.text cs] ∧ ps ++ [.text (cs ++ ds)] <+: g.parts

theorem extends_append (f g : Fragment) : f.Extends (f.append g) where
  dialect := rfl
  params := List.prefix_append _ _
  parts := by
    obtain ⟨cs, h⟩ := Part.exists_addText_prefix_foldl_add f.parts
      (g.parts.map (Part.shift f.params.length))
    rcases Part.addText_eq cs f.parts with ⟨ps, ds, hf, hadd⟩ | ⟨-, hadd⟩
    · exact .inr ⟨ps, ds, cs, hf, hadd ▸ h⟩
    · rw [hadd] at h
      split at h
      · exact .inl h
      · exact .inl ((List.prefix_append _ _).trans h)

/-- What a way of writing makes of a blank fragment is what it adds to this one, with the same answer
to whether it needs brackets, and it changes nothing else. -/
structure Splices (write : Fragment → Operand) (f : Fragment) : Prop where
  spliced : write f =
    ⟨f.append (write (.blank f.dialect)).fragment, (write (.blank f.dialect)).loose⟩
  kept : f.Extends (write f).fragment

theorem splices_of_eq {write : Fragment → Operand} {f : Fragment}
    (h : write f =
      ⟨f.append (write (.blank f.dialect)).fragment, (write (.blank f.dialect)).loose⟩) :
    Splices write f := by
  refine ⟨h, ?_⟩
  rw [h]
  exact extends_append f _

theorem append_addRefused (f g h : Fragment) (whole : Bool) :
    (f.append g).addRefused h whole = f.append (g.addRefused h whole) := by
  simp only [addRefused, writeString, append_write]
  split
  · rfl
  · split
    · exact append_assoc f _ h
    · exact append_appendOperand f _ h

theorem splices_write (e : Expr) (f : Fragment) : Splices e.write f :=
  splices_of_eq (e.write_eq_append f)

theorem splices_writeRefused (e : Expr) (f : Fragment) : Splices e.writeRefused f := by
  refine splices_of_eq ?_
  have here := append_addRefused f (.blank f.dialect) (e.fragment f.dialect) e.isCase
  rw [append_blank] at here
  rw [Expr.writeRefused, here]
  rfl

theorem blank_append {f : Fragment} (h : Part.Tidy f.parts) : (blank f.dialect).append f = f := by
  have same : Part.shift 0 = id := by
    funext p
    cases p <;> rfl
  simp [append, blank, same, h.foldl_add_nil]

end Fragment

/-- An expression of any kind, and the negation of it by a word before it, is written into a fragment
that operations built as it is written apart and appended, with the same answer to whether it needs
brackets. Nothing that was there changes but that a text at the end may go on. To append such
fragments of one dialect is associative, and the blank one is neutral on both sides. -/
theorem splicing_is_exact (d : Dialect) (os : List Operation) (e : Expr) :
    let f := Fragment.built d os
    f.Splices e.write ∧ f.Splices e.writeRefused ∧
      (∀ os₁ os₂, (f.append (.built d os₁)).append (.built d os₂) =
        f.append ((Fragment.built d os₁).append (.built d os₂))) ∧
      (Fragment.blank d).append f = f ∧ f.append (.blank d) = f := by
  intro f
  have neutral : (Fragment.blank f.dialect).append f = f :=
    Fragment.blank_append (Fragment.tidy_built d os)
  rw [Fragment.dialect_built] at neutral
  exact ⟨f.splices_write e, f.splices_writeRefused e, fun _ _ => Fragment.append_assoc f _ _, neutral,
    Fragment.append_blank f d⟩

end SqlClause
