import Lox.Proofs.Grammar.Complete.Start
import Lox.Proofs.Loop.Clauses

namespace Lox

open Grammar

variable {nearest loop d : Bool} {ts : List Token}

namespace ForLoop

/-- The tokens of a loop behind its keyword, clause by clause. -/
inductive Written (nearest loop d : Bool) (l : ForLoop) : List Token → Prop where
  | clauses {opening semicolon closing : Token} {ts₁ ts₂ ts₃ ts₄ : List Token} :
      opening.kind = .leftParen → Derives nearest loop .start ts₁ (l.start.map ForStart.tree) →
      Derives nearest loop .optional ts₂ l.condition → semicolon.kind = .semicolon →
      Derives nearest loop .optional ts₃ l.step → closing.kind = .rightParen →
      Derives nearest true (.statement d) ts₄ l.body →
      Written nearest loop d l (opening :: (ts₁ ++ (ts₂ ++ semicolon :: (ts₃ ++ closing :: ts₄))))

end ForLoop

theorem Grammar.declared?_forLoop (start : Option Stmt) (condition step : Option Expr)
    (body : Stmt) : (forLoop start condition step body).declared? = none := by
  cases start <;> rfl

/-- A statement declares nothing. -/
theorem Grammar.Derives.declared?_eq_none {s : Stmt}
    (h : Derives nearest loop (.statement d) ts s) : s.declared? = none := by
  cases h with
  | «for» => exact declared?_forLoop _ _ _ _
  | _ => rfl

theorem ForStart.exists_of_derives {start : Option Stmt}
    (h : Derives nearest loop .start ts start) :
    ∃ s : Option ForStart, start = s.map ForStart.tree := by
  cases h with
  | noStart => exact ⟨none, rfl⟩
  | startVariable hs =>
    cases hs with
    | bare => exact ⟨some (.var _ none), rfl⟩
    | initialized => exact ⟨some (.var _ (some _)), rfl⟩
  | startExpression => exact ⟨some (.expression _), rfl⟩

/-- From a `for` loop the tree of its clauses is read, which declares nothing for what comes behind.
-/
theorem ForLoop.exists_of_derives {keyword : Token} {s : Stmt}
    (h : Derives nearest loop (.statement d) (keyword :: ts) s) (hkeyword : keyword.kind = .for) :
    s.declared? = none ∧ ∃ l : ForLoop, s = l.tree ∧ l.Written nearest loop d ts := by
  refine ⟨h.declared?_eq_none, ?_⟩
  generalize hts : keyword :: ts = ts' at h
  cases h with
  | «for» _ hopening hstart hcondition hsemicolon hstep hclosing hbody =>
    obtain ⟨-, rfl⟩ := List.cons.inj hts
    obtain ⟨s, rfl⟩ := ForStart.exists_of_derives hstart
    exact ⟨⟨s, _, _, _, hbody.declared?_eq_none⟩, rfl,
      .clauses hopening hstart hcondition hsemicolon hstep hclosing hbody⟩
  | expression he =>
    have hstart : Starts _ _ := he.start
    obtain ⟨t, _, rfl, ht⟩ := hstart.exists_cons
    obtain ⟨rfl, -⟩ := List.cons.inj hts
    rw [hkeyword] at ht
    exact absurd ht (by decide)
  | print hk | «return» hk | «break» hk | block hk | «while» hk | «if» hk | ifElse hk =>
    obtain ⟨rfl, -⟩ := List.cons.inj hts
    rw [hkeyword] at hk
    cases hk

end Lox
