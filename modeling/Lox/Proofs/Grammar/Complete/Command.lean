import Lox.Proofs.Grammar.Complete.Statement

namespace Lox.Grammar

variable {loop d : Bool} {loops m : Nat} {ts ts₁ ts₂ ts₃ rest : List Token} {e : Expr}
  {s : Stmt} {keyword : Token}

/-- The production for what stands behind a keyword. -/
def command? : Kind → Option (Inner → Token → Parse Stmt)
  | .for => some fun inner _ => forStatement inner
  | .if => some fun inner _ => ifStatement inner
  | .while => some fun inner _ => whileStatement inner
  | .break => some fun _ keyword => breakStatement keyword
  | .return => some returnStatement
  | .leftBrace => some fun inner _ => .block <$> block inner
  | .print => some fun inner _ => printStatement inner
  | _ => none

theorem readable_command {production : Inner → Token → Parse Stmt}
    (hk : command? keyword.kind = some production)
    (h : Accepts loop (production · keyword) ts (fun k => d = true → k ≠ .else)
      fun s' => s'.forget id = s.forget id) : ReadableStatement loop d (keyword :: ts) s := by
  refine ⟨.one (.inr ?_) ?_, fun m loops hlen hloop rest hrest => ?_⟩
  · cases hkind : keyword.kind <;> simp [hkind, command?, startsCommand] at hk ⊢
  · rintro hfun
    simp [hfun, command?] at hk
  · simp only [List.length_cons] at hlen
    have h := h m loops (by omega) hloop rest hrest
    refine yields_head_cons.bind ?_
    rintro _ rfl
    cases hkind : keyword.kind <;>
      simp only [hkind, command?, reduceCtorEq, Option.some.injEq] at hk <;> subst hk <;>
      exact yields_advance.bind fun _ _ => h

theorem yields_expressionStatement (rest : List Token) {semicolon : Token}
    (h : ReadableExpression loop .assignment ts e) (hsemicolon : semicolon.kind = .semicolon)
    (hlen : ts.length ≤ m + 1) (hloop : loop = true → 0 < loops) :
    Yields loops (expressionStatement (Inner.ofDepth m)) (ts ++ semicolon :: rest) rest
      fun s' => s'.forget id = (Stmt.expression e).forget id := by
  refine Yields.bind (h.yields hlen hloop ?_) fun e' he' => ?_
  · exact Rank.endsAt_of_joins? hsemicolon rfl
  · exact (yields_expect hsemicolon).bind fun _ _ => .pure (by simp [Stmt.forget, he'])

theorem readable_expression {semicolon : Token} (h : ReadableExpression loop .assignment ts e)
    (hsemicolon : semicolon.kind = .semicolon) :
    ReadableStatement loop false (ts ++ [semicolon]) (.expression e) := by
  have hstart : Starts (fun k => startsExpression k) ts :=
    Starts.imp h.start fun k hk => by simpa [startsExpression, Rank.takesSign] using hk
  refine ⟨(hstart.append _).imp fun _ => .inl, fun m loops hlen hloop rest _ => ?_⟩
  simp only [List.length_append, List.length_cons, List.length_nil] at hlen
  have hk := (hstart.append ([semicolon] ++ rest)).kind
  rw [List.append_assoc]
  refine yields_head.bind ?_
  rintro _ rfl
  have hexpression := yields_expressionStatement rest h hsemicolon (m := m)
    (by omega) hloop
  split
  all_goals try exact hexpression
  all_goals
    next hkind =>
      rw [nextKind, hkind] at hk
      exact absurd hk (by decide)

theorem readable_print {semicolon : Token} (hk : keyword.kind = .print)
    (h : ReadableExpression loop .assignment ts e) (hsemicolon : semicolon.kind = .semicolon) :
    ReadableStatement loop false (keyword :: (ts ++ [semicolon])) (.print e) := by
  refine readable_command (by rw [hk]; rfl) fun m loops hlen hloop rest _ => ?_
  simp only [List.append_assoc, List.length_append, List.length_cons, List.length_nil] at hlen ⊢
  refine Yields.bind (h.yields (by omega) hloop ?_) fun e' he' => ?_
  · exact Rank.endsAt_of_joins? hsemicolon rfl
  · exact (yields_expect hsemicolon).bind fun _ _ => .pure (by simp [Stmt.forget, he'])

theorem readable_return {o : Option Expr} {semicolon : Token} (hk : keyword.kind = .return)
    (h : ReadableOptional loop ts o) (hsemicolon : semicolon.kind = .semicolon) :
    ReadableStatement loop false (keyword :: (ts ++ [semicolon])) (.return keyword o) := by
  refine readable_command (by rw [hk]; rfl) fun m loops hlen hloop rest _ => ?_
  simp only [List.append_assoc, List.length_append, List.length_cons, List.length_nil] at hlen ⊢
  refine (yields_optional (semicolon :: rest) h (by omega) hloop hsemicolon rfl
    rfl).bind fun o' ho' => ?_
  exact (yields_expect hsemicolon).bind fun _ _ => .pure (by simp [ho'])

theorem readable_break {semicolon : Token} (hk : keyword.kind = .break)
    (hsemicolon : semicolon.kind = .semicolon) :
    ReadableStatement true false [keyword, semicolon] (.break keyword) := by
  refine readable_command (by rw [hk]; rfl) fun m loops _ hloop rest _ => ?_
  refine yields_get.bind fun c hc => ?_
  rw [if_neg (by rw [hc.2]; exact Nat.ne_of_gt (hloop rfl))]
  exact (yields_expect hsemicolon).bind fun _ _ => .pure rfl

theorem readable_block {ss : List Stmt} {closing : Token} (hk : keyword.kind = .leftBrace)
    (h : Sequence (fun ts s => ∃ d, ReadableDeclaration loop d ts s) ts ss)
    (hclosing : closing.kind = .rightBrace) :
    ReadableStatement loop false (keyword :: (ts ++ [closing])) (.block ss) := by
  refine readable_command (by rw [hk]; rfl) fun m loops hlen hloop rest _ => ?_
  simp only [List.append_assoc, List.length_append, List.length_cons, List.length_nil] at hlen ⊢
  refine Yields.map ((yields_block h (by omega) hloop hclosing).imp fun ss' hss' => ?_)
  simpa [Stmt.forget] using hss'

theorem yields_loopBody {body : Stmt} (h : ReadableStatement true d ts body)
    (hlen : ts.length ≤ m) (hrest : d = true → nextKind rest ≠ .else) :
    Yields loops (loopBody (Inner.ofDepth m)) (ts ++ rest) rest
      fun body' => body'.forget id = body.forget id :=
  yields_withinLoop (h.inner hlen (fun _ => Nat.zero_lt_succ _) hrest)

/-- The part in parentheses behind `if` or `while`. -/
theorem yields_condition {α : Type} {opening closing : Token} {item item' : String}
    {next : Expr → Parse α} {Q : α → Prop} (hopening : opening.kind = .leftParen)
    (h : ReadableExpression loop .assignment ts e) (hclosing : closing.kind = .rightParen)
    (hlen : ts.length ≤ m + 1) (hloop : loop = true → 0 < loops)
    (hnext : ∀ e', e'.forget id = e.forget id → Yields loops (next e') ts₁ rest Q) :
    Yields loops (do
      let _ ← expect .leftParen item
      let condition ← expression (Inner.ofDepth m)
      let _ ← expect .rightParen item'
      next condition) (opening :: (ts ++ closing :: ts₁)) rest Q := by
  refine (yields_expect hopening).bind fun _ _ => ?_
  refine Yields.bind (h.yields hlen hloop ?_) fun e' he' => ?_
  · exact Rank.endsAt_of_joins? hclosing rfl
  · exact (yields_expect hclosing).bind fun _ _ => hnext e' he'

theorem readable_while {body : Stmt} {opening closing : Token} (hk : keyword.kind = .while)
    (hopening : opening.kind = .leftParen) (h : ReadableExpression loop .assignment ts₁ e)
    (hclosing : closing.kind = .rightParen) (hbody : ReadableStatement true d ts₂ body) :
    ReadableStatement loop d (keyword :: opening :: (ts₁ ++ closing :: ts₂)) (.while e body) := by
  refine readable_command (by rw [hk]; rfl) fun m loops hlen hloop rest hrest => ?_
  simp only [List.cons_append, List.append_assoc, List.length_append, List.length_cons] at hlen ⊢
  refine yields_condition hopening h hclosing (by omega) hloop fun e' he' => ?_
  refine (yields_loopBody hbody (by omega) hrest).bind fun body' hbody' => .pure ?_
  simp [Stmt.forget, he', hbody']

theorem readable_if {body : Stmt} {opening closing : Token} (hk : keyword.kind = .if)
    (hopening : opening.kind = .leftParen) (h : ReadableExpression loop .assignment ts₁ e)
    (hclosing : closing.kind = .rightParen) (hbody : ReadableStatement loop d ts₂ body) :
    ReadableStatement loop true (keyword :: opening :: (ts₁ ++ closing :: ts₂))
      (.ifElse e body none) := by
  refine readable_command (by rw [hk]; rfl) fun m loops hlen hloop rest hrest => ?_
  simp only [List.cons_append, List.append_assoc, List.length_append, List.length_cons] at hlen ⊢
  refine yields_condition hopening h hclosing (by omega) hloop fun e' he' => ?_
  refine (hbody.inner (by omega) hloop fun _ => hrest rfl).bind fun body' hbody' => ?_
  refine (yields_accept_false (hrest rfl)).bind ?_
  rintro _ rfl
  exact .pure (by simp [he', hbody'])

theorem readable_ifElse {body other : Stmt} {opening closing otherwise : Token}
    (hk : keyword.kind = .if) (hopening : opening.kind = .leftParen)
    (h : ReadableExpression loop .assignment ts₁ e) (hclosing : closing.kind = .rightParen)
    (hbody : ReadableStatement loop false ts₂ body) (hotherwise : otherwise.kind = .else)
    (hother : ReadableStatement loop d ts₃ other) :
    ReadableStatement loop d (keyword :: opening :: (ts₁ ++ closing :: (ts₂ ++ otherwise :: ts₃)))
      (.ifElse e body (some other)) := by
  refine readable_command (by rw [hk]; rfl) fun m loops hlen hloop rest hrest => ?_
  simp only [List.cons_append, List.append_assoc, List.length_append, List.length_cons] at hlen ⊢
  refine yields_condition hopening h hclosing (by omega) hloop fun e' he' => ?_
  refine (hbody.inner (by omega) hloop (by simp)).bind fun body' hbody' => ?_
  refine (yields_accept hotherwise).bind ?_
  rintro _ rfl
  refine Yields.bind (Q := fun o => ∃ s, o = some s ∧ s.forget id = other.forget id)
    (Yields.map ((hother.inner (by omega) hloop hrest).imp fun s hs => ⟨s, rfl, hs⟩)) ?_
  rintro _ ⟨other', rfl, hother'⟩
  exact .pure (by simp [he', hbody', hother'])

end Lox.Grammar
