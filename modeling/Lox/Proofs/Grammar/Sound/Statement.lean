import Lox.Proofs.Grammar.Sound.Expression

namespace Lox.Grammar

variable {inner : Inner} {n : Nat} {loop : Bool} {c : Cursor} {keyword : Token}

/-- A statement whose keyword has been passed already. -/
def SpansBehind (keyword : Token) (loop : Bool) (c : Cursor) (s : Stmt) (c' : Cursor) : Prop :=
  Stands Stmt.ids (fun ts s => ∃ d, Derives true loop (.statement d) (keyword :: ts) s ∧
    (d = true → c'.head.kind ≠ .else)) c s c'

theorem SpansBehind.spansStatement {c₁ c₂ : Cursor} {s : Stmt}
    (h : SpansBehind keyword loop c₁ s c₂) (ha : c.Advance keyword c₁) :
    SpansStatement loop c s c₂ := by
  refine ⟨ha.nextId ▸ h.fresh, fun hclean => ?_⟩
  obtain ⟨ts, hts, hd⟩ := h.tokens hclean
  exact ⟨keyword :: ts, by rw [ha.rest, hts]; rfl, hd⟩

theorem reads_optional (hi : inner.Sound n) (hl : c.inLoop = loop) (close : Kind) :
    Reads (n < c.rest.length) (optionalExpression inner close) c (Spans loop .optional c) := by
  refine reads_kind.bind ?_
  rintro _ _ _ ⟨rfl, rfl⟩
  split
  · exact Reads.pure (a := none) ⟨.nil, fun _ => ⟨[], by simp, .leftOut⟩⟩
  · refine Reads.map ((reads_expression hi hl).imp id fun e c₁ _ h => ?_)
    exact h.1.imp (by simp [Symbol.ids]) fun _ hd => .present hd

theorem reads_varDeclaration (hi : inner.Sound n) (hl : c.inLoop = loop)
    (hk : keyword.kind = .var) :
    Reads (n ≤ c.rest.length) (varDeclaration inner) c
      (Stands Stmt.ids (fun ts => Derives true loop .variable (keyword :: ts)) c) := by
  refine (reads_expect (by simp)).bind fun name c₁ hs₁ ⟨hname, ha₁⟩ => ?_
  refine (reads_accept (by simp)).bind fun b c₂ hs₂ hb => ?_
  cases b with
  | false =>
    obtain ⟨-, rfl⟩ := hb
    refine (reads_expect (by simp)).bind fun semicolon c₃ hs₃ ⟨hsemicolon, ha₃⟩ => ?_
    refine Reads.pure ⟨.nil, fun _ => ⟨[name, semicolon], ?_, .bare hk hname hsemicolon⟩⟩
    rw [ha₁.rest, ha₃.rest]
    rfl
  | true =>
    obtain ⟨equals, hequals, ha₂⟩ := hb
    have hlen := (ha₁.passed hs₂)
    refine Reads.bind
      (Q := fun o c₃ => ∃ e, o = some e ∧ Spans loop (.expression .assignment) c₂ e c₃)
      (Reads.map ((reads_expression hi ((hs₁.trans hs₂).inLoop.trans hl)).imp (fun h => ?_)
        fun e c₃ _ h => ⟨e, rfl, h.1⟩)) ?_
    · exact Nat.le_of_lt (Nat.lt_trans h hlen)
    · rintro _ c₃ hs₃ ⟨e, rfl, he⟩
      refine (reads_expect (by simp)).bind fun semicolon c₄ hs₄ ⟨hsemicolon, ha₄⟩ => ?_
      refine Reads.pure ⟨?_, fun hclean => ?_⟩
      · exact he.fresh.mono (hs₁.trans hs₂).nextId hs₄.nextId
      · obtain ⟨ts, hts, hd⟩ := he.tokens (hs₄.clean hclean)
        refine ⟨name :: equals :: (ts ++ [semicolon]), ?_,
          .initialized hk hname hequals hd hsemicolon⟩
        rw [ha₁.rest, ha₂.rest, hts, ha₄.rest]
        simp

theorem reads_expressionStatement (hi : inner.Sound n) (hl : c.inLoop = loop) :
    Reads (n < c.rest.length) (expressionStatement inner) c fun s c' =>
      Stands Stmt.ids (fun ts s => ∃ ts' e semicolon, ts = ts' ++ [semicolon] ∧
        semicolon.kind = .semicolon ∧ s = .expression e ∧
        Derives true loop (.expression .assignment) ts' e) c s c' ∧ c.Passed c' := by
  refine (reads_expression hi hl).bind fun e c₁ hs₁ ⟨he, hp⟩ => ?_
  refine (reads_expect (by simp)).bind fun semicolon c₂ hs₂ ⟨hsemicolon, ha₂⟩ => ?_
  refine Reads.pure ⟨⟨he.fresh.mono (Nat.le_refl _) hs₂.nextId, fun hclean => ?_⟩,
    Nat.lt_of_le_of_lt hs₂.length_le hp⟩
  obtain ⟨ts, hts, hd⟩ := he.tokens (hs₂.clean hclean)
  exact ⟨ts ++ [semicolon], by rw [hts, ha₂.rest]; simp, ts, e, semicolon, rfl, hsemicolon, rfl, hd⟩

theorem reads_printStatement (hi : inner.Sound n) (hl : c.inLoop = loop)
    (hk : keyword.kind = .print) :
    Reads (n ≤ c.rest.length) (printStatement inner) c (SpansBehind keyword loop c) := by
  refine ((reads_expression hi hl).spend Nat.le_of_lt).bind fun e c₁ hs₁ ⟨he, _⟩ => ?_
  refine (reads_expect (by simp)).bind fun semicolon c₂ hs₂ ⟨hsemicolon, ha₂⟩ => ?_
  refine Reads.pure ⟨he.fresh.mono (Nat.le_refl _) hs₂.nextId, fun hclean => ?_⟩
  obtain ⟨ts, hts, hd⟩ := he.tokens (hs₂.clean hclean)
  exact ⟨ts ++ [semicolon], by rw [hts, ha₂.rest]; simp, false, .print hk hd hsemicolon, by simp⟩

theorem reads_returnStatement (hi : inner.Sound n) (hl : c.inLoop = loop)
    (hk : keyword.kind = .return) :
    Reads (n ≤ c.rest.length) (returnStatement inner keyword) c (SpansBehind keyword loop c) := by
  refine ((reads_optional hi hl .semicolon).spend Nat.le_of_lt).bind fun o c₁ hs₁ ho => ?_
  refine (reads_expect (by simp)).bind fun semicolon c₂ hs₂ ⟨hsemicolon, ha₂⟩ => ?_
  refine Reads.pure ⟨?_, fun hclean => ?_⟩
  · have hids : (Stmt.return keyword o).ids = Symbol.ids .optional o := by
      cases o <;> simp [Symbol.ids, Stmt.ids]
    rw [hids]
    exact ho.fresh.mono (Nat.le_refl _) hs₂.nextId
  · obtain ⟨ts, hts, hd⟩ := ho.tokens (hs₂.clean hclean)
    exact ⟨ts ++ [semicolon], by rw [hts, ha₂.rest]; simp, false, .return hk hd hsemicolon, by simp⟩

theorem reads_breakStatement {spent : Prop} (hl : c.inLoop = loop) (hk : keyword.kind = .break) :
    Reads spent (breakStatement keyword) c (SpansBehind keyword loop c) := by
  refine reads_get.bind ?_
  rintro _ _ _ ⟨rfl, rfl⟩
  split
  · exact reads_halt.bind (Q := fun _ _ => False) fun _ _ _ h => h.elim
  next hloops =>
    refine (reads_expect (by simp)).bind fun semicolon c₁ hs₁ ⟨hsemicolon, ha₁⟩ => ?_
    refine Reads.pure ⟨.nil, fun _ => ⟨[semicolon], ha₁.rest, false, ?_, by simp⟩⟩
    have htrue : loop = true := hl.symm.trans (decide_eq_true (Nat.pos_of_ne_zero hloops))
    subst htrue
    exact .break hk hsemicolon

theorem reads_blockStatement (hi : inner.Sound n) (hl : c.inLoop = loop)
    (hk : keyword.kind = .leftBrace) :
    Reads (n ≤ c.rest.length) (.block <$> block inner) c (SpansBehind keyword loop c) := by
  refine Reads.map ((reads_block hi hl).imp id fun ss c₁ _ hss => ⟨?_, fun hclean => ?_⟩)
  · simp only [Stmt.ids, idsOfStatements_eq_flatMap]
    exact hss.fresh
  · obtain ⟨ts, hts, ts', last, rfl, hlast, hd⟩ := hss.tokens hclean
    exact ⟨_, hts, false, .block hk hd hlast, by simp⟩

theorem reads_loopBody (hi : inner.Sound n) :
    Reads (n ≤ c.rest.length) (loopBody inner) c (SpansStatement true c) := by
  refine reads_withinLoop (Q := fun s c' => SpansStatement true { c with loops := c.loops + 1 } s c')
    ((hi.statement true { c with loops := c.loops + 1 } (by simp [Cursor.inLoop])).imp id
      fun _ _ _ h => h.1) fun s c' h => ⟨h.fresh, h.tokens⟩

theorem reads_whileStatement (hi : inner.Sound n) (hl : c.inLoop = loop)
    (hk : keyword.kind = .while) :
    Reads (n ≤ c.rest.length) (whileStatement inner) c (SpansBehind keyword loop c) := by
  refine (reads_expect (by simp)).bind fun opening c₁ hs₁ ⟨hopening, ha₁⟩ => ?_
  refine ((reads_expression hi (hs₁.inLoop.trans hl)).spend fun h => Nat.le_of_lt
    (Nat.lt_trans h ha₁.length_lt)).bind fun condition c₂ hs₂ ⟨hcondition, _⟩ => ?_
  refine (reads_expect (by simp)).bind fun closing c₃ hs₃ ⟨hclosing, ha₃⟩ => ?_
  refine ((reads_loopBody hi).spend fun h => Nat.le_trans h
    (hs₁.trans (hs₂.trans hs₃)).length_le).bind fun body c₄ hs₄ hbody => ?_
  refine Reads.pure ⟨?_, fun hclean => ?_⟩
  · refine Fresh.append ?_ hbody.fresh (hs₁.trans (hs₂.trans hs₃)).nextId hs₄.nextId
    exact hcondition.fresh.mono hs₁.nextId hs₃.nextId
  · obtain ⟨ts₂, hts₂, d, hd₂, hfollow⟩ := hbody.tokens hclean
    obtain ⟨ts₁, hts₁, hd₁⟩ := hcondition.tokens (hs₃.clean (hs₄.clean hclean))
    refine ⟨opening :: (ts₁ ++ closing :: ts₂), ?_, d,
      .while hk hopening hd₁ hclosing hd₂, hfollow⟩
    rw [ha₁.rest, hts₁, ha₃.rest, hts₂]
    simp

theorem reads_forStart (hi : inner.Sound n) (hl : c.inLoop = loop) :
    Reads (n < c.rest.length) (forStart inner) c (Spans loop .start c) := by
  refine (reads_accept (by simp)).bind fun b c₁ hs₁ hb => ?_
  cases b with
  | true =>
    obtain ⟨semicolon, hsemicolon, ha₁⟩ := hb
    exact Reads.pure (a := none) ⟨.nil, fun _ => ⟨[semicolon], ha₁.rest, .noStart hsemicolon⟩⟩
  | false =>
    obtain ⟨-, rfl⟩ := hb
    refine (reads_accept (by simp)).bind fun b c₂ hs₂ hb => ?_
    cases b with
    | true =>
      obtain ⟨keyword, hkeyword, ha₂⟩ := hb
      refine Reads.map (((reads_varDeclaration hi (hs₂.inLoop.trans hl) hkeyword).spend
        fun h => Nat.lt_of_le_of_lt h ha₂.length_lt).imp id fun s c₃ _ hs => ⟨?_, fun hclean => ?_⟩)
      · simpa [Symbol.ids, ← ha₂.nextId] using hs.fresh
      · obtain ⟨ts, hts, hd⟩ := hs.tokens hclean
        exact ⟨keyword :: ts, by rw [ha₂.rest, hts]; rfl, .startVariable hd⟩
    | false =>
      obtain ⟨-, rfl⟩ := hb
      refine Reads.map ((reads_expressionStatement hi hl).imp id fun s c₃ _ hs => ?_)
      refine hs.1.imp (by simp [Symbol.ids]) ?_
      rintro _ ⟨ts, e, semicolon, rfl, hsemicolon, rfl, hd⟩
      exact .startExpression hd hsemicolon

/-- The step is read before the body and stands behind it. -/
theorem ids_forLoop (start : Option Stmt) (condition step : Option Expr) (body : Stmt) :
    (Symbol.ids .start start ++ (Symbol.ids .optional condition ++
      (Symbol.ids .optional step ++ body.ids))).Perm (forLoop start condition step body).ids := by
  have hstep : ∀ step : Option Expr, (Symbol.ids .optional step ++ body.ids).Perm
      (forLoop none none step body).ids := by
    rintro (_ | step)
    · simp [Symbol.ids, forLoop, Stmt.ids, Expr.ids]
    · simpa [Symbol.ids, forLoop, Stmt.ids, Expr.ids, idsOfStatements] using List.perm_append_comm
  have h := (hstep step).append_left (Symbol.ids .optional condition)
  refine (h.append_left (Symbol.ids .start start)).trans (.of_eq ?_)
  cases start <;> cases condition <;> cases step <;>
    simp [Symbol.ids, forLoop, Stmt.ids, Expr.ids, idsOfStatements]

theorem reads_forStatement (hi : inner.Sound n) (hl : c.inLoop = loop) (hk : keyword.kind = .for) :
    Reads (n ≤ c.rest.length) (forStatement inner) c (SpansBehind keyword loop c) := by
  refine (reads_expect (by simp)).bind fun opening c₁ hs₁ ⟨hopening, ha₁⟩ => ?_
  refine ((reads_forStart hi (hs₁.inLoop.trans hl)).spend fun h =>
    Nat.le_of_lt (Nat.lt_trans h ha₁.length_lt)).bind fun start c₂ hs₂ hstart => ?_
  have hs₁₂ := hs₁.trans hs₂
  refine ((reads_optional hi (hs₁₂.inLoop.trans hl) .semicolon).spend fun h =>
    Nat.le_of_lt (Nat.lt_of_lt_of_le h hs₁₂.length_le)).bind fun condition c₃ hs₃ hcondition => ?_
  refine (reads_expect (by simp)).bind fun semicolon c₄ hs₄ ⟨hsemicolon, ha₄⟩ => ?_
  have hs₁₄ := hs₁₂.trans (hs₃.trans hs₄)
  refine ((reads_optional hi (hs₁₄.inLoop.trans hl) .rightParen).spend fun h =>
    Nat.le_of_lt (Nat.lt_of_lt_of_le h hs₁₄.length_le)).bind fun step c₅ hs₅ hstep => ?_
  refine (reads_expect (by simp)).bind fun closing c₆ hs₆ ⟨hclosing, ha₆⟩ => ?_
  refine ((reads_loopBody hi).spend fun h => Nat.le_trans h
    (hs₁₄.trans (hs₅.trans hs₆)).length_le).bind fun body c₇ hs₇ hbody => ?_
  have hs₄₇ := hs₅.trans (hs₆.trans hs₇)
  have hs₂₇ := hs₃.trans (hs₄.trans hs₄₇)
  refine Reads.pure ⟨(Fresh.append ?_ ?_ hs₁₂.nextId hs₂₇.nextId).perm (ids_forLoop _ _ _ _),
    fun hclean => ?_⟩
  · exact hstart.fresh.mono hs₁.nextId (Nat.le_refl _)
  · refine Fresh.append (hcondition.fresh.mono (Nat.le_refl _) hs₄.nextId) ?_
      (hs₃.trans hs₄).nextId hs₄₇.nextId
    exact Fresh.append (hstep.fresh.mono (Nat.le_refl _) hs₆.nextId) hbody.fresh
      (hs₅.trans hs₆).nextId hs₇.nextId
  · obtain ⟨ts₄, hts₄, d, hd₄, hfollow⟩ := hbody.tokens hclean
    obtain ⟨ts₃, hts₃, hd₃⟩ := hstep.tokens (hs₆.clean (hs₇.clean hclean))
    have hclean₄ := hs₄₇.clean hclean
    obtain ⟨ts₂, hts₂, hd₂⟩ := hcondition.tokens (hs₄.clean hclean₄)
    obtain ⟨ts₁, hts₁, hd₁⟩ := hstart.tokens ((hs₃.trans hs₄).clean hclean₄)
    refine ⟨opening :: (ts₁ ++ (ts₂ ++ semicolon :: (ts₃ ++ closing :: ts₄))), ?_, d,
      .for hk hopening hd₁ hd₂ hsemicolon hd₃ hclosing hd₄, hfollow⟩
    rw [ha₁.rest, hts₁, hts₂, ha₄.rest, hts₃, ha₆.rest, hts₄]
    simp

theorem reads_ifStatement (hi : inner.Sound n) (hl : c.inLoop = loop) (hk : keyword.kind = .if) :
    Reads (n ≤ c.rest.length) (ifStatement inner) c (SpansBehind keyword loop c) := by
  refine (reads_expect (by simp)).bind fun opening c₁ hs₁ ⟨hopening, ha₁⟩ => ?_
  refine ((reads_expression hi (hs₁.inLoop.trans hl)).spend fun h => Nat.le_of_lt
    (Nat.lt_trans h ha₁.length_lt)).bind fun condition c₂ hs₂ ⟨hcondition, _⟩ => ?_
  refine (reads_expect (by simp)).bind fun closing c₃ hs₃ ⟨hclosing, ha₃⟩ => ?_
  have hs₁₃ := hs₁.trans (hs₂.trans hs₃)
  refine ((hi.statement loop c₃ (hs₁₃.inLoop.trans hl)).spend fun h => Nat.le_trans h
    hs₁₃.length_le).bind fun body c₄ hs₄ ⟨hbody, _⟩ => ?_
  have hbefore : Fresh c.nextId c₄.nextId (condition.ids ++ body.ids) :=
    Fresh.append (hcondition.fresh.mono hs₁.nextId hs₃.nextId) hbody.fresh hs₁₃.nextId hs₄.nextId
  have htokens : c₄.faults = [] → ∃ ts₁ ts₂ d, c.rest =
      opening :: (ts₁ ++ closing :: (ts₂ ++ c₄.rest)) ∧
      Derives true loop (.expression .assignment) ts₁ condition ∧
      Derives true loop (.statement d) ts₂ body ∧ (d = true → c₄.head.kind ≠ .else) := by
    intro hclean
    obtain ⟨ts₂, hts₂, d, hd₂, hfollow⟩ := hbody.tokens hclean
    obtain ⟨ts₁, hts₁, hd₁⟩ := hcondition.tokens (hs₃.clean (hs₄.clean hclean))
    exact ⟨ts₁, ts₂, d, by rw [ha₁.rest, hts₁, ha₃.rest, hts₂], hd₁, hd₂, hfollow⟩
  refine (reads_accept (by simp)).bind fun b c₅ hs₅ hb => ?_
  cases b with
  | false =>
    obtain ⟨hne, rfl⟩ := hb
    refine Reads.pure ⟨hbefore, fun hclean => ?_⟩
    obtain ⟨ts₁, ts₂, d, hts, hd₁, hd₂, -⟩ := htokens hclean
    refine ⟨opening :: (ts₁ ++ closing :: ts₂), by rw [hts]; simp, true,
      .if hk hopening hd₁ hclosing hd₂, fun _ => hne⟩
  | true =>
    obtain ⟨otherwise, hotherwise, ha₅⟩ := hb
    have hs₁₅ := hs₁₃.trans (hs₄.trans hs₅)
    refine Reads.bind (Q := fun o c₆ => ∃ s, o = some s ∧ SpansStatement loop c₅ s c₆)
      (Reads.map ((hi.statement loop c₅ (hs₁₅.inLoop.trans hl)).imp (fun h =>
        Nat.le_trans h hs₁₅.length_le) fun s _ _ h => ⟨s, rfl, h.1⟩)) ?_
    rintro _ c₆ hs₆ ⟨other, rfl, hother⟩
    refine Reads.pure ⟨?_, fun hclean => ?_⟩
    · simpa [Stmt.ids] using (hbefore.mono (Nat.le_refl _) hs₅.nextId).append hother.fresh
        hs₁₅.nextId hs₆.nextId
    · obtain ⟨ts₃, hts₃, d₂, hd₃, hfollow₂⟩ := hother.tokens hclean
      obtain ⟨ts₁, ts₂, d₁, hts, hd₁, hd₂, hfollow₁⟩ := htokens (hs₅.clean (hs₆.clean hclean))
      have hnearest : d₁ = false := by
        refine Bool.eq_false_iff.mpr fun h => hfollow₁ h ?_
        rw [Cursor.head, ha₅.rest]
        exact hotherwise
      refine ⟨opening :: (ts₁ ++ closing :: (ts₂ ++ otherwise :: ts₃)), ?_, d₂,
        .ifElse hk hopening hd₁ hclosing hd₂ (fun _ => hnearest) hotherwise hd₃, hfollow₂⟩
      rw [hts, ha₅.rest, hts₃]
      simp

end Lox.Grammar
