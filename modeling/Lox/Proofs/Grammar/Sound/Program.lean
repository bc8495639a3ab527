import Lox.Proofs.Grammar.Sound.Statement

namespace Lox.Grammar

variable {inner : Inner} {n : Nat} {loop : Bool} {c : Cursor} {keyword : Token}

theorem SpansBehind.passed {c₁ c₂ : Cursor} {s : Stmt} (h : SpansBehind keyword loop c₁ s c₂)
    (ha : c.Advance keyword c₁) (hs : c₁.Step c₂) :
    SpansStatement loop c s c₂ ∧ c.Passed c₂ :=
  ⟨h.spansStatement ha, ha.passed hs⟩

/-- What stands behind a keyword is left to the production for it. -/
theorem reads_behind {production : Parse Stmt} (hl : c.inLoop = loop)
    (hk : c.head.kind ≠ .eof)
    (h : ∀ c', c'.inLoop = loop →
      Reads (n ≤ c'.rest.length) production c' (SpansBehind c.head loop c')) :
    Reads (n < c.rest.length) (do advance; production) c fun s c' =>
      SpansStatement loop c s c' ∧ c.Passed c' := by
  refine (reads_advance hk).bind fun _ c₁ hs₁ ha => ?_
  refine ((h c₁ (hs₁.inLoop.trans hl)).imp (fun h => Nat.lt_of_le_of_lt h ha.length_lt)
    fun s c₂ hs₂ hs => hs.passed ha hs₂)

theorem reads_statement (hi : inner.Sound n) (hl : c.inLoop = loop) :
    Reads (n < c.rest.length) (statement inner) c fun s c' =>
      SpansStatement loop c s c' ∧ c.Passed c' := by
  refine reads_head.bind ?_
  rintro _ _ _ ⟨rfl, rfl⟩
  split
  next hk => exact reads_behind hl (by simp [hk]) fun _ hl => reads_forStatement hi hl hk
  next hk => exact reads_behind hl (by simp [hk]) fun _ hl => reads_ifStatement hi hl hk
  next hk => exact reads_behind hl (by simp [hk]) fun _ hl => reads_whileStatement hi hl hk
  next hk => exact reads_behind hl (by simp [hk]) fun _ hl => reads_breakStatement hl hk
  next hk => exact reads_behind hl (by simp [hk]) fun _ hl => reads_returnStatement hi hl hk
  next hk => exact reads_behind hl (by simp [hk]) fun _ hl => reads_blockStatement hi hl hk
  next hk => exact reads_behind hl (by simp [hk]) fun _ hl => reads_printStatement hi hl hk
  next =>
    refine (reads_expressionStatement hi hl).imp id fun s c₁ _ ⟨hs, hp⟩ => ⟨hs.imp rfl ?_, hp⟩
    rintro _ ⟨ts, e, semicolon, rfl, hsemicolon, rfl, hd⟩
    exact ⟨false, .expression hd hsemicolon, by simp⟩

theorem reads_methods (loop : Bool) (hi : inner.Sound n) :
    Reads (n < c.rest.length) (many (fun _ => do
      let k ← kind
      if k = .rightBrace ∨ k = .eof then
        return none
      return some (← method inner .method)) 0) c fun ms c' => Spans loop .methods c ms c' := by
  refine reads_many (S := fun _ c ms c' => Spans loop .methods c ms c') ?_
  intro _ c₁ hs₁
  refine reads_kind.bind ?_
  rintro _ _ _ ⟨rfl, rfl⟩
  split
  · exact Reads.pure (a := none) ⟨.nil, fun _ => ⟨[], by simp, .noMethods⟩⟩
  · refine Reads.map ((reads_method loop hi .method).imp
      (fun h => Nat.lt_of_lt_of_le h hs₁.length_le) fun m c₂ hs₂ hm => ⟨hm.2, ?_⟩)
    intro ms c₃ hs₃ hms
    refine ⟨hm.1.fresh.append hms.fresh hs₂.nextId hs₃.nextId, fun hclean => ?_⟩
    obtain ⟨ts₁, hts₁, hd₁⟩ := hm.1.tokens (hs₃.clean hclean)
    obtain ⟨ts₂, hts₂, hd₂⟩ := hms.tokens hclean
    exact ⟨ts₁ ++ ts₂, by rw [hts₁, hts₂, List.append_assoc], .methods hd₁ hd₂⟩

/-- A declaration whose keyword has been passed already. -/
def SpansDeclaring (keyword : Token) (loop : Bool) : Cursor → Stmt → Cursor → Prop :=
  Stands Stmt.ids fun ts => Derives true loop (.declaration false) (keyword :: ts)

theorem SpansDeclaring.spansDeclaration {c₁ c₂ : Cursor} {s : Stmt}
    (h : SpansDeclaring keyword loop c₁ s c₂) (ha : c.Advance keyword c₁) :
    SpansDeclaration loop c s c₂ := by
  refine ⟨ha.nextId ▸ h.fresh, fun hclean => ?_⟩
  obtain ⟨ts, hts, hd⟩ := h.tokens hclean
  exact ⟨keyword :: ts, by rw [ha.rest, hts]; rfl, false, hd⟩

/-- Methods in braces. -/
def SpansMethods (loop : Bool) : Cursor → List Method → Cursor → Prop :=
  Stands (List.flatMap Method.ids) fun ts ms => ∃ ts' opening closing,
    ts = opening :: (ts' ++ [closing]) ∧ opening.kind = .leftBrace ∧ closing.kind = .rightBrace ∧
      Derives true loop .methods ts' ms

theorem reads_classBody (loop : Bool) (hi : inner.Sound n) (name : Token)
    (superclass : Option Expr) :
    Reads (n < c.rest.length) (do
      let _ ← expect .leftBrace "'\x7b' before class body"
      let methods ← many (fun _ => do
        let k ← kind
        if k = .rightBrace ∨ k = .eof then
          return none
        return some (← method inner .method)) 0
      let _ ← expect .rightBrace "'\x7d' after class body"
      return Stmt.class name superclass methods) c fun s c' =>
        ∃ ms, s = .class name superclass ms ∧ SpansMethods loop c ms c' := by
  refine (reads_expect (by simp)).bind fun opening c₁ hs₁ ⟨hopening, ha₁⟩ => ?_
  refine ((reads_methods loop hi).spend fun h =>
    Nat.lt_trans h ha₁.length_lt).bind fun ms c₂ hs₂ hms => ?_
  refine (reads_expect (by simp)).bind fun closing c₃ hs₃ ⟨hclosing, ha₃⟩ => ?_
  refine Reads.pure ⟨ms, rfl, hms.fresh.mono hs₁.nextId hs₃.nextId, fun hclean => ?_⟩
  obtain ⟨ts, hts, hd⟩ := hms.tokens (hs₃.clean hclean)
  refine ⟨opening :: (ts ++ [closing]), ?_, ts, opening, closing, rfl, hopening, hclosing, hd⟩
  rw [ha₁.rest, hts, ha₃.rest]
  simp

theorem reads_classDeclaration (hi : inner.Sound n) (hk : keyword.kind = .class) :
    Reads (n ≤ c.rest.length) (classDeclaration inner) c (SpansDeclaring keyword loop c) := by
  refine (reads_expect (by simp)).bind fun name c₁ hs₁ h₁ => ?_
  obtain ⟨hname, ha₁⟩ := h₁
  refine (reads_accept (by simp)).bind fun b c₂ hs₂ hb => ?_
  have hlen : c₂.rest.length < c.rest.length := ha₁.passed hs₂
  cases b with
  | false =>
    obtain ⟨-, rfl⟩ := hb
    refine (reads_classBody loop hi name none).imp
      (fun h => Nat.le_of_lt (Nat.lt_trans h hlen)) ?_
    rintro _ c₃ hs₃ ⟨ms, rfl, hms⟩
    refine ⟨?_, fun hclean => ?_⟩
    · simpa [Stmt.ids, idsOfMethods_eq_flatMap] using hms.fresh.mono hs₁.nextId (Nat.le_refl _)
    · obtain ⟨_, hts, ts, opening, closing, rfl, hopening, hclosing, hd⟩ := hms.tokens hclean
      exact ⟨_, by rw [ha₁.rest, hts]; rfl, .declareClass hk hname hopening hd hclosing⟩
  | true =>
    obtain ⟨less, hless, ha₂⟩ := hb
    refine (reads_expect (by simp)).bind fun superclass c₃ hs₃ h₃ => ?_
    obtain ⟨hsuperclass, ha₃⟩ := h₃
    refine reads_mint.bind fun id c₄ hs₄ h₄ => ?_
    obtain ⟨hid, hrest, _, hnext⟩ := h₄
    have hs₁₃ := hs₁.trans (hs₂.trans hs₃)
    have hlen : c₄.rest.length < c.rest.length :=
      Nat.lt_of_le_of_lt (hs₃.trans hs₄).length_le hlen
    refine (reads_classBody loop hi name (some (.variable id superclass))).imp
      (fun h => Nat.le_of_lt (Nat.lt_trans h hlen)) ?_
    rintro _ c₅ hs₅ ⟨ms, rfl, hms⟩
    refine ⟨?_, fun hclean => ?_⟩
    · have hone : Fresh c.nextId c₄.nextId [id] := by
        rw [hid, hnext]
        exact (Fresh.one _).mono hs₁₃.nextId (Nat.le_refl _)
      simpa [Stmt.ids, Expr.ids, idsOfMethods_eq_flatMap] using
        hone.append hms.fresh (hs₁₃.trans hs₄).nextId hs₅.nextId
    · obtain ⟨_, hts, ts, opening, closing, rfl, hopening, hclosing, hd⟩ := hms.tokens hclean
      refine ⟨name :: less :: superclass :: opening :: (ts ++ [closing]), ?_,
        .declareSubclass hk hname hless hsuperclass hopening hd hclosing⟩
      rw [ha₁.rest, ha₂.rest, ha₃.rest, ← hrest, hts]
      rfl

theorem declaresFunction_head (h : declaresFunction c.rest = true) : c.head.kind = .fun := by
  unfold declaresFunction at h
  unfold Cursor.head
  split at h <;> simp_all

/-- A declaration recovers from the faults of a production. -/
theorem declaration_recovers (hi : inner.Sound n) :
    ∃ p, declaration inner = recover p ∧ ∀ loop c, c.inLoop = loop →
      Reads (n < c.rest.length) p c fun s c' => SpansDeclaration loop c s c' ∧ c.Passed c' := by
  refine ⟨_, rfl, fun loop c hl => ?_⟩
  refine reads_get.bind ?_
  rintro _ _ _ ⟨rfl, rfl⟩
  split
  next hfun =>
    have hk := declaresFunction_head hfun
    refine (reads_advance (by simp [hk])).bind fun _ c₁ hs₁ ha₁ => ?_
    refine Reads.map (((reads_method loop hi .function).spend fun h =>
      Nat.lt_of_lt_of_le h hs₁.length_le).imp id fun m c₂ hs₂ hm => ⟨?_, ha₁.passed hs₂⟩)
    exact SpansDeclaring.spansDeclaration (hm.1.imp (by simp [Symbol.ids, Stmt.ids])
      fun _ hd => .declareFunction hk hd) ha₁
  next =>
    refine (reads_accept (by simp)).bind fun b c₁ hs₁ hb => ?_
    cases b with
    | true =>
      obtain ⟨keyword, hk, ha₁⟩ := hb
      exact (reads_classDeclaration hi hk).imp (fun h => Nat.lt_of_le_of_lt h ha₁.length_lt)
        fun s c₂ hs₂ hs => ⟨SpansDeclaring.spansDeclaration hs ha₁, ha₁.passed hs₂⟩
    | false =>
      obtain ⟨-, rfl⟩ := hb
      refine (reads_accept (by simp)).bind fun b c₁ hs₁ hb => ?_
      cases b with
      | true =>
        obtain ⟨keyword, hk, ha₁⟩ := hb
        refine (reads_varDeclaration hi (hs₁.inLoop.trans hl) hk).imp
          (fun h => Nat.lt_of_le_of_lt h ha₁.length_lt) fun s c₂ hs₂ hs => ⟨?_, ha₁.passed hs₂⟩
        exact SpansDeclaring.spansDeclaration (hs.imp rfl fun _ hd => .declareVariable hd) ha₁
      | false =>
        obtain ⟨-, rfl⟩ := hb
        refine (reads_statement hi hl).imp id fun s c₁ _ h => ⟨h.1.imp rfl ?_, h.2⟩
        rintro _ ⟨d, hd, _⟩
        exact ⟨d, .statement hd⟩

theorem reads_declaration (hi : inner.Sound n) (hl : c.inLoop = loop) (hc : c.head.kind ≠ .eof) :
    Reads (n < c.rest.length) (declaration inner) c fun o c' => c.Passed c' ∧ match o with
      | some s => SpansDeclaration loop c s c'
      | none => c'.faults ≠ [] := by
  obtain ⟨p, hrecover, hp⟩ := declaration_recovers hi
  rw [hrecover]
  refine (reads_recover hc (hp loop c hl)).imp id fun o c' _ ho => ?_
  cases o with
  | some s => exact ⟨ho.2, ho.1⟩
  | none => exact ⟨ho.2, ho.1⟩

theorem Inner.sound (n : Nat) : (Inner.ofDepth n).Sound n := by
  induction n with
  | zero =>
    constructor
    · exact fun _ _ _ => Nat.zero_le _
    · exact fun _ _ _ => Nat.zero_le _
    · exact fun _ _ _ _ => Nat.zero_le _
  | succ n ih =>
    constructor
    · exact fun _ _ hl => reads_expression ih hl
    · exact fun _ _ hl => reads_statement ih hl
    · exact fun _ _ hl hc => reads_declaration ih hl hc

end Lox.Grammar
