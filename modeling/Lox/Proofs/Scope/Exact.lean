import Lox.Proofs.Scope.Survey

namespace Lox

variable {w : Walk} {L : Lexical}

open Walk

/-- A scope with these names before expects the name behind them. -/
theorem Site.expects_next {site : Site} {before rest : List String} {t : Token}
    (hnames : site.names = before ++ t.lexeme :: rest) :
    ∀ p ∈ (site.enter before.length L).head?,
      p.pending = none ∧ p.site.names[p.count]? = some t.lexeme := by
  rintro _ ⟨⟩
  refine ⟨rfl, ?_⟩
  show site.names[before.length]? = some t.lexeme
  rw [hnames]
  simp

theorem surveys_introduceAll {site : Site} {rest : List String} (params : List Token)
    (before : List String) (w : Walk)
    (hnames : site.names = before ++ (params.map (·.lexeme) ++ rest))
    (h : Scope.FitAll w.scopes (site.enter before.length L))
    (hclean : (params.foldl Walk.introduce w).Clean) :
    Surveys w (params.foldl Walk.introduce w) (site.enter (before.length + params.length) L) params
      [] [] := by
  induction params generalizing before w with
  | nil => exact .nil h
  | cons t ts ih =>
    have hclean' := (keeps_introduceAll ts (w.introduce t)).clean hclean
    have hL := @Site.expects_next L site before _ t hnames
    have hfirst := surveys_introduce h hL hclean'
    have hlen : before.length + 1 = (before ++ [t.lexeme]).length := by simp
    have hrest := ih (before ++ [t.lexeme]) (w.introduce t) (by simp [hnames])
      (hlen ▸ hfirst.scopes) hclean
    have hsum : (before ++ [t.lexeme]).length + ts.length = before.length + (t :: ts).length := by
      simp only [List.length_append, List.length_cons, List.length_nil]
      omega
    exact hsum ▸ hfirst.trans hrest

theorem expectsAll_function (params : List Token) (body : List Stmt) :
    ((Site.function ⟨params, body⟩).enter params.length L).ExpectsAll body := by
  rintro _ ⟨⟩
  simp [Site.names]

theorem expectsAll_block (ss : List Stmt) : ((Site.block ss).enter 0 L).ExpectsAll ss := by
  rintro _ ⟨⟩
  simp [Site.names]

@[simp] theorem Lexical.tail_declare (L : Lexical) : L.declare.tail = L.tail := by
  cases L <;> rfl

theorem Lexical.tail_afterAll (ss : List Stmt) (L : Lexical) :
    (ss.foldl Lexical.after L).tail = L.tail := by
  induction ss generalizing L with
  | nil => rfl
  | cons s ss ih =>
    rw [List.foldl_cons, ih, after]
    split
    · exact tail_declare L
    · rfl

/-- A name more at the end of a scope does not hide other names. -/
theorem Lexical.lookup_declare {name other : String}
    (hL : ∀ p ∈ L.head?, p.pending = none ∧ p.site.names[p.count]? = some name)
    (hne : other ≠ name) : L.declare.lookup other = L.lookup other := by
  cases L with
  | nil => rfl
  | cons p L =>
    obtain ⟨hp, hname⟩ := hL p rfl
    have hnames : Place.names { p with count := p.count + 1 } = p.names ++ [name] := by
      simp only [Place.names, hp, Option.isSome_none, Bool.false_eq_true, if_false]
      rw [List.take_add_one, hname]
      rfl
    have hindex : (Place.names { p with count := p.count + 1 }).findIdx? (· = other) =
        p.names.findIdx? (· = other) := by
      rw [hnames, List.findIdx?_append]
      cases p.names.findIdx? (· = other) <;> simp [hne.symm]
    simp only [declare, lookup, hindex]

theorem surveys_superclass {id : Nat} {name t : Token} {c : Context}
    (h : Scope.FitAll w.scopes L.declare)
    (hL : ∀ p ∈ L.head?, p.pending = none ∧ p.site.names[p.count]? = some name.lexeme)
    (hclean : (Expr.walk c (w.checkSuperclass name (.variable id t)) (.variable id t)).Clean) :
    Surveys w (Expr.walk c (w.checkSuperclass name (.variable id t)) (.variable id t)) L.declare [] []
      [⟨.read, id, t, L⟩] := by
  by_cases hne : t.lexeme = name.lexeme
  · simp only [checkSuperclass, inheritsFrom, hne, if_true] at hclean
    exact absurd ((Expr.walk_keeps _ _ _).clean hclean) (not_clean_misuse _ _ _)
  · simp only [checkSuperclass, inheritsFrom, hne, if_false] at hclean ⊢
    have hread := surveys_readVariable h id hclean
    -- The node is taken to stand before the class, whose name it does not see in either place.
    have haddress : Node.address? ⟨.read, id, t, L.declare⟩ = Node.address? ⟨.read, id, t, L⟩ :=
      Lexical.lookup_declare hL hne
    refine ⟨⟨hread.scopes, ?_, ?_⟩, hread.labels, fun hw => ?_, fun level hlevel slot => ?_,
      hread.unread⟩
    · have he := hread.entries
      simp only [List.filterMap_cons, Node.entry?, haddress] at he ⊢
      exact he
    · simp only [List.mem_singleton, forall_eq]
      intro _ p hp t value hpending
      rw [(hL p hp).1] at hpending
      exact absurd hpending (by simp)
    · obtain ⟨hw', hns⟩ := hread.distinct hw
      refine ⟨hw', List.forall_mem_singleton.mpr ?_⟩
      exact (hns _ (List.mem_singleton_self _)).of_declare fun p hp => (hL p hp).1
    · have hmarks : Node.Marks ⟨.read, id, t, L.declare⟩ level slot ↔
          Node.Marks ⟨.read, id, t, L⟩ level slot := by
        simp only [Node.Marks, haddress, Lexical.length_declare]
      have hused := hread.used level hlevel slot
      simp only [List.mem_singleton, exists_eq_left, hmarks] at hused ⊢
      exact hused

theorem Lexical.after_of_declared?_eq_none {s : Stmt} (h : s.declared? = none) :
    L.after s = L := by
  simp [after, h]

theorem fitAll_this {scopes : List Scope} (h : Scope.FitAll scopes L) (f : Function)
    (name : Token) :
    Scope.FitAll (Scope.implicit "this" name.line :: scopes) ((Site.this f).enter 1 L) :=
  .cons ⟨rfl, by simp⟩ h

theorem fitAll_super {scopes : List Scope} (h : Scope.FitAll scopes L) (ms : List Method)
    (name : Token) :
    Scope.FitAll (Scope.implicit "super" name.line :: scopes) ((Site.super ms).enter 1 L) :=
  .cons ⟨rfl, by simp⟩ h

/-- One scope is around all methods of a class. -/
theorem fitAll_this_congr {scopes : List Scope} {f : Function}
    (h : Scope.FitAll scopes ((Site.this f).enter 1 L)) (g : Function) :
    Scope.FitAll scopes ((Site.this g).enter 1 L) := by
  cases h with
  | cons hs hscopes => exact .cons ⟨hs.1, by simp⟩ hscopes

/-- A branch or the body of a loop declares nothing. -/
theorem Walk.Surveys.of_branch {s : Stmt} {w w' : Walk} {ds : List Declaration} {ns : List Node}
    (h : Surveys w w' (L.after s) s.declared?.toList ds ns) (hs : s.declared? = none) :
    Surveys w w' L [] ds ns := by
  rwa [Lexical.after_of_declared?_eq_none hs, hs] at h

/-- Behind its last statement a scope of the text is left. -/
theorem Walk.Surveys.leave_site {w w' : Walk} {count : Nat} {ss : List Stmt} {ds : List Declaration}
    (site : Site) (hw : Scope.FitAll w.scopes L)
    (h : Surveys (w.enter []) w' (ss.foldl Lexical.after (site.enter count L)) site.tokens ds
      (site.nodes L)) : Surveys w w'.leave L [] (ds ++ site.declarations L) (site.nodes L) :=
  h.leave_text hw (Lexical.tail_afterAll ss _)

mutual

theorem Expr.walk_surveys (c : Context) (w : Walk) (L : Lexical) : (e : Expr) →
    Scope.FitAll w.scopes L → (e.walk c w).Clean → e.Formed →
    Surveys w (e.walk c w) L [] (e.declarations L) (e.nodes L)
  | .literal _, h, _, _ => .nil h
  | .grouping e, h, hc, hf => e.walk_surveys c w L h hc hf
  | .unary _ e, h, hc, hf => e.walk_surveys c w L h hc hf
  | .binary e₁ _ e₂, h, hc, hf => by
    have h₁ := e₁.walk_surveys c w L h ((e₂.walk_keeps c _).clean hc) hf.1
    exact h₁.trans (e₂.walk_surveys c _ L h₁.scopes hc hf.2)
  | .logical e₁ _ e₂, h, hc, hf => by
    have h₁ := e₁.walk_surveys c w L h ((e₂.walk_keeps c _).clean hc) hf.1
    exact h₁.trans (e₂.walk_surveys c _ L h₁.scopes hc hf.2)
  | .variable id _, h, hc, _ => surveys_readVariable h id hc
  | .assign id name e, h, hc, hf => by
    have h₁ := e.walk_surveys c w L h ((keeps_assignVariable _ id name).clean hc) hf.2
    have h₂ := h₁.trans (surveys_assignVariable h₁.scopes id hc)
    rw [List.append_nil (e.declarations L)] at h₂
    exact h₂
  | .call e _ es, h, hc, hf => by
    have h₁ := e.walk_surveys c w L h ((walkArguments_keeps c _ es).clean hc) hf.1
    exact h₁.trans (walkArguments_surveys c _ L es h₁.scopes hc hf.2)
  | .get e _, h, hc, hf => e.walk_surveys c w L h hc hf
  | .set e₁ _ e₂, h, hc, hf => by
    have h₂ := e₂.walk_surveys c w L h ((e₁.walk_keeps c _).clean hc) hf.2
    exact h₂.trans (e₁.walk_surveys c _ L h₂.scopes hc hf.1)
  | .this _ _, h, hc, _ => surveys_readThis h hc
  | .super _ _ _, h, hc, _ => surveys_readSuper h hc
  | .function f, h, hc, hf => f.walk_surveys _ w L h hc hf

theorem walkArguments_surveys (c : Context) (w : Walk) (L : Lexical) : (es : List Expr) →
    Scope.FitAll w.scopes L → (walkArguments c w es).Clean → FormedAll es →
    Surveys w (walkArguments c w es) L [] (declarationsOfAll L es) (nodesOfAll L es)
  | [], h, _, _ => .nil h
  | e :: es, h, hc, hf => by
    have h₁ := e.walk_surveys c w L h ((walkArguments_keeps c _ es).clean hc) hf.1
    exact h₁.trans (walkArguments_surveys c _ L es h₁.scopes hc hf.2)

theorem Function.walk_surveys (c : Context) (w : Walk) (L : Lexical) : (f : Function) →
    Scope.FitAll w.scopes L → (f.walk c w).Clean → f.Formed →
    Surveys w (f.walk c w) L [] (f.declarations L) (f.nodes L)
  | ⟨params, body⟩, h, hc, hf => by
    have hbody := (keeps_leave _).clean hc
    have henter : Scope.FitAll (w.enter []).scopes ((Site.function ⟨params, body⟩).enter 0 L) :=
      .cons ⟨by simp [Place.names], by simp⟩ h
    have hnames : (Site.function ⟨params, body⟩).names =
        [] ++ (params.map (·.lexeme) ++ declaredNames body) := by
      simp [Site.names]
    have hparams := surveys_introduceAll params [] (w.enter []) hnames henter
      ((walkStatements_keeps c _ body).clean hbody)
    rw [List.length_nil, Nat.zero_add] at hparams
    have hstatements := walkStatements_surveys c _ _ false body hparams.scopes hbody hf.2
      (expectsAll_function params body)
    exact Surveys.leave_site (.function ⟨params, body⟩) h (hparams.trans hstatements)

theorem Stmt.walk_surveys (c : Context) (w : Walk) (L : Lexical) (loop : Bool) : (s : Stmt) →
    Scope.FitAll w.scopes L → (s.walk c w).Clean → s.Formed loop → L.Expects s →
    Surveys w (s.walk c w) (L.after s) s.declared?.toList (s.declarations L) (s.nodes L)
  | .expression e, h, hc, hf, _ => e.walk_surveys c w L h hc hf
  | .print e, h, hc, hf, _ => e.walk_surveys c w L h hc hf
  | .var name none, h, hc, _, hL => surveys_introduce h (hL name rfl) hc
  | .var name (some e), h, hc, hf, hL => by
    have hvalue := (keeps_define _ name).clean hc
    have hdeclare := surveys_declare h (hL name rfl) ((e.walk_keeps c _).clean hvalue) e
    have hfound := hdeclare.trans (e.walk_surveys c _ _ hdeclare.scopes hvalue hf.2)
    exact hfound.then (surveys_define hfound.scopes fun p hp => (hL name rfl p hp).1)
  | .block ss, h, hc, hf, _ => by
    have henter : Scope.FitAll (w.enter []).scopes ((Site.block ss).enter 0 L) :=
      .cons ⟨by simp [Place.names], by simp⟩ h
    have hstatements := walkStatements_surveys c _ _ loop ss henter ((keeps_leave _).clean hc) hf
      (expectsAll_block ss)
    exact Surveys.leave_site (.block ss) h hstatements
  | .ifElse e s none, h, hc, hf, _ => by
    have h₁ := e.walk_surveys c w L h ((s.walk_keeps c _).clean hc) hf.1
    have h₂ := s.walk_surveys c _ L loop h₁.scopes hc hf.2.1
      (Lexical.expects_of_declared?_eq_none hf.2.2)
    exact h₁.trans (h₂.of_branch hf.2.2)
  | .ifElse e s (some s'), h, hc, hf, _ => by
    have hthen := (s'.walk_keeps c _).clean hc
    have h₁ := e.walk_surveys c w L h ((s.walk_keeps c _).clean hthen) hf.1
    have h₂ := (s.walk_surveys c _ L loop h₁.scopes hthen hf.2.1.1
      (Lexical.expects_of_declared?_eq_none hf.2.1.2)).of_branch hf.2.1.2
    have h₃ := (s'.walk_surveys c _ L loop h₂.scopes hc hf.2.2.1
      (Lexical.expects_of_declared?_eq_none hf.2.2.2)).of_branch hf.2.2.2
    exact h₁.trans (h₂.trans h₃)
  | .while e s, h, hc, hf, _ => by
    have h₁ := e.walk_surveys c w L h ((s.walk_keeps c _).clean hc) hf.1
    have h₂ := s.walk_surveys c _ L true h₁.scopes hc hf.2.1
      (Lexical.expects_of_declared?_eq_none hf.2.2)
    exact h₁.trans (h₂.of_branch hf.2.2)
  | .break _, h, _, _, _ => .nil h
  | .return keyword none, h, hc, _, _ => by
    rw [Stmt.walk, leaveFunction, if_neg (Stmt.inFunction_of_clean hc)]
    exact .nil h
  | .return keyword (some e), h, hc, hf, _ => by
    have hin := Stmt.inFunction_of_clean hc
    have hinit := Stmt.not_inInitializer_of_clean hc
    simp only [Stmt.walk, leaveFunction, hin, returnValue, hinit, if_false] at hc ⊢
    exact e.walk_surveys c w L h hc hf
  | .function ⟨name, f⟩, h, hc, hf, hL => by
    have hname := surveys_introduce h (hL name rfl) ((f.walk_keeps _ _).clean hc)
    exact hname.trans (f.walk_surveys _ _ _ hname.scopes hc hf.2)
  | .class name none ms, h, hc, hf, hL => by
    have hmethods := (keeps_leave _).clean hc
    have hintroduce := (walkMethods_keeps _ _ ms).clean hmethods
    have hname := surveys_introduce h (hL name rfl) hintroduce
    have hfound := walkMethods_surveys _ _ L.declare ⟨[], []⟩ ms
      (fitAll_this hname.scopes _ name) hmethods hf.2
    exact hname.trans (hfound.leave_implicit hname.scopes rfl)
  | .class name (some e) ms, h, hc, hf, hL => by
    obtain ⟨id, t, rfl, -⟩ := hf.2.1
    have houter := (keeps_leave _).clean hc
    have hmethods := (keeps_leave _).clean houter
    have hsuperclass := (walkMethods_keeps _ _ ms).clean hmethods
    have hcheck := (Expr.walk_keeps _ _ (.variable id t)).clean hsuperclass
    have hname := surveys_introduce h (hL name rfl) ((keeps_checkSuperclass _ name _).clean hcheck)
    have hread := surveys_superclass hname.scopes (hL name rfl) hsuperclass
    have hsuper := fitAll_super hread.scopes ms name
    have hfound := walkMethods_surveys _ _ _ ⟨[], []⟩ ms (fitAll_this hsuper ⟨[], []⟩ name) hmethods
      hf.2.2
    have hclass := (hfound.leave_implicit hsuper rfl).leave_implicit hread.scopes rfl
    exact hname.trans (hread.trans hclass)

theorem walkStatements_surveys (c : Context) (w : Walk) (L : Lexical) (loop : Bool) :
    (ss : List Stmt) → Scope.FitAll w.scopes L → (walkStatements c w ss).Clean →
    FormedStatements loop ss → L.ExpectsAll ss →
    Surveys w (walkStatements c w ss) (ss.foldl Lexical.after L) (ss.filterMap Stmt.declared?)
      (declarationsOfStatements L ss) (nodesOfStatements L ss)
  | [], h, _, _, _ => .nil h
  | s :: ss, h, hc, hf, hL => by
    have h₁ := s.walk_surveys c w L loop h ((walkStatements_keeps c _ ss).clean hc) hf.1 hL.head
    have h₂ := walkStatements_surveys c _ _ loop ss h₁.scopes hc hf.2 hL.tail
    have hdeclared : (s :: ss).filterMap Stmt.declared? =
        s.declared?.toList ++ ss.filterMap Stmt.declared? := by
      rw [List.filterMap_cons]
      cases s.declared? <;> rfl
    exact hdeclared ▸ h₁.trans h₂

theorem walkMethods_surveys (c : Context) (w : Walk) (L : Lexical) (g : Function) :
    (ms : List Method) → Scope.FitAll w.scopes ((Site.this g).enter 1 L) →
    (walkMethods c w ms).Clean → FormedMethods ms →
    Surveys w (walkMethods c w ms) ((Site.this g).enter 1 L) [] (declarationsOfMethods L ms)
      (nodesOfMethods L ms)
  | [], h, _, _ => .nil h
  | ⟨_, f⟩ :: ms, h, hc, hf => by
    have h₁ := f.walk_surveys _ w _ (fitAll_this_congr h f) ((walkMethods_keeps c _ ms).clean hc) hf.1
    exact h₁.trans (walkMethods_surveys c _ L g ms (fitAll_this_congr h₁.scopes g) hc hf.2)

end

end Lox
