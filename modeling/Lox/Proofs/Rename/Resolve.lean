import Lox.Proofs.Rename.Steps
import Lox.Proofs.Scope.Succession
import Lox.Proofs.Scope.Table
import Lox.Proofs.Tree.Tokens

namespace Lox

open Walk

/-- The notes say of nodes what their places say. -/
def Renaming.Knows (R : Renaming) (ns : List Node) : Prop :=
  ∀ node ∈ ns, ∀ a, (node.id, a) ∈ R.notes ↔ node.address? = some a

def Token.Avoids (R : Renaming) (t : Token) : Prop := t.lexeme ≠ R.new

variable {R : Renaming}

theorem Renaming.knows_append {ns ns' : List Node} :
    R.Knows (ns ++ ns') ↔ R.Knows ns ∧ R.Knows ns' := List.forall_mem_append

namespace Aim

variable {aim : Aim}

theorem address?_enter_ne (slot : Nat) : aim.enter.address? ≠ some ⟨0, slot⟩ := by
  cases aim with
  | ahead path slot => cases path <;> simp [enter, pass, address?]
  | _ => simp [enter, pass, address?, Address.outward]

theorem address?_pass_ne (slot : Nat) : aim.pass.address? ≠ some ⟨0, slot⟩ := by
  cases aim <;> simp [pass, address?, Address.outward]

theorem inward_pastAll (ts : List Token) (aim : Aim) :
    (R.pastAll ts aim).address?.bind Address.inward? = aim.address?.bind Address.inward? := by
  induction ts generalizing aim with
  | nil => rfl
  | cons t ts ih => exact (ih _).trans (inward_past t aim)

theorem inward_after (s : Stmt) (aim : Aim) :
    (R.after s aim).address?.bind Address.inward? = aim.address?.bind Address.inward? := by
  cases s with
  | var t value => exact inward_past t aim
  | function d | «class» t superclass ms =>
    show aim.skip.address?.bind _ = _
    rw [address?_skip]
  | _ => rfl

/-- A path does not matter to what is behind a statement of the scope at hand. -/
theorem address?_after_child (s : Stmt) (i : Nat) (aim : Aim) :
    (R.after s (aim.child i)).address? = (R.after s aim).address? := by
  have hahead : ∀ {aim' : Aim}, (∃ path slot, aim' = .ahead path slot) ∨ aim' = .gone →
      (R.after s aim').address? = none := by
    rintro aim' (⟨path, slot, rfl⟩ | rfl) <;> cases s <;> rfl
  cases aim with
  | ahead path slot =>
    rw [hahead (.inl ⟨path, slot, rfl⟩)]
    cases path with
    | nil => exact hahead (.inr rfl)
    | cons j path =>
      rw [child_ahead]
      split
      · exact hahead (.inl ⟨path, slot, rfl⟩)
      · exact hahead (.inr rfl)
  | _ => rfl

theorem after_of_declared?_eq_none {s : Stmt} (h : s.declared? = none) (aim : Aim) :
    R.after s aim = aim := by
  cases s with
  | function d => exact absurd h (by obtain ⟨name, f⟩ := d; simp [Stmt.declared?])
  | var | «class» => simp [Stmt.declared?] at h
  | _ => rfl

theorem Fits.after {L : Lexical} {s : Stmt} {loop : Bool} (h : aim.Fits R L) (hL : L.Expects s)
    (hf : s.Formed loop) : (R.after s aim).Fits R (L.after s) := by
  cases hs : s.declared? with
  | none =>
    rw [Lexical.after_of_declared?_eq_none hs, after_of_declared?_eq_none hs]
    exact h
  | some t =>
    have hordinary := hf.ordinary hs
    have hexpects := hL t hs
    rw [Lexical.after, hs]
    cases s with
    | var name value =>
      obtain rfl := Option.some.inj hs
      exact (h.past hexpects (.literal .nil) hordinary).2
    | function d =>
      obtain ⟨name, f⟩ := d
      obtain rfl := Option.some.inj hs
      exact (h.skip hexpects (.literal .nil)).2
    | «class» name superclass ms =>
      obtain rfl := Option.some.inj hs
      exact (h.skip hexpects (.literal .nil)).2
    | _ => simp [Stmt.declared?] at hs

end Aim

theorem Scope.plain_nil : Scope.Plain R [] := ⟨List.nodup_nil, by simp⟩

theorem Scope.plain_implicit {name : String} (h : R.new ≠ name) (line : Nat) :
    (Scope.implicit name line).Plain R := by
  simp [Scope.implicit, Scope.Plain, h]

namespace Walk.Renamed

variable {w w' : Walk} {aim : Aim}

theorem child (h : w.Renamed R aim.address? w') (i : Nat) :
    w.Renamed R (aim.child i).address? w' := by
  rw [aim.address?_child]
  exact h

theorem skip (h : w.Renamed R aim.address? w') : w.Renamed R aim.skip.address? w' := by
  rw [aim.address?_skip]
  exact h

/-- A statement that declares nothing leaves the aim where it is. -/
theorem inner {s : Stmt} {i : Nat} (h : w.Renamed R (R.after s (aim.child i)).address? w')
    (hs : s.declared? = none) : w.Renamed R aim.address? w' := by
  rw [Aim.after_of_declared?_eq_none hs, aim.address?_child] at h
  exact h

theorem enterBody (h : w.Renamed R aim.address? w') :
    (w.enter []).Renamed R aim.enter.address? (w'.enter []) := by
  rw [← aim.inward_enter] at h
  exact h.enter Scope.plain_nil Aim.address?_enter_ne

theorem leaveBody {b? : Option Address} (h : w.Renamed R b? w')
    (hb? : b?.bind Address.inward? = aim.enter.address?.bind Address.inward?) :
    w.leave.Renamed R aim.address? w'.leave := by
  have hleave := h.leave
  rw [hb?, aim.inward_enter] at hleave
  exact hleave

theorem enterImplicit (h : w.Renamed R aim.address? w') {name : String} (hname : R.new ≠ name)
    (line : Nat) : (w.enter (Scope.implicit name line)).Renamed R aim.pass.address?
      (w'.enter (Scope.implicit name line)) := by
  rw [← aim.inward_pass] at h
  exact h.enter (Scope.plain_implicit hname line) Aim.address?_pass_ne

theorem leaveImplicit (h : w.Renamed R aim.pass.address? w') :
    w.leave.Renamed R aim.address? w'.leave := by
  have hleave := h.leave
  rw [aim.inward_pass] at hleave
  exact hleave

theorem checkSuperclass {a? : Option Address} {id : Nat} {name t t' : Token}
    (h : w.Renamed R a? w') (ht : t.Renamed R t') (hname : name.Avoids R)
    (hclean : (w.checkSuperclass name (.variable id t)).Clean) :
    (w.checkSuperclass name (.variable id t)).Renamed R a?
      (w'.checkSuperclass name (.variable id t')) := by
  unfold Walk.checkSuperclass inheritsFrom at *
  dsimp only at *
  by_cases heq : t.lexeme = name.lexeme
  · rw [if_pos heq] at hclean
    exact absurd hclean (not_clean_misuse _ _ _)
  · have hne : t'.lexeme ≠ name.lexeme := by
      rcases ht with rfl | ⟨-, rfl⟩
      · exact heq
      · exact hname.symm
    rw [if_neg heq, if_neg hne]
    exact h

end Walk.Renamed

theorem scopes_checkSuperclass (w : Walk) (name : Token) (superclass : Expr) :
    (w.checkSuperclass name superclass).scopes = w.scopes := by
  unfold Walk.checkSuperclass
  split <;> rfl

/-- The name of a class does not hide that of its superclass. -/
theorem lookup_superclass {w : Walk} {L : Lexical} {id : Nat} {name t : Token}
    (hclean : (w.checkSuperclass name (.variable id t)).Clean)
    (hL : ∀ p ∈ L.head?, p.pending = none ∧ p.site.names[p.count]? = some name.lexeme) :
    L.declare.lookup t.lexeme = L.lookup t.lexeme := by
  refine Lexical.lookup_declare hL fun heq => ?_
  simp only [Walk.checkSuperclass, inheritsFrom, heq, if_true] at hclean
  exact not_clean_misuse _ _ _ hclean

mutual

theorem Expr.walk_rename (hnew : R.new ≠ "this" ∧ R.new ≠ "super") (c : Context) {w w' : Walk}
    {L : Lexical} {aim : Aim} {a? : Option Address} (ha : aim.address? = a?) : (e : Expr) →
    Scope.FitAll w.scopes L → (e.walk c w).Clean → e.Formed → e.Bears (Token.Avoids R) →
    R.Knows (e.nodes L) → aim.Fits R L → w.Renamed R a? w' →
    (e.walk c w).Renamed R a? ((e.rename R aim).walk c w')
  | .literal _, _, _, _, _, _, _, hw => hw
  | .grouping e, h, hc, hf, hb, hk, haim, hw =>
    e.walk_rename hnew c ((aim.address?_child 0).trans ha) h hc hf hb hk (haim.child 0) hw
  | .unary _ e, h, hc, hf, hb, hk, haim, hw =>
    e.walk_rename hnew c ((aim.address?_child 0).trans ha) h hc hf hb.2 hk (haim.child 0) hw
  | .binary e₁ _ e₂, h, hc, hf, hb, hk, haim, hw | .logical e₁ _ e₂, h, hc, hf, hb, hk, haim, hw => by
    obtain ⟨hk₁, hk₂⟩ := Renaming.knows_append.mp hk
    have hc₁ := (e₂.walk_keeps c _).clean hc
    have hfit := (e₁.walk_surveys c w L h hc₁ hf.1).scopes
    have hw₁ := e₁.walk_rename hnew c ((aim.address?_child 0).trans ha) h hc₁ hf.1 hb.1 hk₁
      (haim.child 0) hw
    exact e₂.walk_rename hnew c ((aim.address?_child 1).trans ha) hfit hc hf.2 hb.2.2 hk₂
      (haim.child 1) hw₁
  | .variable id t, h, hc, _, hb, hk, _, hw => by
    subst ha
    exact hw.readVariable h (fun a => hk _ (List.mem_singleton_self _) a) hb hc
  | .assign id t e, h, hc, hf, hb, hk, haim, hw => by
    obtain ⟨hk₁, hk₂⟩ := Renaming.knows_append.mp hk
    have hc₁ := (keeps_assignVariable _ id t).clean hc
    have hfit := (e.walk_surveys c w L h hc₁ hf.2).scopes
    have hw₁ := e.walk_rename hnew c ((aim.address?_child 0).trans ha) h hc₁ hf.2 hb.2 hk₁
      (haim.child 0) hw
    subst ha
    exact hw₁.assignVariable hfit (fun a => hk₂ _ (List.mem_singleton_self _) a) hb.1 hc
  | .call e _ es, h, hc, hf, hb, hk, haim, hw => by
    obtain ⟨hk₁, hk₂⟩ := Renaming.knows_append.mp hk
    have hc₁ := (walkArguments_keeps c _ es).clean hc
    have hfit := (e.walk_surveys c w L h hc₁ hf.1).scopes
    have hw₁ := e.walk_rename hnew c ((aim.address?_child 0).trans ha) h hc₁ hf.1 hb.1 hk₁
      (haim.child 0) hw
    exact walkArguments_rename hnew c ((aim.address?_child 1).trans ha) es hfit hc hf.2 hb.2.1 hk₂
      (haim.child 1) hw₁
  | .get e _, h, hc, hf, hb, hk, haim, hw =>
    e.walk_rename hnew c ((aim.address?_child 0).trans ha) h hc hf hb.1 hk (haim.child 0) hw
  | .set e₁ _ e₂, h, hc, hf, hb, hk, haim, hw => by
    obtain ⟨hk₂, hk₁⟩ := Renaming.knows_append.mp hk
    have hc₂ := (e₁.walk_keeps c _).clean hc
    have hfit := (e₂.walk_surveys c w L h hc₂ hf.2).scopes
    have hw₂ := e₂.walk_rename hnew c ((aim.address?_child 1).trans ha) h hc₂ hf.2 hb.2.2 hk₂
      (haim.child 1) hw
    exact e₁.walk_rename hnew c ((aim.address?_child 0).trans ha) hfit hc hf.1 hb.1 hk₁
      (haim.child 0) hw₂
  | .this _ _, _, hc, hf, hb, _, haim, hw => by
    subst ha
    exact hw.readThis haim c.inClass hf hb hc
  | .super _ _ _, _, hc, hf, hb, _, haim, hw => by
    subst ha
    exact hw.readSuper haim c.inClass hf hb.1 hc
  | .function f, h, hc, hf, hb, hk, haim, hw =>
    f.walk_rename hnew _ ((aim.address?_child 0).trans ha) h hc hf hb hk (haim.child 0) hw

theorem walkArguments_rename (hnew : R.new ≠ "this" ∧ R.new ≠ "super") (c : Context)
    {w w' : Walk} {L : Lexical} {aim : Aim} {a? : Option Address} (ha : aim.address? = a?) :
    (es : List Expr) → Scope.FitAll w.scopes L → (walkArguments c w es).Clean → FormedAll es →
    BearsAll (Token.Avoids R) es → R.Knows (nodesOfAll L es) → aim.Fits R L → w.Renamed R a? w' →
    (walkArguments c w es).Renamed R a? (walkArguments c w' (renameAll R aim es))
  | [], _, _, _, _, _, _, hw => hw
  | e :: es, h, hc, hf, hb, hk, haim, hw => by
    obtain ⟨hk₁, hk₂⟩ := Renaming.knows_append.mp hk
    have hc₁ := (walkArguments_keeps c _ es).clean hc
    have hfit := (e.walk_surveys c w L h hc₁ hf.1).scopes
    have hw₁ := e.walk_rename hnew c ((aim.address?_child 0).trans ha) h hc₁ hf.1 hb.1 hk₁
      (haim.child 0) hw
    exact walkArguments_rename hnew c ((aim.address?_child 1).trans ha) es hfit hc hf.2 hb.2 hk₂
      (haim.child 1) hw₁

theorem Function.walk_rename (hnew : R.new ≠ "this" ∧ R.new ≠ "super") (c : Context)
    {w w' : Walk} {L : Lexical} {aim : Aim} {a? : Option Address} (ha : aim.address? = a?) :
    (f : Function) → Scope.FitAll w.scopes L → (f.walk c w).Clean → f.Formed →
    f.Bears (Token.Avoids R) → R.Knows (f.nodes L) → aim.Fits R L → w.Renamed R a? w' →
    (f.walk c w).Renamed R a? ((f.rename R aim).walk c w')
  | ⟨params, body⟩, h, hc, hf, hb, hk, haim, hw => by
    have hbody := (keeps_leave _).clean hc
    have hparams := (walkStatements_keeps c _ body).clean hbody
    have henter : Scope.FitAll (w.enter []).scopes ((Site.function ⟨params, body⟩).enter 0 L) :=
      .cons ⟨by simp [Place.names], by simp⟩ h
    have hnames : Site.names (.function ⟨params, body⟩) =
        [] ++ (params.map (·.lexeme) ++ declaredNames body) := by simp [Site.names]
    have hfit := (surveys_introduceAll params [] (w.enter []) hnames henter hparams).scopes
    subst ha
    obtain ⟨hwparams, haim'⟩ := hw.enterBody.introduceAll params [] hnames henter (haim.enter _)
      hb.1 hf.1 hparams
    rw [List.length_nil, Nat.zero_add] at hfit haim'
    obtain ⟨b?, hwbody, hb?⟩ := walkStatements_rename hnew c false body hfit hbody hf.2 hb.2 hk
      (expectsAll_function params body) haim' hwparams
    exact hwbody.leaveBody (hb?.trans (Aim.inward_pastAll params aim.enter))

theorem Stmt.walk_rename (hnew : R.new ≠ "this" ∧ R.new ≠ "super") (c : Context) (loop : Bool)
    {w w' : Walk} {L : Lexical} {aim : Aim} : (s : Stmt) →
    Scope.FitAll w.scopes L → (s.walk c w).Clean → s.Formed loop → s.Bears (Token.Avoids R) →
    R.Knows (s.nodes L) → L.Expects s → aim.Fits R L → w.Renamed R aim.address? w' →
    (s.walk c w).Renamed R (R.after s aim).address? ((s.rename R aim).walk c w')
  | .expression e, h, hc, hf, hb, hk, _, haim, hw =>
    e.walk_rename hnew c (aim.address?_child 0) h hc hf hb hk (haim.child 0) hw
  | .print e, h, hc, hf, hb, hk, _, haim, hw =>
    e.walk_rename hnew c (aim.address?_child 0) h hc hf hb hk (haim.child 0) hw
  | .var t none, h, hc, _, hb, _, _, haim, hw => hw.introduceVariable h haim hb hc
  | .var t (some e), h, hc, hf, hb, hk, hL, haim, hw => by
    have hvalue := (keeps_define _ t).clean hc
    have hdeclare := (e.walk_keeps c _).clean hvalue
    obtain ⟨hfit, -⟩ := fitAll_declare h (hL t rfl) hdeclare e
    have haim' := (haim.past (hL t rfl) e hf.1).1
    have hwdeclare := hw.declareVariable h haim hb.1 hdeclare
    have hwvalue := e.walk_rename hnew c ((R.past t aim).address?_child 0) hfit hvalue hf.2 hb.2 hk
      (haim'.child 0) hwdeclare
    exact hwvalue.defineVariable hb.1 (hw.ne_old_of_declare hdeclare)
  | .block ss, h, hc, hf, hb, hk, _, haim, hw => by
    have hbody := (keeps_leave _).clean hc
    have henter : Scope.FitAll (w.enter []).scopes ((Site.block ss).enter 0 L) :=
      .cons ⟨by simp [Place.names], by simp⟩ h
    obtain ⟨b?, hwbody, hb?⟩ := walkStatements_rename hnew c loop ss henter hbody hf hb hk
      (expectsAll_block ss) (haim.enter _) hw.enterBody
    exact hwbody.leaveBody hb?
  | .ifElse e s none, h, hc, hf, hb, hk, _, haim, hw => by
    obtain ⟨hk₁, hk₂⟩ := Renaming.knows_append.mp hk
    have hc₁ := (s.walk_keeps c _).clean hc
    have hfit := (e.walk_surveys c w L h hc₁ hf.1).scopes
    have hw₁ := e.walk_rename hnew c (aim.address?_child 0) h hc₁ hf.1 hb.1 hk₁ (haim.child 0) hw
    have hw₂ := s.walk_rename hnew c loop hfit hc hf.2.1 hb.2 hk₂
      (Lexical.expects_of_declared?_eq_none hf.2.2) (haim.child 1) (hw₁.child 1)
    exact hw₂.inner hf.2.2
  | .ifElse e s (some s'), h, hc, hf, hb, hk, _, haim, hw => by
    obtain ⟨hk₁, hk⟩ := Renaming.knows_append.mp hk
    obtain ⟨hk₂, hk₃⟩ := Renaming.knows_append.mp hk
    have hc₂ := (s'.walk_keeps c _).clean hc
    have hc₁ := (s.walk_keeps c _).clean hc₂
    have hfit := (e.walk_surveys c w L h hc₁ hf.1).scopes
    have hnone := Lexical.expects_of_declared?_eq_none (L := L) hf.2.1.2
    have hfit' := (s.walk_surveys c _ L loop hfit hc₂ hf.2.1.1 hnone).scopes
    rw [Lexical.after_of_declared?_eq_none hf.2.1.2] at hfit'
    have hw₁ := e.walk_rename hnew c (aim.address?_child 0) h hc₁ hf.1 hb.1 hk₁ (haim.child 0) hw
    have hw₂ := s.walk_rename hnew c loop hfit hc₂ hf.2.1.1 hb.2.1 hk₂ hnone (haim.child 1)
      (hw₁.child 1)
    have hw₃ := s'.walk_rename hnew c loop hfit' hc hf.2.2.1 hb.2.2 hk₃
      (Lexical.expects_of_declared?_eq_none hf.2.2.2) (haim.child 2) ((hw₂.inner hf.2.1.2).child 2)
    exact hw₃.inner hf.2.2.2
  | .while e s, h, hc, hf, hb, hk, _, haim, hw => by
    obtain ⟨hk₁, hk₂⟩ := Renaming.knows_append.mp hk
    have hc₁ := (s.walk_keeps c _).clean hc
    have hfit := (e.walk_surveys c w L h hc₁ hf.1).scopes
    have hw₁ := e.walk_rename hnew c (aim.address?_child 0) h hc₁ hf.1 hb.1 hk₁ (haim.child 0) hw
    have hw₂ := s.walk_rename hnew c true hfit hc hf.2.1 hb.2 hk₂
      (Lexical.expects_of_declared?_eq_none hf.2.2) (haim.child 1) (hw₁.child 1)
    exact hw₂.inner hf.2.2
  | .break _, _, _, _, _, _, _, _, hw => hw
  | .return keyword none, _, hc, _, _, _, _, _, hw => by
    have hin := Stmt.inFunction_of_clean hc
    rw [Stmt.walk, Stmt.rename, Stmt.walk, leaveFunction, leaveFunction, if_neg hin, if_neg hin]
    exact hw
  | .return keyword (some e), h, hc, hf, hb, hk, _, haim, hw => by
    have hin := Stmt.inFunction_of_clean hc
    have hinit := Stmt.not_inInitializer_of_clean hc
    simp only [Stmt.walk, Stmt.rename, leaveFunction, hin, returnValue, hinit, if_false] at hc ⊢
    exact e.walk_rename hnew c (aim.address?_child 0) h hc hf hb.2 hk (haim.child 0) hw
  | .function ⟨t, f⟩, h, hc, hf, hb, hk, hL, haim, hw => by
    have hintroduce := (f.walk_keeps _ _).clean hc
    obtain ⟨hfit, -⟩ := fitAll_introduce h (hL t rfl) hintroduce
    have haim' := (haim.skip (hL t rfl) (.literal .nil)).2
    have hw₁ := hw.introduceOther hb.1 hintroduce
    exact f.walk_rename hnew _ (aim.skip.address?_child 0) hfit hc hf.2 hb.2 hk (haim'.child 0)
      hw₁.skip
  | .class t none ms, h, hc, hf, hb, hk, hL, haim, hw => by
    have hmethods := (keeps_leave _).clean hc
    have hintroduce := (walkMethods_keeps _ _ ms).clean hmethods
    obtain ⟨hfit, -⟩ := fitAll_introduce h (hL t rfl) hintroduce
    have haim' : ∀ L', aim.skip.pass.Fits R L' := fun L' =>
      (haim.skip (hL t rfl) (.literal .nil)).2.pass
    have hw₁ := hw.introduceOther hb.1 hintroduce
    have hw₂ := hw₁.skip.enterImplicit hnew.1 t.line
    have hw₃ := walkMethods_rename hnew { c with inClass := .base } ⟨[], []⟩
      (aim.skip.pass.address?_child 0) ms (fitAll_this hfit _ t) hmethods hf.2 hb.2 hk
      (fun L' => (haim' L').child 0) hw₂
    exact hw₃.leaveImplicit
  | .class t (some e) ms, h, hc, hf, hb, hk, hL, haim, hw => by
    obtain ⟨id, u, rfl, -⟩ := hf.2.1
    obtain ⟨id', u', heq, hu⟩ := hb.2.1
    obtain ⟨rfl, rfl⟩ := Expr.variable.inj heq
    obtain ⟨hk₁, hk₂⟩ := Renaming.knows_append.mp hk
    have houter := (keeps_leave _).clean hc
    have hmethods := (keeps_leave _).clean houter
    have hsuperclass := (walkMethods_keeps _ _ ms).clean hmethods
    have hcheck := (Expr.walk_keeps _ _ (.variable id u)).clean hsuperclass
    have hintroduce := (keeps_checkSuperclass _ t _).clean hcheck
    obtain ⟨hfit, -⟩ := fitAll_introduce h (hL t rfl) hintroduce
    have hread := surveys_superclass hfit (hL t rfl) hsuperclass
    have haim' : aim.skip.pass.Fits R L := (haim.skip (hL t rfl) (.literal .nil)).2.pass
    have hmethodsAim : ∀ L', aim.skip.pass.pass.Fits R L' := fun _ => haim'.pass
    have hw₁ := hw.introduceOther hb.1 hintroduce
    have hw₂ := (hw₁.skip.child 0).checkSuperclass (R.renamed_used id u (aim.skip.child 0)) hb.1
      hcheck
    have hw₃ := hw₂.readVariable (scopes_checkSuperclass _ t _ ▸ hfit)
      (fun a => lookup_superclass hcheck (hL t rfl) ▸ hk₁ _ (List.mem_singleton_self _) a) hu
      hsuperclass
    rw [aim.skip.address?_child] at hw₃
    have hw₄ := hw₃.enterImplicit hnew.2 t.line
    have hw₅ := hw₄.enterImplicit hnew.1 t.line
    have hw₆ := walkMethods_rename hnew { c with inClass := .subclass } ⟨[], []⟩
      (aim.skip.pass.pass.address?_child 1) ms (fitAll_this (fitAll_super hread.scopes ms t) _ t)
      hmethods hf.2.2 hb.2.2 hk₂ (fun L' => (hmethodsAim L').child 1) hw₅
    exact hw₆.leaveImplicit.leaveImplicit

theorem walkStatements_rename (hnew : R.new ≠ "this" ∧ R.new ≠ "super") (c : Context)
    (loop : Bool) {w w' : Walk} {L : Lexical} {aim : Aim} : (ss : List Stmt) →
    Scope.FitAll w.scopes L → (walkStatements c w ss).Clean → FormedStatements loop ss →
    BearsStatements (Token.Avoids R) ss → R.Knows (nodesOfStatements L ss) → L.ExpectsAll ss →
    aim.Fits R L → w.Renamed R aim.address? w' →
    ∃ b?, (walkStatements c w ss).Renamed R b? (walkStatements c w' (renameStatements R aim ss)) ∧
      b?.bind Address.inward? = aim.address?.bind Address.inward?
  | [], _, _, _, _, _, _, _, hw => ⟨aim.address?, hw, rfl⟩
  | s :: ss, h, hc, hf, hb, hk, hL, haim, hw => by
    obtain ⟨hk₁, hk₂⟩ := Renaming.knows_append.mp hk
    have hc₁ := (walkStatements_keeps c _ ss).clean hc
    have hfit := (s.walk_surveys c w L loop h hc₁ hf.1 hL.head).scopes
    have hw₁ := s.walk_rename hnew c loop h hc₁ hf.1 hb.1 hk₁ hL.head (haim.child 0) (hw.child 0)
    rw [Aim.address?_after_child, ← Aim.address?_after_child s 1] at hw₁
    obtain ⟨b?, hw₂, hb?⟩ := walkStatements_rename hnew c loop ss hfit hc hf.2 hb.2 hk₂ hL.tail
      ((haim.child 1).after hL.head hf.1) hw₁
    refine ⟨b?, hw₂, hb?.trans ?_⟩
    rw [Aim.inward_after, Aim.address?_child]

theorem walkMethods_rename (hnew : R.new ≠ "this" ∧ R.new ≠ "super") (c : Context) (g : Function)
    {w w' : Walk} {L : Lexical} {aim : Aim} {a? : Option Address} (ha : aim.address? = a?) :
    (ms : List Method) → Scope.FitAll w.scopes ((Site.this g).enter 1 L) →
    (walkMethods c w ms).Clean → FormedMethods ms → BearsMethods (Token.Avoids R) ms →
    R.Knows (nodesOfMethods L ms) → (∀ L, aim.Fits R L) → w.Renamed R a? w' →
    (walkMethods c w ms).Renamed R a? (walkMethods c w' (renameMethods R aim ms))
  | [], _, _, _, _, _, _, hw => hw
  | ⟨t, f⟩ :: ms, h, hc, hf, hb, hk, haim, hw => by
    obtain ⟨hk₁, hk₂⟩ := Renaming.knows_append.mp hk
    have hc₁ := (walkMethods_keeps c _ ms).clean hc
    have hfit := (f.walk_surveys _ w _ (fitAll_this_congr h f) hc₁ hf.1).scopes
    have hw₁ := f.walk_rename hnew _ ((aim.address?_child 0).trans ha) (fitAll_this_congr h f) hc₁
      hf.1 hb.1.2 hk₁ ((haim _).child 0) hw
    exact walkMethods_rename hnew c g ((aim.address?_child 1).trans ha) ms (fitAll_this_congr hfit g)
      hc hf.2 hb.2 hk₂ (fun L => (haim L).child 1) hw₁

end

namespace Finding.Renamed

variable {f f' : Finding}

theorem address?_eq (h : f.Renamed R f') : f'.address? = f.address? := by
  cases h <;> rfl

theorem error? (lint : Lint) (h : f.Renamed R f') :
    Option.Rel (Diagnostic.Renamed R) (f.error? lint) (f'.error? lint) := by
  cases h with
  | address id a => exact .none
  | unread hd =>
    dsimp only [Finding.error?]
    split
    · exact .some hd
    · exact .none

theorem warning? (lint : Lint) (h : f.Renamed R f') :
    Option.Rel (Diagnostic.Renamed R) (f.warning? lint) (f'.warning? lint) := by
  cases h with
  | address id a => exact .none
  | unread hd =>
    dsimp only [Finding.warning?]
    split
    · exact .some hd
    · exact .none

end Finding.Renamed

theorem renamed_verdict {lint : Lint} {fs fs' : List Finding} {r : Resolution}
    (hfs : List.Forall₂ (Finding.Renamed R) fs fs') (h : verdict lint fs = .ok r) :
    ∃ warnings, verdict lint fs' = .ok ⟨r.addresses, warnings⟩ ∧
      List.Forall₂ (Diagnostic.Renamed R) r.warnings warnings := by
  obtain ⟨herrors, rfl⟩ := verdict_eq_ok.mp h
  have haddresses : fs'.filterMap Finding.address? = fs.filterMap Finding.address? := by
    clear h herrors
    induction hfs with
    | nil => rfl
    | cons hf _ ih => rw [List.filterMap_cons, List.filterMap_cons, hf.address?_eq, ih]
  have herrors' : List.Forall₂ (Diagnostic.Renamed R) (fs.filterMap (Finding.error? lint))
      (fs'.filterMap (Finding.error? lint)) := List.rel_filterMap (fun _ _ hf => hf.error? lint) hfs
  have hwarnings : List.Forall₂ (Diagnostic.Renamed R) (fs.filterMap (Finding.warning? lint))
      (fs'.filterMap (Finding.warning? lint)) :=
    List.rel_filterMap (fun _ _ hf => hf.warning? lint) hfs
  rw [herrors, List.forall₂_nil_left_iff] at herrors'
  exact ⟨_, verdict_eq_ok.mpr ⟨herrors', by rw [haddresses]⟩, hwarnings⟩

/-- The program with the new name is accepted with the same addresses, and with the same warnings up
to that name. -/
theorem resolve_rename {lint : Lint} {program : List Stmt} {r : Resolution}
    (hnew : R.new ≠ "this" ∧ R.new ≠ "super") (path : List Nat) (slot : Nat)
    (h : resolve lint program = .ok r) (hf : FormedStatements false program)
    (hb : BearsStatements (Token.Avoids R) program) (hk : R.Knows (nodesOfProgram program)) :
    ∃ warnings, resolve lint (renameStatements R (.ahead path slot) program) =
        .ok ⟨r.addresses, warnings⟩ ∧
      List.Forall₂ (Diagnostic.Renamed R) r.warnings warnings := by
  have hclean := (clean_of_resolve h).1
  have hstart : Walk.Renamed R none ⟨[], #[]⟩ ⟨[], #[]⟩ :=
    ⟨Scope.renamed_nil.mpr ⟨rfl, rfl⟩, .nil⟩
  have haim : (Aim.ahead path slot).Fits R [] := trivial
  obtain ⟨b?, hw, -⟩ := walkStatements_rename hnew .top false program .nil hclean hf hb hk
    (by simp [Lexical.ExpectsAll]) haim hstart
  rw [resolve_eq_verdict] at h ⊢
  exact renamed_verdict hw.findings h

end Lox
