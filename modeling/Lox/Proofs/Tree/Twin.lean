import Lox.Diagnostic
import Lox.Proofs.Tree.Identity
import Mathlib.Data.List.Forall2

namespace Lox

/-- Which nodes of one tree are which of another one, and which lines are which. -/
structure Link where
  node : Nat → Nat → Prop
  line : Nat → Nat → Prop
  /-- What has no line of its own is on line zero. -/
  zero : line 0 0

variable (K : Link)

structure Token.Twin (t t' : Token) : Prop where
  kind : t.kind = t'.kind
  lexeme : t.lexeme = t'.lexeme
  line : K.line t.line t'.line

structure Diagnostic.Twin (d d' : Diagnostic) : Prop where
  line : K.line d.line d'.line
  fault : d.fault = d'.fault

mutual

inductive Expr.Twin : Expr → Expr → Prop where
  | literal (value : Literal) : Expr.Twin (.literal value) (.literal value)
  | grouping {e e'} : Expr.Twin e e' → Expr.Twin (.grouping e) (.grouping e')
  | unary {t t' e e'} : t.Twin K t' → Expr.Twin e e' → Expr.Twin (.unary t e) (.unary t' e')
  | binary {e₁ e₁' t t' e₂ e₂'} : Expr.Twin e₁ e₁' → t.Twin K t' → Expr.Twin e₂ e₂' →
      Expr.Twin (.binary e₁ t e₂) (.binary e₁' t' e₂')
  | logical {e₁ e₁' t t' e₂ e₂'} : Expr.Twin e₁ e₁' → t.Twin K t' → Expr.Twin e₂ e₂' →
      Expr.Twin (.logical e₁ t e₂) (.logical e₁' t' e₂')
  | variable {i i' t t'} : K.node i i' → t.Twin K t' →
      Expr.Twin (.variable i t) (.variable i' t')
  | assign {i i' t t' e e'} : K.node i i' → t.Twin K t' → Expr.Twin e e' →
      Expr.Twin (.assign i t e) (.assign i' t' e')
  | call {e e' t t' es es'} : Expr.Twin e e' → t.Twin K t' → TwinAll es es' →
      Expr.Twin (.call e t es) (.call e' t' es')
  | get {e e' t t'} : Expr.Twin e e' → t.Twin K t' → Expr.Twin (.get e t) (.get e' t')
  | set {e₁ e₁' t t' e₂ e₂'} : Expr.Twin e₁ e₁' → t.Twin K t' → Expr.Twin e₂ e₂' →
      Expr.Twin (.set e₁ t e₂) (.set e₁' t' e₂')
  | this {i i' t t'} : K.node i i' → t.Twin K t' → Expr.Twin (.this i t) (.this i' t')
  | super {i i' t t' u u'} : K.node i i' → t.Twin K t' → u.Twin K u' →
      Expr.Twin (.super i t u) (.super i' t' u')
  | function {f f'} : Function.Twin f f' → Expr.Twin (.function f) (.function f')

inductive TwinAll : List Expr → List Expr → Prop where
  | nil : TwinAll [] []
  | cons {e e' es es'} : Expr.Twin e e' → TwinAll es es' → TwinAll (e :: es) (e' :: es')

inductive Function.Twin : Function → Function → Prop where
  | mk {params params' body body'} : List.Forall₂ (Token.Twin K) params params' →
      TwinStatements body body' → Function.Twin ⟨params, body⟩ ⟨params', body'⟩

inductive Method.Twin : Method → Method → Prop where
  | mk {t t' f f'} : t.Twin K t' → Function.Twin f f' → Method.Twin ⟨t, f⟩ ⟨t', f'⟩

inductive Stmt.Twin : Stmt → Stmt → Prop where
  | expression {e e'} : Expr.Twin e e' → Stmt.Twin (.expression e) (.expression e')
  | print {e e'} : Expr.Twin e e' → Stmt.Twin (.print e) (.print e')
  | var {t t'} : t.Twin K t' → Stmt.Twin (.var t none) (.var t' none)
  | initialized {t t' e e'} : t.Twin K t' → Expr.Twin e e' →
      Stmt.Twin (.var t (some e)) (.var t' (some e'))
  | block {ss ss'} : TwinStatements ss ss' → Stmt.Twin (.block ss) (.block ss')
  | if {e e' s s'} : Expr.Twin e e' → Stmt.Twin s s' →
      Stmt.Twin (.ifElse e s none) (.ifElse e' s' none)
  | ifElse {e e' s₁ s₁' s₂ s₂'} : Expr.Twin e e' → Stmt.Twin s₁ s₁' → Stmt.Twin s₂ s₂' →
      Stmt.Twin (.ifElse e s₁ (some s₂)) (.ifElse e' s₁' (some s₂'))
  | while {e e' s s'} : Expr.Twin e e' → Stmt.Twin s s' → Stmt.Twin (.while e s) (.while e' s')
  | break {t t'} : t.Twin K t' → Stmt.Twin (.break t) (.break t')
  | return {t t'} : t.Twin K t' → Stmt.Twin (.return t none) (.return t' none)
  | returned {t t' e e'} : t.Twin K t' → Expr.Twin e e' →
      Stmt.Twin (.return t (some e)) (.return t' (some e'))
  | function {m m'} : Method.Twin m m' → Stmt.Twin (.function m) (.function m')
  | class {t t' ms ms'} : t.Twin K t' → TwinMethods ms ms' →
      Stmt.Twin (.class t none ms) (.class t' none ms')
  | subclass {t t' e e' ms ms'} : t.Twin K t' → Expr.Twin e e' → TwinMethods ms ms' →
      Stmt.Twin (.class t (some e) ms) (.class t' (some e') ms')

inductive TwinStatements : List Stmt → List Stmt → Prop where
  | nil : TwinStatements [] []
  | cons {s s' ss ss'} : Stmt.Twin s s' → TwinStatements ss ss' →
      TwinStatements (s :: ss) (s' :: ss')

inductive TwinMethods : List Method → List Method → Prop where
  | nil : TwinMethods [] []
  | cons {m m' ms ms'} : Method.Twin m m' → TwinMethods ms ms' →
      TwinMethods (m :: ms) (m' :: ms')

end

variable {K} {K' : Link}

/-- What corresponds goes on to correspond. -/
structure Link.Within (K K' : Link) : Prop where
  node : ∀ i i', K.node i i' → K'.node i i'
  line : ∀ l l', K.line l l' → K'.line l l'

theorem Diagnostic.Twin.within {d d' : Diagnostic} (h : d.Twin K d') (hK : K.Within K') :
    d.Twin K' d' :=
  ⟨hK.line _ _ h.line, h.fault⟩

theorem Token.Twin.imp {t t' : Token} (h : t.Twin K t')
    (hline : ∀ l l', K.line l l' → K'.line l l') : t.Twin K' t' :=
  ⟨h.kind, h.lexeme, hline _ _ h.line⟩

/-- Lists that correspond in parts of equal length. -/
theorem forall₂_of_append {R : Nat → Nat → Prop} {is is' js js' : List Nat}
    (h : List.Forall₂ R (is ++ js) (is' ++ js')) (hlength : is.length = is'.length) :
    List.Forall₂ R is is' ∧ List.Forall₂ R js js' := by
  have htake := List.forall₂_take_append _ _ _ h
  have hdrop := List.forall₂_drop_append _ _ _ h
  rw [List.take_left' hlength] at htake
  rw [List.drop_left' hlength] at hdrop
  exact ⟨htake, hdrop⟩

mutual

/-- The nodes of a tree correspond to those of the other in order. -/
theorem Expr.Twin.paired {e e' : Expr} : e.Twin K e' → List.Forall₂ K.node e.ids e'.ids
  | .literal _ => by
    rw [Expr.ids]
    exact .nil
  | .grouping h | .unary _ h | .get h _ => by
    rw [Expr.ids, Expr.ids]
    exact h.paired
  | .binary h₁ _ h₂ | .logical h₁ _ h₂ => by
    rw [Expr.ids, Expr.ids]
    exact List.rel_append h₁.paired h₂.paired
  | .variable hi _ | .this hi _ | .super hi _ _ => by
    rw [Expr.ids, Expr.ids]
    exact .cons hi .nil
  | .assign hi _ h => by
    rw [Expr.ids, Expr.ids]
    exact List.rel_append h.paired (.cons hi .nil)
  | .call h _ hs => by
    rw [Expr.ids, Expr.ids]
    exact List.rel_append h.paired hs.paired
  | .set h₁ _ h₂ => by
    rw [Expr.ids, Expr.ids]
    exact List.rel_append h₂.paired h₁.paired
  | .function h => by
    rw [Expr.ids, Expr.ids]
    exact h.paired
termination_by structural h => h

theorem TwinAll.paired {es es' : List Expr} : TwinAll K es es' →
    List.Forall₂ K.node (idsOfAll es) (idsOfAll es')
  | .nil => by
    rw [idsOfAll]
    exact .nil
  | .cons h hs => by
    rw [idsOfAll, idsOfAll]
    exact List.rel_append h.paired hs.paired
termination_by structural h => h

theorem Function.Twin.paired {f f' : Function} : f.Twin K f' →
    List.Forall₂ K.node f.ids f'.ids
  | .mk _ hbody => by
    rw [Function.ids, Function.ids]
    exact hbody.paired
termination_by structural h => h

theorem Method.Twin.paired {m m' : Method} : m.Twin K m' → List.Forall₂ K.node m.ids m'.ids
  | .mk _ h => by
    rw [Method.ids, Method.ids]
    exact h.paired
termination_by structural h => h

theorem Stmt.Twin.paired {s s' : Stmt} : s.Twin K s' → List.Forall₂ K.node s.ids s'.ids
  | .var _ | .break _ | .return _ => by
    rw [Stmt.ids, Stmt.ids]
    exact .nil
  | .expression h | .print h | .initialized _ h | .returned _ h => by
    rw [Stmt.ids, Stmt.ids]
    exact h.paired
  | .block h => by
    rw [Stmt.ids, Stmt.ids]
    exact h.paired
  | .if h₁ h₂ | .while h₁ h₂ => by
    rw [Stmt.ids, Stmt.ids]
    exact List.rel_append h₁.paired h₂.paired
  | .ifElse h₁ h₂ h₃ => by
    rw [Stmt.ids, Stmt.ids]
    exact List.rel_append h₁.paired (List.rel_append h₂.paired h₃.paired)
  | .function h => by
    rw [Stmt.ids, Stmt.ids]
    exact h.paired
  | .class _ hms => by
    rw [Stmt.ids, Stmt.ids]
    exact hms.paired
  | .subclass _ h hms => by
    rw [Stmt.ids, Stmt.ids]
    exact List.rel_append h.paired hms.paired
termination_by structural h => h

theorem TwinStatements.paired {ss ss' : List Stmt} : TwinStatements K ss ss' →
    List.Forall₂ K.node (idsOfStatements ss) (idsOfStatements ss')
  | .nil => by
    rw [idsOfStatements]
    exact .nil
  | .cons h hs => by
    rw [idsOfStatements, idsOfStatements]
    exact List.rel_append h.paired hs.paired
termination_by structural h => h

theorem TwinMethods.paired {ms ms' : List Method} : TwinMethods K ms ms' →
    List.Forall₂ K.node (idsOfMethods ms) (idsOfMethods ms')
  | .nil => by
    rw [idsOfMethods]
    exact .nil
  | .cons h hs => by
    rw [idsOfMethods, idsOfMethods]
    exact List.rel_append h.paired hs.paired
termination_by structural h => h

end

mutual

/-- The nodes of a tree may correspond in another way, and the lines in a wider one. -/
theorem Expr.Twin.relink {e e' : Expr} : e.Twin K e' → List.Forall₂ K'.node e.ids e'.ids →
    (∀ l l', K.line l l' → K'.line l l') → e.Twin K' e'
  | .literal value, _, _ => .literal value
  | .grouping h, hnode, hline => by
    rw [Expr.ids, Expr.ids] at hnode
    exact .grouping (h.relink hnode hline)
  | .unary ht h, hnode, hline => by
    rw [Expr.ids, Expr.ids] at hnode
    exact .unary (ht.imp hline) (h.relink hnode hline)
  | .binary h₁ ht h₂, hnode, hline => by
    rw [Expr.ids, Expr.ids] at hnode
    obtain ⟨hleft, hright⟩ := forall₂_of_append hnode h₁.paired.length_eq
    exact .binary (h₁.relink hleft hline) (ht.imp hline) (h₂.relink hright hline)
  | .logical h₁ ht h₂, hnode, hline => by
    rw [Expr.ids, Expr.ids] at hnode
    obtain ⟨hleft, hright⟩ := forall₂_of_append hnode h₁.paired.length_eq
    exact .logical (h₁.relink hleft hline) (ht.imp hline) (h₂.relink hright hline)
  | .variable _ ht, hnode, hline => by
    rw [Expr.ids, Expr.ids] at hnode
    exact .variable (List.forall₂_cons.mp hnode).1 (ht.imp hline)
  | .assign _ ht h, hnode, hline => by
    rw [Expr.ids, Expr.ids] at hnode
    obtain ⟨hvalue, hid⟩ := forall₂_of_append hnode h.paired.length_eq
    exact .assign (List.forall₂_cons.mp hid).1 (ht.imp hline) (h.relink hvalue hline)
  | .call h ht hs, hnode, hline => by
    rw [Expr.ids, Expr.ids] at hnode
    obtain ⟨hcallee, hall⟩ := forall₂_of_append hnode h.paired.length_eq
    exact .call (h.relink hcallee hline) (ht.imp hline) (hs.relink hall hline)
  | .get h ht, hnode, hline => by
    rw [Expr.ids, Expr.ids] at hnode
    exact .get (h.relink hnode hline) (ht.imp hline)
  | .set h₁ ht h₂, hnode, hline => by
    rw [Expr.ids, Expr.ids] at hnode
    obtain ⟨hvalue, hobject⟩ := forall₂_of_append hnode h₂.paired.length_eq
    exact .set (h₁.relink hobject hline) (ht.imp hline) (h₂.relink hvalue hline)
  | .this _ ht, hnode, hline => by
    rw [Expr.ids, Expr.ids] at hnode
    exact .this (List.forall₂_cons.mp hnode).1 (ht.imp hline)
  | .super _ ht hu, hnode, hline => by
    rw [Expr.ids, Expr.ids] at hnode
    exact .super (List.forall₂_cons.mp hnode).1 (ht.imp hline) (hu.imp hline)
  | .function h, hnode, hline => by
    rw [Expr.ids, Expr.ids] at hnode
    exact .function (h.relink hnode hline)
termination_by structural h => h

theorem TwinAll.relink {es es' : List Expr} : TwinAll K es es' →
    List.Forall₂ K'.node (idsOfAll es) (idsOfAll es') →
    (∀ l l', K.line l l' → K'.line l l') → TwinAll K' es es'
  | .nil, _, _ => .nil
  | .cons h hs, hnode, hline => by
    rw [idsOfAll, idsOfAll] at hnode
    obtain ⟨hhead, htail⟩ := forall₂_of_append hnode h.paired.length_eq
    exact .cons (h.relink hhead hline) (hs.relink htail hline)
termination_by structural h => h

theorem Function.Twin.relink {f f' : Function} : f.Twin K f' →
    List.Forall₂ K'.node f.ids f'.ids →
    (∀ l l', K.line l l' → K'.line l l') → f.Twin K' f'
  | .mk hparams hbody, hnode, hline => by
    rw [Function.ids, Function.ids] at hnode
    exact .mk (hparams.imp fun _ _ ht => ht.imp hline) (hbody.relink hnode hline)
termination_by structural h => h

theorem Method.Twin.relink {m m' : Method} : m.Twin K m' →
    List.Forall₂ K'.node m.ids m'.ids →
    (∀ l l', K.line l l' → K'.line l l') → m.Twin K' m'
  | .mk ht h, hnode, hline => by
    rw [Method.ids, Method.ids] at hnode
    exact .mk (ht.imp hline) (h.relink hnode hline)
termination_by structural h => h

theorem Stmt.Twin.relink {s s' : Stmt} : s.Twin K s' → List.Forall₂ K'.node s.ids s'.ids →
    (∀ l l', K.line l l' → K'.line l l') → s.Twin K' s'
  | .expression h, hnode, hline => by
    rw [Stmt.ids, Stmt.ids] at hnode
    exact .expression (h.relink hnode hline)
  | .print h, hnode, hline => by
    rw [Stmt.ids, Stmt.ids] at hnode
    exact .print (h.relink hnode hline)
  | .var ht, _, hline => .var (ht.imp hline)
  | .initialized ht h, hnode, hline => by
    rw [Stmt.ids, Stmt.ids] at hnode
    exact .initialized (ht.imp hline) (h.relink hnode hline)
  | .block h, hnode, hline => by
    rw [Stmt.ids, Stmt.ids] at hnode
    exact .block (h.relink hnode hline)
  | .if h₁ h₂, hnode, hline => by
    rw [Stmt.ids, Stmt.ids] at hnode
    obtain ⟨hcondition, hthen⟩ := forall₂_of_append hnode h₁.paired.length_eq
    exact .if (h₁.relink hcondition hline) (h₂.relink hthen hline)
  | .ifElse h₁ h₂ h₃, hnode, hline => by
    rw [Stmt.ids, Stmt.ids] at hnode
    obtain ⟨hcondition, hrest⟩ := forall₂_of_append hnode h₁.paired.length_eq
    obtain ⟨hthen, helse⟩ := forall₂_of_append hrest h₂.paired.length_eq
    exact .ifElse (h₁.relink hcondition hline) (h₂.relink hthen hline) (h₃.relink helse hline)
  | .while h₁ h₂, hnode, hline => by
    rw [Stmt.ids, Stmt.ids] at hnode
    obtain ⟨hcondition, hbody⟩ := forall₂_of_append hnode h₁.paired.length_eq
    exact .while (h₁.relink hcondition hline) (h₂.relink hbody hline)
  | .break ht, _, hline => .break (ht.imp hline)
  | .return ht, _, hline => .return (ht.imp hline)
  | .returned ht h, hnode, hline => by
    rw [Stmt.ids, Stmt.ids] at hnode
    exact .returned (ht.imp hline) (h.relink hnode hline)
  | .function h, hnode, hline => by
    rw [Stmt.ids, Stmt.ids] at hnode
    exact .function (h.relink hnode hline)
  | .class ht hms, hnode, hline => by
    rw [Stmt.ids, Stmt.ids] at hnode
    exact .class (ht.imp hline) (hms.relink hnode hline)
  | .subclass ht h hms, hnode, hline => by
    rw [Stmt.ids, Stmt.ids] at hnode
    obtain ⟨hsuperclass, hmethods⟩ := forall₂_of_append hnode h.paired.length_eq
    exact .subclass (ht.imp hline) (h.relink hsuperclass hline) (hms.relink hmethods hline)
termination_by structural h => h

theorem TwinStatements.relink {ss ss' : List Stmt} : TwinStatements K ss ss' →
    List.Forall₂ K'.node (idsOfStatements ss) (idsOfStatements ss') →
    (∀ l l', K.line l l' → K'.line l l') → TwinStatements K' ss ss'
  | .nil, _, _ => .nil
  | .cons h hs, hnode, hline => by
    rw [idsOfStatements, idsOfStatements] at hnode
    obtain ⟨hhead, htail⟩ := forall₂_of_append hnode h.paired.length_eq
    exact .cons (h.relink hhead hline) (hs.relink htail hline)
termination_by structural h => h

theorem TwinMethods.relink {ms ms' : List Method} : TwinMethods K ms ms' →
    List.Forall₂ K'.node (idsOfMethods ms) (idsOfMethods ms') →
    (∀ l l', K.line l l' → K'.line l l') → TwinMethods K' ms ms'
  | .nil, _, _ => .nil
  | .cons h hs, hnode, hline => by
    rw [idsOfMethods, idsOfMethods] at hnode
    obtain ⟨hhead, htail⟩ := forall₂_of_append hnode h.paired.length_eq
    exact .cons (h.relink hhead hline) (hs.relink htail hline)
termination_by structural h => h

end

mutual

theorem Expr.Twin.line {e e' : Expr} : e.Twin K e' → K.line e.line e'.line
  | .literal _ => K.zero
  | .grouping h => h.line
  | .function h => h.line
  | .unary ht _ | .binary _ ht _ | .logical _ ht _ | .variable _ ht | .assign _ ht _ | .call _ ht _
  | .get _ ht | .set _ ht _ | .this _ ht | .super _ ht _ => ht.line
termination_by structural h => h

theorem Function.Twin.line {f f' : Function} : f.Twin K f' →
    K.line (Expr.function f).line (Expr.function f').line
  | .mk (.cons ht _) _ => ht.line
  | .mk .nil .nil => K.zero
  | .mk .nil (.cons h _) => h.line
termination_by structural h => h

theorem Stmt.Twin.line {s s' : Stmt} : s.Twin K s' → K.line s.line s'.line
  | .expression h | .print h | .if h _ | .ifElse h _ _ | .while h _ => h.line
  | .block h => h.line
  | .function (.mk ht _) => ht.line
  | .var ht | .initialized ht _ | .break ht | .return ht | .returned ht _ | .class ht _
  | .subclass ht _ _ => ht.line
termination_by structural h => h

theorem TwinStatements.line {ss ss' : List Stmt} : TwinStatements K ss ss' →
    K.line (Stmt.block ss).line (Stmt.block ss').line
  | .nil => K.zero
  | .cons h _ => h.line
termination_by structural h => h

end

theorem Function.Twin.within {f f' : Function} (h : f.Twin K f') (hK : K.Within K') :
    f.Twin K' f' :=
  h.relink (h.paired.imp hK.node) hK.line

theorem Function.Twin.params {f f' : Function} (h : f.Twin K f') :
    List.Forall₂ (Token.Twin K) f.params f'.params := by
  cases h with
  | mk hparams _ => exact hparams

theorem Function.Twin.body {f f' : Function} (h : f.Twin K f') :
    TwinStatements K f.body f'.body := by
  cases h with
  | mk _ hbody => exact hbody

end Lox
