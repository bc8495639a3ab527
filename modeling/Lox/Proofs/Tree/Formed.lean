import Lox.Proofs.Grammar.Sound.Whole
import Lox.Proofs.Token.Cut

namespace Lox

/-- A name that cannot be taken for the one cell of the scope of a `this` or a `super`. -/
def Token.Ordinary (t : Token) : Prop := t.lexeme ≠ "this" ∧ t.lexeme ≠ "super"

/-- The name that a statement adds to the scope it stands in. -/
def Stmt.declared? : Stmt → Option Token
  | .var name _ => some name
  | .function ⟨name, _⟩ => some name
  | .class name _ _ => some name
  | _ => none

mutual

def Expr.Formed : Expr → Prop
  | .literal _ => True
  | .grouping inner => inner.Formed
  | .unary _ right => right.Formed
  | .binary left _ right => left.Formed ∧ right.Formed
  | .logical left _ right => left.Formed ∧ right.Formed
  | .variable _ name => name.Ordinary
  | .assign _ name value => name.Ordinary ∧ value.Formed
  | .call callee _ arguments => callee.Formed ∧ FormedAll arguments
  | .get object _ => object.Formed
  | .set object _ value => object.Formed ∧ value.Formed
  | .this _ keyword => keyword.lexeme = "this"
  | .super _ keyword _ => keyword.lexeme = "super"
  | .function function => function.Formed

def FormedAll : List Expr → Prop
  | [] => True
  | e :: es => e.Formed ∧ FormedAll es

def Function.Formed : Function → Prop
  | ⟨params, body⟩ => (∀ t ∈ params, t.Ordinary) ∧ FormedStatements false body

/-- With `loop` a loop of the same function is around the statement. -/
def Stmt.Formed (loop : Bool) : Stmt → Prop
  | .expression expr => expr.Formed
  | .print expr => expr.Formed
  | .var name none => name.Ordinary
  | .var name (some value) => name.Ordinary ∧ value.Formed
  | .block statements => FormedStatements loop statements
  | .ifElse condition thenBranch none =>
    condition.Formed ∧ thenBranch.Formed loop ∧ thenBranch.declared? = none
  | .ifElse condition thenBranch (some elseBranch) =>
    condition.Formed ∧ (thenBranch.Formed loop ∧ thenBranch.declared? = none) ∧
      elseBranch.Formed loop ∧ elseBranch.declared? = none
  | .while condition body => condition.Formed ∧ body.Formed true ∧ body.declared? = none
  | .break _ => loop = true
  | .return _ none => True
  | .return _ (some value) => value.Formed
  | .function ⟨name, function⟩ => name.Ordinary ∧ function.Formed
  | .class name none methods => name.Ordinary ∧ FormedMethods methods
  | .class name (some superclass) methods =>
    name.Ordinary ∧ (∃ id t, superclass = .variable id t ∧ t.Ordinary) ∧ FormedMethods methods

def FormedStatements (loop : Bool) : List Stmt → Prop
  | [] => True
  | s :: ss => s.Formed loop ∧ FormedStatements loop ss

def FormedMethods : List Method → Prop
  | [] => True
  | ⟨_, function⟩ :: ms => function.Formed ∧ FormedMethods ms

end

@[simp] theorem formedAll_iff (es : List Expr) : FormedAll es ↔ ∀ e ∈ es, e.Formed := by
  induction es with
  | nil => simp [FormedAll]
  | cons e es ih => simp [FormedAll, ih]

@[simp] theorem formedStatements_iff (loop : Bool) (ss : List Stmt) :
    FormedStatements loop ss ↔ ∀ s ∈ ss, s.Formed loop := by
  induction ss with
  | nil => simp [FormedStatements]
  | cons s ss ih => simp [FormedStatements, ih]

@[simp] theorem formedMethods_iff (ms : List Method) :
    FormedMethods ms ↔ ∀ m ∈ ms, m.function.Formed := by
  induction ms with
  | nil => simp [FormedMethods]
  | cons m ms ih =>
    obtain ⟨name, function⟩ := m
    simp [FormedMethods, ih]

theorem Function.Formed.body {f : Function} (h : f.Formed) : FormedStatements false f.body := by
  cases f
  exact h.2

theorem Stmt.Formed.ordinary {loop : Bool} {s : Stmt} {t : Token} (h : s.Formed loop)
    (ht : s.declared? = some t) : t.Ordinary := by
  cases s with
  | var name value =>
    obtain rfl := Option.some.inj ht
    cases value with
    | none => exact h
    | some value => exact h.1
  | function d =>
    obtain ⟨name, function⟩ := d
    obtain rfl := Option.some.inj ht
    exact h.1
  | «class» name superclass methods =>
    obtain rfl := Option.some.inj ht
    cases superclass with
    | none => exact h.1
    | some superclass => exact h.1
  | _ => simp [declared?] at ht

/-- A name that was read from source is no keyword. -/
theorem Token.Written.ordinary {t : Token} (ht : t.Written) (hk : t.kind = .identifier) :
    t.Ordinary := by
  have hne : ∀ {k : Kind} {name : String}, IsWord k name.toList → k ≠ .identifier →
      t.lexeme ≠ name := by
    rintro k _ hword hk' rfl
    obtain ⟨c, cs, hcs, hnext⟩ := ht [] (endsWord_nil _)
    obtain ⟨c', cs', hcs', hnext'⟩ := hword [] (endsWord_nil _)
    obtain ⟨rfl, rfl⟩ := List.cons.inj (hcs.symm.trans hcs')
    have hkind : t.kind = k := by simpa using hnext.symm.trans hnext'
    exact hk' (hkind.symm.trans hk)
  exact ⟨hne (isWord_keyword rfl) (by simp), hne (isWord_keyword rfl) (by simp)⟩

namespace Grammar

variable {nearest loop : Bool} {ts : List Token}

def Symbol.Formed (loop : Bool) : (s : Symbol) → s.Tree → Prop
  | .expression _, e => Expr.Formed e
  | .items, es => FormedAll es
  | .arguments, es => FormedAll es
  | .optional, o => ∀ e, o = some e → Expr.Formed e
  | .function, f => Function.Formed f
  | .method, m => (Method.function m).Formed ∧ (Method.name m).Ordinary
  | .methods, ms => FormedMethods ms
  | .variable, s => Stmt.Formed loop s
  | .start, o => ∀ s, o = some s → Stmt.Formed loop s
  | .statement _, s => Stmt.Formed loop s ∧ Stmt.declared? s = none
  | .declaration _, s => Stmt.Formed loop s
  | .declarations, ss => FormedStatements loop ss

theorem formed_forLoop {start : Option Stmt} {condition step : Option Expr} {body : Stmt}
    (hstart : ∀ s, start = some s → s.Formed loop) (hcondition : ∀ e, condition = some e → e.Formed)
    (hstep : ∀ e, step = some e → e.Formed) (hbody : body.Formed true ∧ body.declared? = none) :
    (forLoop start condition step body).Formed loop ∧
      (forLoop start condition step body).declared? = none := by
  have he : (condition.getD (.literal .true)).Formed := by
    cases condition with
    | none => simp [Expr.Formed]
    | some e => exact hcondition e rfl
  obtain ⟨hb, hd⟩ := hbody
  cases start <;> cases step <;> simp_all [forLoop, Stmt.Formed, Stmt.declared?]

theorem Parameters.ordinary {params : List Token} (h : Parameters ts params)
    (ht : ∀ t ∈ ts, t.Written) : ∀ t ∈ params, t.Ordinary := by
  have hnames : ∀ {ts names}, Separated (fun ts (name : Token) =>
      name.kind = .identifier ∧ ts = [name]) ts names → (∀ t ∈ ts, t.Written) →
        ∀ t ∈ names, t.Ordinary := by
    intro ts names h
    induction h with
    | one h =>
      obtain ⟨hk, rfl⟩ := h
      intro ht t hmem
      obtain rfl := List.mem_singleton.mp hmem
      exact (ht t (by simp)).ordinary hk
    | more h _ _ ih =>
      obtain ⟨hk, rfl⟩ := h
      intro ht t hmem
      rcases List.mem_cons.mp hmem with rfl | hmem
      · exact (ht t (by simp)).ordinary hk
      · exact ih (fun t h => ht t (by simp [h])) t hmem
  cases h with
  | none => simp
  | some h _ => exact hnames h ht

theorem Derives.formed {s : Symbol} {t : s.Tree} (h : Derives nearest loop s ts t) :
    (∀ t ∈ ts, t.Written) → s.Formed loop t := by
  induction h with
  | operand _ _ ih => exact ih
  | assign hname _ _ ih =>
    intro ht
    exact ⟨(ht _ (by simp)).ordinary hname, ih fun t h => ht t (by simp [h])⟩
  | set _ _ _ _ _ ih₁ ih₂ =>
    exact fun ht => ⟨ih₁ fun t h => ht t (by simp [h]), ih₂ fun t h => ht t (by simp [h])⟩
  | @operation _ r _ _ _ _ _ _ _ _ _ _ ih₁ ih₂ =>
    intro ht
    have h₁ := ih₁ fun t h => ht t (by simp [h])
    have h₂ := ih₂ fun t h => ht t (by simp [h])
    cases r <;> exact ⟨h₁, h₂⟩
  | sign _ _ ih => exact fun ht => ih fun t h => ht t (by simp [h])
  | call _ _ _ _ ih₁ ih₂ =>
    exact fun ht => ⟨ih₁ fun t h => ht t (by simp [h]), ih₂ fun t h => ht t (by simp [h])⟩
  | get _ _ _ ih => exact fun ht => ih fun t h => ht t (by simp [h])
  | literal _ => exact fun _ => trivial
  | name h => exact fun ht => (ht _ (by simp)).ordinary h
  | this h => exact fun ht => (ht _ (by simp)).lexeme (by rw [h]; rfl)
  | super h _ _ => exact fun ht => (ht _ (by simp)).lexeme (by rw [h]; rfl)
  | grouping _ _ _ ih => exact fun ht => ih fun t h => ht t (by simp [h])
  | anonymous _ _ ih => exact fun ht => ih fun t h => ht t (by simp [h])
  | item _ ih => exact fun ht => ⟨ih ht, trivial⟩
  | items _ _ _ ih₁ ih₂ =>
    exact fun ht => ⟨ih₁ fun t h => ht t (by simp [h]), ih₂ fun t h => ht t (by simp [h])⟩
  | noArguments => exact fun _ => trivial
  | arguments _ _ ih => exact ih
  | leftOut => exact fun _ => nofun
  | present _ ih =>
    rintro ht _ ⟨⟩
    exact ih ht
  | function _ hparams _ _ _ _ ih =>
    intro ht
    exact ⟨hparams.ordinary fun t h => ht t (by simp [h]), ih fun t h => ht t (by simp [h])⟩
  | method hname _ ih =>
    exact fun ht => ⟨ih fun t h => ht t (by simp [h]), (ht _ (by simp)).ordinary hname⟩
  | noMethods => exact fun _ => trivial
  | @methods _ _ _ m _ _ _ ih₁ ih₂ =>
    intro ht
    cases (m : Method)
    exact ⟨(ih₁ fun t h => ht t (by simp [h])).1, ih₂ fun t h => ht t (by simp [h])⟩
  | @bare _ _ name _ _ hname _ => exact fun ht => (ht name (by simp)).ordinary hname
  | @initialized _ _ _ _ name _ _ _ hname _ _ _ ih =>
    exact fun ht => ⟨(ht name (by simp)).ordinary hname, ih fun t h => ht t (by simp [h])⟩
  | noStart _ => exact fun _ => nofun
  | startVariable _ ih =>
    rintro ht _ ⟨⟩
    exact ih ht
  | startExpression _ _ ih =>
    rintro ht _ ⟨⟩
    exact ih fun t h => ht t (by simp [h])
  | expression _ _ ih => exact fun ht => ⟨ih fun t h => ht t (by simp [h]), rfl⟩
  | print _ _ _ ih => exact fun ht => ⟨ih fun t h => ht t (by simp [h]), rfl⟩
  | @«return» _ _ value _ _ _ _ _ ih =>
    intro ht
    have h := ih fun t h => ht t (by simp [h])
    cases value with
    | none => exact ⟨trivial, rfl⟩
    | some e => exact ⟨h e rfl, rfl⟩
  | «break» => exact fun _ => ⟨rfl, rfl⟩
  | block _ _ _ ih => exact fun ht => ⟨ih fun t h => ht t (by simp [h]), rfl⟩
  | «while» _ _ _ _ _ ih₁ ih₂ =>
    exact fun ht => ⟨⟨ih₁ fun t h => ht t (by simp [h]), ih₂ fun t h => ht t (by simp [h])⟩, rfl⟩
  | «for» _ _ _ _ _ _ _ _ ih₁ ih₂ ih₃ ih₄ =>
    intro ht
    exact formed_forLoop (ih₁ fun t h => ht t (by simp [h])) (ih₂ fun t h => ht t (by simp [h]))
      (ih₃ fun t h => ht t (by simp [h])) (ih₄ fun t h => ht t (by simp [h]))
  | «if» _ _ _ _ _ ih₁ ih₂ =>
    exact fun ht => ⟨⟨ih₁ fun t h => ht t (by simp [h]), ih₂ fun t h => ht t (by simp [h])⟩, rfl⟩
  | ifElse _ _ _ _ _ _ _ _ ih₁ ih₂ ih₃ =>
    intro ht
    exact ⟨⟨ih₁ fun t h => ht t (by simp [h]), ih₂ fun t h => ht t (by simp [h]),
      ih₃ fun t h => ht t (by simp [h])⟩, rfl⟩
  | statement _ ih => exact fun ht => (ih ht).1
  | declareVariable _ ih => exact ih
  | @declareFunction _ _ m _ _ _ ih =>
    intro ht
    cases (m : Method)
    obtain ⟨hf, hname⟩ := ih fun t h => ht t (by simp [h])
    exact ⟨hname, hf⟩
  | declareClass _ hname _ _ _ ih =>
    exact fun ht => ⟨(ht _ (by simp)).ordinary hname, ih fun t h => ht t (by simp [h])⟩
  | @declareSubclass _ _ _ _ _ _ _ superclass _ _ _ hname _ hsuperclass _ _ _ ih =>
    intro ht
    exact ⟨(ht _ (by simp)).ordinary hname,
      ⟨_, _, rfl, (ht superclass (by simp)).ordinary hsuperclass⟩,
      ih fun t h => ht t (by simp [h])⟩
  | noDeclarations => exact fun _ => trivial
  | declarations _ _ ih₁ ih₂ =>
    exact fun ht => ⟨ih₁ fun t h => ht t (by simp [h]), ih₂ fun t h => ht t (by simp [h])⟩

end Grammar

end Lox
