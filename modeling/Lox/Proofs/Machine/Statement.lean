import Lox.Proofs.Machine.Call

namespace Lox

variable {P : History} {W W' : World} {m m' : Machine} {L : Lexical} {n : Nat}

theorem At.of_here (h : Sound P W m) (hL : Here P W m L) : At P W m L :=
  ⟨h, hL.stands, hL.proper⟩

/-- To evaluate an expression does not change where the machine is. -/
theorem safe_evaluate {e : Expr} (ih : SafeExpr P n) (h : Sound P W m) (hL : Here P W m L)
    (hknown : Known P L (e.nodes L)) (hformed : e.Formed) :
    Safe P m.frame W m (Machine.evaluate n e) [⟨n, .evaluate e, m⟩]
      fun W' m' v => v.Fits P W' m' ∧ Here P W' m' L :=
  (Safe.imp (ih (.of_here h hL) ⟨hknown, hformed⟩) fun _ _ _ hk hv => ⟨hv, hL.kept hk⟩).of_none

/-- A statement that follows others in the same frame. -/
theorem SafeStmt.follow {loop : Bool} {s : Stmt} {f? : Option FrameRef} (ih : SafeStmt P n)
    (hframe : m.frame = f?) (h : Sound P W m) (hL : Here P W m L) (hformed : s.Formed loop)
    (hknown : Known P L (s.nodes L)) (hnext : L.Expects s) :
    Safe P f? W m (Machine.execute n s) [⟨n, .execute s, m⟩]
      fun W' m' flow => flow.Fits P W' m' ∧ Here P W' m' (L.after s) :=
  hframe ▸ ih h hL hformed hknown hnext

/-- A statement within another one, which declares nothing. -/
theorem SafeStmt.branch {loop : Bool} {s : Stmt} {f? : Option FrameRef} (ih : SafeStmt P n)
    (hframe : m.frame = f?) (h : Sound P W m) (hL : Here P W m L)
    (hformed : s.Formed loop ∧ s.declared? = none) (hknown : Known P L (s.nodes L)) :
    Safe P f? W m (Machine.execute n s) [⟨n, .execute s, m⟩]
      fun W' m' flow => flow.Fits P W' m' ∧ Here P W' m' L := by
  have hsafe := ih.follow hframe h hL hformed.1 hknown
    (Lexical.expects_of_declared?_eq_none hformed.2)
  rwa [Lexical.after_of_declared?_eq_none hformed.2] at hsafe

theorem safe_declare {name : Token} {v : Value} {f? : Option FrameRef} (hframe : m.frame = f?)
    (h : Sound P W m) (hL : Here P W m L)
    (hnext : ∀ p ∈ L.head?, p.site.names[p.count]? = some name.lexeme) (hname : name.Ordinary)
    (hv : v.Fits P W m) :
    Safe P f? W m (Machine.define name v) [⟨n + 1, .define name v, m⟩]
      fun W' m' _ => Here P W' m' L.declare := by
  subst hframe
  exact Safe.enter fun hM => ⟨trivial,
    (safe_define h hL hnext hname hM rfl ⟨v, rfl⟩ (fits_framesWith hv)).imp fun _ _ _ _ hq => hq.2⟩

/-- In its initializer a variable is pending. -/
theorem at_await {name : Token} {value : Expr} (h : Sound P W m) (hL : Here P W m L)
    (hnext : ∀ p ∈ L.head?, p.site.names[p.count]? = some name.lexeme)
    (hM : P.moment ⟨n + 1, .execute (.var name (some value)), m⟩) :
    At P W m (L.await name value) := by
  refine ⟨h, ?_, hL.proper.await name value⟩
  obtain ⟨hstands, -, hexact⟩ := hL
  cases hf : m.frame with
  | none =>
    rw [hf] at hstands
    cases hstands
    exact .top
  | some f =>
    rw [hf] at hstands
    cases hstands with
    | @frame _ p L frame N hget hN hsite hcount _ houter =>
      refine .frame hget hN hsite hcount ?_ houter
      rintro t e ht
      obtain ⟨rfl, rfl⟩ := Prod.mk.inj (Option.some.inj ht)
      exact ⟨hnext p rfl, _, hM, rfl, hf, (hexact f p hf rfl).1⟩

theorem safe_var {name : Token} {value : Option Expr} {loop : Bool} (ih : SafeExpr P n)
    (h : Sound P W m) (hL : Here P W m L) (hM : P.moment ⟨n + 1, .execute (.var name value), m⟩)
    (hformed : (Stmt.var name value).Formed loop)
    (hknown : Known P L ((Stmt.var name value).nodes L)) (hnext : L.Expects (.var name value)) :
    Safe P m.frame W m (Machine.execute (n + 1) (.var name value))
      (callsOfStmt n m (.var name value))
      fun W' m' flow => flow.Fits P W' m' ∧ Here P W' m' L.declare := by
  have hnext' := fun p hp => (hnext name rfl p hp).2
  have hname : name.Ordinary := hformed.ordinary rfl
  cases value with
  | none =>
    refine Safe.andThen (safe_declare rfl h hL hnext' hname trivial) fun _ W' m' _ hk hhere => ?_
    exact .pure hk.sound ⟨trivial, hhere⟩
  | some e =>
    have hvalue : Safe P none W m (Machine.evaluate n e) [⟨n, .evaluate e, m⟩]
        fun W' m' v => v.Fits P W' m' ∧ Here P W' m' L :=
      (ih (at_await h hL hnext' hM) ⟨hknown.await, hformed.2⟩).imp
        fun _ _ _ hk hv => ⟨hv, hL.kept hk⟩
    refine Safe.bind hvalue.of_none fun v W₁ m₁ _ hk₁ ⟨hv, hhere₁⟩ => ?_
    refine Safe.andThen (safe_declare hk₁.frame hk₁.sound hhere₁ hnext' hname hv) ?_
    exact fun _ W' m' _ hk' hhere => .pure hk'.sound ⟨trivial, hhere⟩

/-- The frame of a block, when it is executed. -/
theorem instance_of_block {ss : List Stmt} (hM : P.moment ⟨n + 1, .execute (.block ss), m⟩) :
    Instance P ⟨n + 1, .execute (.block ss), m⟩ ⟨m.frames.frames.size⟩ ⟨m.frame, [].toArray⟩
      (.block ss) := by
  refine ⟨hM, ⟨by simp, rfl, rfl⟩, rfl, by simp, by simp, ?_, ?_, ?_⟩
  · rintro _ _ ⟨⟩
  · rintro _ _ _ ⟨⟩
  · rintro _ (⟨_, _, ⟨⟩⟩ | ⟨_, ⟨⟩⟩)

/-- The statements of a block are executed in a frame of their own. -/
theorem safe_block {ss : List Stmt} {loop : Bool} (ih : SafeStmts P n) (h : Sound P W m)
    (hL : Here P W m L) (hM : P.moment ⟨n + 1, .execute (.block ss), m⟩)
    (hformed : FormedStatements loop ss) (hknown : Known P L ((Stmt.block ss).nodes L)) :
    Safe P none W m (Machine.execute (n + 1) (.block ss)) (callsOfStmt n m (.block ss))
      fun W' m' flow => flow.Fits P W' m' := by
  have hinstance := instance_of_block hM
  have hsite : (Site.block ss).Ordinary := fun _ hname => ordinary_of_formedStatements hformed hname
  obtain ⟨hsound, hhere⟩ := here_push h hinstance (by simp) hL.stands hL.proper hsite (by simp)
  refine Safe.of_fresh ?_ (get?_size m.frames)
  show Safe P _ W m (get >>= fun m => Machine.newFrame m.frame [] >>= fun f =>
    Machine.within f (Machine.executeAll n ss)) (after get m fun _ m =>
      after (Machine.newFrame m.frame []) m fun f m =>
        [⟨n, .executeAll ss, { m with frame := some f }⟩]) _
  refine Safe.before (safe_get h) ?_
  rintro _ _ _ - - ⟨rfl, rfl, rfl⟩
  refine Safe.before (safe_newFrame h hinstance (by simp)) ?_
  rintro _ _ _ - hk ⟨rfl, rfl, rfl⟩
  have hknown' := hknown.enter (Site.block ss) 0
  exact (Safe.within (ih hsound hhere hformed hknown' (expectsAll_block ss))).imp
    fun _ _ _ _ hflow => hflow.leave

/-- What stands behind a declaration knows the declared name. -/
theorem Known.declare {nodes : List Node} (hknown : Known P L nodes) (hL : Here P W m L) :
    Known P L.declare nodes := by
  refine hknown.of_tail (Lexical.tail_declare L) fun p hp => ?_
  cases L with
  | nil => simp [Lexical.declare] at hp
  | cons q L =>
    obtain rfl := Option.some.inj hp
    exact hL.pending q rfl

theorem Known.after {nodes : List Node} (hknown : Known P L nodes) (hL : Here P W m L) (s : Stmt) :
    Known P (L.after s) nodes := by
  unfold Lexical.after
  split
  · exact hknown.declare hL
  · exact hknown

/-- A function may name itself, so it stands behind its own declaration. -/
theorem safe_function {name : Token} {f : Function} {loop : Bool} (h : Sound P W m)
    (hL : Here P W m L) (hM : P.moment ⟨n + 1, .execute (.function ⟨name, f⟩), m⟩)
    (hformed : (Stmt.function ⟨name, f⟩).Formed loop)
    (hknown : Known P L ((Stmt.function ⟨name, f⟩).nodes L))
    (hnext : L.Expects (.function ⟨name, f⟩)) :
    Safe P m.frame W m (Machine.execute (n + 1) (.function ⟨name, f⟩))
      (callsOfStmt n m (.function ⟨name, f⟩))
      fun W' m' flow => flow.Fits P W' m' ∧ Here P W' m' L.declare := by
  have hnext' := fun p hp => (hnext name rfl p hp).2
  show Safe P _ W m (get >>= fun m =>
    Machine.functionValue ⟨some name.lexeme, f, m.frame, false⟩ >>= fun v =>
      Machine.define name v >>= fun _ => Pure.pure Flow.normal) (after get m fun _ m =>
        after (Machine.functionValue ⟨some name.lexeme, f, m.frame, false⟩) m fun v m =>
          [⟨n + 1, .define name v, m⟩]) _
  refine Safe.before (safe_get h) ?_
  rintro _ _ _ - - ⟨rfl, rfl, rfl⟩
  refine Safe.before (safe_newFunction h ⟨some name.lexeme, f, m.frame, false⟩) ?_
  rintro _ _ m₁ - hk' ⟨rfl, hframes, identity, rfl⟩
  have hgrows : Frames.Grows none m.frames m₁.frames := by
    rw [hframes]
    exact .refl _ _
  have hk : Kept P none W m W m₁ := ⟨hk'.grown.of_grows hgrows, hk'.frame, hk'.sound⟩
  have hhere := hL.kept hk
  obtain ⟨hstands, hproper, -⟩ := hhere.declare (.function identity ⟨some name.lexeme, f, m.frame, false⟩)
  refine Safe.andThen (Q := fun W' m' _ => Here P W' m' L.declare) ?_
    fun _ W' m' _ hk' hhere' => .pure hk'.sound ⟨trivial, hhere'⟩
  refine Safe.enter fun hD => ⟨trivial, ?_⟩
  rw [← hk.frame]
  refine (safe_define hk.sound hhere hnext' (hformed.ordinary rfl) hD rfl ⟨_, rfl⟩ ?_).imp
    fun _ _ _ _ hq => hq.2
  refine ⟨⟨⟨L.declare, ?_, hproper, hknown.declare hL, hformed.2⟩, ?_⟩, nofun⟩
  · rw [hk.frame] at hstands ⊢
    exact hstands
  · exact ⟨_, hM, rfl, hk.frame⟩

theorem safe_class {name : Token} {superclass : Option Expr} {methods : List Method} {loop : Bool}
    (ih : SafeExpr P n) (h : Sound P W m) (hL : Here P W m L)
    (hformed : (Stmt.class name superclass methods).Formed loop)
    (hknown : Known P L ((Stmt.class name superclass methods).nodes L))
    (hnext : L.Expects (.class name superclass methods)) :
    Safe P m.frame W m (Machine.execute (n + 1) (.class name superclass methods))
      (callsOfStmt n m (.class name superclass methods))
      fun W' m' flow => flow.Fits P W' m' ∧ Here P W' m' L.declare := by
  have hnext' := fun p hp => (hnext name rfl p hp).2
  have hname : name.Ordinary := hformed.ordinary rfl
  cases superclass with
  | none =>
    have hmethods : Known P L.declare (nodesOfMethods L.declare methods) := hknown.declare hL
    refine Safe.andThen (safe_declareClass h hL hnext' hname nofun hmethods hformed.2) ?_
    exact fun _ W' m' _ hk hhere => .pure hk.sound ⟨trivial, hhere⟩
  | some e =>
    obtain ⟨-, ⟨id, t, rfl, ht⟩, hmethods⟩ := hformed
    refine Safe.bind (safe_evaluate ih h hL hknown.left ht) fun v W₁ m₁ _ hk₁ ⟨hv, hhere₁⟩ => ?_
    cases v with
    | «class» c =>
      have hinside : Known P ((Site.super methods).enter 1 L.declare)
          (nodesOfMethods ((Site.super methods).enter 1 L.declare) methods) :=
        (hknown.right.declare hL).enter _ _
      have hsuper : ∀ c', some c = some c' → c'.Fits P W₁ m₁ := by
        rintro _ ⟨⟩
        exact hv
      rw [← hk₁.frame]
      refine Safe.andThen (safe_declareClass hk₁.sound hhere₁ hnext' hname hsuper hinside hmethods) ?_
      exact fun _ W' m' _ hk hhere => .pure hk.sound ⟨trivial, hhere⟩
    | _ => exact .fail hk₁.sound

theorem safe_ifElse {condition : Expr} {s : Stmt} {other : Option Stmt} {loop : Bool}
    (ih : SafeExpr P n) (ihStmt : SafeStmt P n) (h : Sound P W m) (hL : Here P W m L)
    (hformed : (Stmt.ifElse condition s other).Formed loop)
    (hknown : Known P L ((Stmt.ifElse condition s other).nodes L)) :
    Safe P m.frame W m (Machine.execute (n + 1) (.ifElse condition s other))
      (callsOfStmt n m (.ifElse condition s other))
      fun W' m' flow => flow.Fits P W' m' ∧ Here P W' m' L := by
  obtain ⟨hcondition, hs, hother⟩ : condition.Formed ∧ (s.Formed loop ∧ s.declared? = none) ∧
      ∀ s', other = some s' → s'.Formed loop ∧ s'.declared? = none := by
    cases other with
    | none => exact ⟨hformed.1, hformed.2, nofun⟩
    | some s' =>
      refine ⟨hformed.1, hformed.2.1, ?_⟩
      rintro _ ⟨⟩
      exact hformed.2.2
  obtain ⟨hkc, hks, hko⟩ : Known P L (condition.nodes L) ∧ Known P L (s.nodes L) ∧
      ∀ s', other = some s' → Known P L (s'.nodes L) := by
    cases other with
    | none => exact ⟨hknown.left, hknown.right, nofun⟩
    | some s' =>
      refine ⟨hknown.left, hknown.right.left, ?_⟩
      rintro _ ⟨⟩
      exact hknown.right.right
  refine Safe.bind (safe_evaluate ih h hL hkc hcondition) fun v W₁ m₁ _ hk₁ ⟨_, hhere⟩ => ?_
  cases v.truthy with
  | true => exact ihStmt.branch hk₁.frame hk₁.sound hhere hs hks
  | false =>
    cases other with
    | none => exact .pure hk₁.sound ⟨trivial, hhere⟩
    | some s' => exact ihStmt.branch hk₁.frame hk₁.sound hhere (hother s' rfl) (hko s' rfl)

theorem safe_while {condition : Expr} {s : Stmt} {loop : Bool}
    (ih : SafeExpr P n) (ihStmt : SafeStmt P n) (h : Sound P W m) (hL : Here P W m L)
    (hformed : (Stmt.while condition s).Formed loop)
    (hknown : Known P L ((Stmt.while condition s).nodes L)) :
    Safe P m.frame W m (Machine.execute (n + 1) (.while condition s))
      (callsOfStmt n m (.while condition s))
      fun W' m' flow => flow.Fits P W' m' ∧ Here P W' m' L := by
  refine Safe.bind (safe_evaluate ih h hL hknown.left hformed.1) fun v W₁ m₁ _ hk₁ ⟨_, hhere₁⟩ => ?_
  cases v.truthy with
  | false => exact .pure hk₁.sound ⟨trivial, hhere₁⟩
  | true =>
    refine Safe.bind (ihStmt.branch hk₁.frame hk₁.sound hhere₁ hformed.2 hknown.right) ?_
    rintro flow W₂ m₂ - hk₂ ⟨hflow, hhere₂⟩
    cases flow with
    | normal =>
      exact ihStmt.branch (hk₂.frame.trans hk₁.frame) hk₂.sound hhere₂ ⟨hformed, rfl⟩ hknown
    | «break» => exact .pure hk₂.sound ⟨trivial, hhere₂⟩
    | «return» v => exact .pure hk₂.sound ⟨hflow, hhere₂⟩

theorem safeStmt_succ (ih : SafeExpr P n) (ihStmt : SafeStmt P n) (ihStmts : SafeStmts P n) :
    SafeStmt P (n + 1) := by
  intro W m L loop s h hL hformed hknown hnext
  refine Safe.enter fun hM => ⟨⟨W, L, loop, h, hL.stands, hL.proper, hknown, hformed⟩, ?_⟩
  cases s with
  | expression e =>
    refine Safe.andThen (safe_evaluate ih h hL hknown hformed) fun _ _ _ _ hk ⟨_, hhere⟩ => ?_
    exact .pure hk.sound ⟨trivial, hhere⟩
  | print e =>
    refine Safe.andThen (safe_evaluate ih h hL hknown hformed) fun v _ _ _ hk ⟨_, hhere⟩ => ?_
    have hwrite := (@safe_write P none _ _ hk.sound v.text).imp fun _ _ _ hk' _ => hhere.kept hk'
    exact Safe.andThen hwrite.of_none fun _ _ _ _ hk' hhere' => .pure hk'.sound ⟨trivial, hhere'⟩
  | var name value => exact safe_var ih h hL hM hformed hknown hnext
  | block ss =>
    exact (Safe.imp (safe_block ihStmts h hL hM hformed hknown) fun _ _ _ hk hflow =>
      ⟨hflow, hL.kept hk⟩).of_none
  | ifElse condition s other => exact safe_ifElse ih ihStmt h hL hformed hknown
  | «while» condition s => exact safe_while ih ihStmt h hL hformed hknown
  | «break» keyword => exact .pure h ⟨trivial, hL⟩
  | «return» keyword value =>
    cases value with
    | none => exact .pure h ⟨trivial, hL⟩
    | some e =>
      refine Safe.andThen (safe_evaluate ih h hL hknown hformed) fun _ _ _ _ hk ⟨hv, hhere⟩ => ?_
      exact .pure hk.sound ⟨hv, hhere⟩
  | function d =>
    obtain ⟨name, f⟩ := d
    exact safe_function h hL hM hformed hknown hnext
  | «class» name superclass methods => exact safe_class ih h hL hformed hknown hnext

theorem safeStmts_succ (ih : SafeStmt P n) (ihStmts : SafeStmts P n) : SafeStmts P (n + 1) := by
  intro W m L loop ss h hL hformed hknown hnext
  refine Safe.enter fun _ => ⟨trivial, ?_⟩
  cases ss with
  | nil => exact .pure h trivial
  | cons s ss =>
    refine Safe.bind (ih h hL hformed.1 hknown.left hnext.head) ?_
    rintro flow W₁ m₁ - hk₁ ⟨hflow, hhere₁⟩
    cases flow with
    | normal =>
      rw [← hk₁.frame]
      exact ihStmts hk₁.sound hhere₁ hformed.2 (hknown.right.after hL s) hnext.tail
    | «break» => exact .pure hk₁.sound hflow
    | «return» v => exact .pure hk₁.sound hflow

end Lox
