import Lox.Proofs.Scope.Resolver
import Lox.Proofs.Scope.Shape

namespace Lox

namespace Walk

open Surroundings

variable {w w' w'' : Walk} {S S' S'' : Surroundings} {spots spots' : List Spot}

/-- A walk over what stands in a scope without adding to it. -/
structure Passes (w w' : Walk) (spots : List Spot) : Prop where
  tells : Tells w w' spots
  shape : w'.shape = w.shape

/-- A walk over what adds names to the scope it stands in, with the surroundings behind it. -/
structure Goes (w w' : Walk) (S' : Surroundings) (spots : List Spot) : Prop where
  tells : Tells w w' spots
  fits : S'.Fits w'.shape
  tail : w'.shape.tail = w.shape.tail

theorem Passes.trans (h : Passes w w' spots) (h' : Passes w' w'' spots') :
    Passes w w'' (spots ++ spots') :=
  ⟨h.tells.trans h'.tells, h'.shape.trans h.shape⟩

theorem Passes.goes (h : Passes w w' spots) (hfits : S.Fits w.shape) : Goes w w' S spots :=
  ⟨h.tells, h.shape.symm ▸ hfits, by rw [h.shape]⟩

theorem Goes.trans (h : Goes w w' S' spots) (h' : Goes w' w'' S'' spots') :
    Goes w w'' S'' (spots ++ spots') :=
  ⟨h.tells.trans h'.tells, h'.fits, h'.tail.trans h.tail⟩

theorem passes_nil (w : Walk) : Passes w w [] := ⟨.nil rfl, rfl⟩

/-- What was opened is closed again. -/
theorem Goes.leave {s : Scope} (h : Goes (w.enter s) w' S' spots) : Passes w w'.leave spots :=
  ⟨h.tells.congr rfl (misuses_leave w'), by rw [shape_leave, h.tail]; rfl⟩

theorem Passes.leave {s : Scope} (h : Passes (w.enter s) w' spots) : Passes w w'.leave spots :=
  ⟨h.tells.congr rfl (misuses_leave w'), by rw [shape_leave, h.shape]; rfl⟩

/-- A name that has been declared in the innermost scope is not declared again. -/
theorem scopes_declare_of_declares (hS : S.Level) (h : S.Fits w.shape) {name : Token}
    (hname : S.Declares name) : (w.declare name).scopes = w.scopes := by
  unfold declare
  split
  next => rfl
  next s outer hw =>
    have hslot := (declares_of_slot? hw hS h name).mpr hname
    obtain ⟨slot, hslot⟩ := Option.isSome_iff_exists.mp hslot
    rw [hslot]
    rfl

theorem goes_introduce (hS : S.Level) (h : S.Fits w.shape) (name : Token) :
    Goes w (w.introduce name) (S.add [name]) [⟨.declaration name, S⟩] where
  tells := (tells_declare hS h name).congr rfl (misuses_define _ name)
  fits := fits_add_define hS (fits_initializer_declare hS h name)
  tail := (tail_define _ name).trans (tail_declare w name)

theorem goes_introduceAll (method? : Option Token) (S : Surroundings) (params : List Token)
    {before : List Token} (h : Fits (.function method? before :: S) w.shape) :
    Goes w (params.foldl introduce w) (.function method? (before ++ params) :: S)
      (spotsOfParameters method? S before params) := by
  induction params generalizing before w with
  | nil => exact (passes_nil w).goes (by simpa using h)
  | cons t ts ih =>
    have ht := goes_introduce (S := .function method? before :: S) trivial h t
    have hts := ih ht.fits
    rw [List.append_assoc] at hts
    exact ht.trans hts

theorem fits_block (S : Surroundings) (w : Walk) :
    Fits (.block [] :: S) (w.enter []).shape := by
  refine ⟨rfl, fun name => ?_⟩
  have hlevel : Level (.block [] :: S) := trivial
  have hinitializes := hlevel.not_initializes name
  simp [Scope.shape, Declares, names?, hinitializes]

theorem fits_function (method? : Option Token) (S : Surroundings) (w : Walk) :
    Fits (.function method? [] :: S) (w.enter []).shape := by
  refine ⟨rfl, fun name => ?_⟩
  have hlevel : Level (.function method? [] :: S) := trivial
  have hinitializes := hlevel.not_initializes name
  simp [Scope.shape, Declares, names?, hinitializes]

theorem fits_class (superclass? : Option Expr) (hS : S.Level) (h : S.Fits w.shape) :
    Fits (.class superclass? :: S) w.shape := by
  have hinitializes : ∀ name, Initializes (.class superclass? :: S) name ↔ S.Initializes name := by
    intro name
    refine iff_of_false ?_ (hS.not_initializes name)
    rintro ⟨t, outer, heq, -⟩
    exact Layer.noConfusion (List.cons.inj heq).1
  cases hw : w.shape with
  | nil => rwa [hw] at h
  | cons s outer =>
    rw [hw] at h
    refine ⟨h.1, fun name => ?_⟩
    rw [hinitializes]
    exact h.2 name

end Walk

open Walk in
mutual

theorem Expr.walk_passes (S : Surroundings) : (e : Expr) → {w : Walk} → S.Fits w.shape →
    Passes w (e.walk S.context w) (e.spots S)
  | .literal _, w, _ => passes_nil w
  | .grouping e, _, h => e.walk_passes S h
  | .unary _ e, _, h => e.walk_passes S h
  | .binary e₁ _ e₂, _, h =>
    have h₁ := e₁.walk_passes S h
    h₁.trans (e₂.walk_passes S (h₁.goes h).fits)
  | .logical e₁ _ e₂, _, h =>
    have h₁ := e₁.walk_passes S h
    h₁.trans (e₂.walk_passes S (h₁.goes h).fits)
  | .variable id name, w, h => ⟨tells_readVariable h id name, shape_readVariable w id name⟩
  | .assign id name e, _, h =>
    have h₁ := e.walk_passes S h
    h₁.trans ⟨tells_assignVariable (h₁.goes h).fits id name, shape_assignVariable _ id name⟩
  | .call e _ es, _, h =>
    have h₁ := e.walk_passes S h
    h₁.trans (walkArguments_passes S es (h₁.goes h).fits)
  | .get e _, _, h => e.walk_passes S h
  | .set e₁ _ e₂, _, h =>
    have h₂ := e₂.walk_passes S h
    h₂.trans (e₁.walk_passes S (h₂.goes h).fits)
  | .this id keyword, w, _ => ⟨tells_readThis S w id keyword, shape_readThis w _ id keyword⟩
  | .super id keyword _, w, _ => ⟨tells_readSuper S w id keyword, shape_readSuper w _ id keyword⟩
  | .function f, w, _ => f.walk_passes none S w

theorem walkArguments_passes (S : Surroundings) : (es : List Expr) → {w : Walk} →
    S.Fits w.shape → Passes w (walkArguments S.context w es) (spotsOfAll S es)
  | [], w, _ => passes_nil w
  | e :: es, _, h =>
    have h₁ := e.walk_passes S h
    h₁.trans (walkArguments_passes S es (h₁.goes h).fits)

/-- Nothing that is pending around a function is pending in it. -/
theorem Function.walk_passes (method? : Option Token) (S : Surroundings) : (f : Function) →
    (w : Walk) → Passes w (f.walk (Surroundings.context (.function method? [] :: S)) w)
      (f.spots method? S)
  | ⟨params, body⟩, w =>
    have hparams := goes_introduceAll method? S params (fits_function method? S w)
    have hbody := walkStatements_goes (.function method? params :: S) trivial body hparams.fits
    (hparams.trans hbody).leave

theorem Stmt.walk_goes (S : Surroundings) (hS : S.Level) : (s : Stmt) → {w : Walk} →
    S.Fits w.shape → Goes w (s.walk S.context w) (S.add s.adds) (s.spots S)
  | .expression e, _, h => S.add_nil.symm ▸ (e.walk_passes S h).goes h
  | .print e, _, h => S.add_nil.symm ▸ (e.walk_passes S h).goes h
  | .var name none, _, h => goes_introduce hS h name
  | .var name (some e), w, h => by
    have hdeclare := fits_initializer_declare hS h name
    have he := e.walk_passes (.initializer name :: S) hdeclare
    exact {
      tells := ((tells_declare hS h name).trans he.tells).congr rfl (misuses_define _ name)
      fits := fits_add_define hS (he.goes hdeclare).fits
      tail := (tail_define _ name).trans ((he.goes hdeclare).tail.trans (tail_declare w name)) }
  | .block ss, w, h => by
    have hss := walkStatements_goes (.block [] :: S) trivial ss (fits_block S w)
    exact S.add_nil.symm ▸ hss.leave.goes h
  | .ifElse e s none, _, h =>
    have he := e.walk_passes S h
    (he.goes h).trans (s.walk_goes S hS (he.goes h).fits)
  | .ifElse e s (some s'), _, h => by
    have he := (e.walk_passes S h).goes h
    have hs := s.walk_goes S hS he.fits
    have hs' := s'.walk_goes (S.add s.adds) (hS.add s.adds) hs.fits
    rw [Surroundings.add_add, Surroundings.context_add] at hs'
    exact he.trans (hs.trans hs')
  | .while e s, _, h =>
    have he := e.walk_passes S h
    (he.goes h).trans (s.walk_goes S hS (he.goes h).fits)
  | .break _, w, h => S.add_nil.symm ▸ (passes_nil w).goes h
  | .return keyword none, w, h =>
    have hreturn : Passes w _ _ :=
      ⟨(tells_return S w keyword).1, shape_leaveFunction w S.context.inFunction keyword⟩
    S.add_nil.symm ▸ hreturn.goes h
  | .return keyword (some e), w, h => by
    have hreturn : Passes w _ _ :=
      ⟨(tells_return S w keyword).2, (shape_returnValue _ S.context.inFunction keyword).trans
        (shape_leaveFunction w S.context.inFunction keyword)⟩
    exact S.add_nil.symm ▸ (hreturn.trans (e.walk_passes S (hreturn.goes h).fits)).goes h
  | .function ⟨name, f⟩, w, h => by
    have hname := goes_introduce hS h name
    have hf := f.walk_passes none (S.add [name]) (w.introduce name)
    rw [Surroundings.context_function, Surroundings.context_add] at hf
    exact hname.trans (hf.goes hname.fits)
  | .class name none ms, w, h => by
    have hname := goes_introduce hS h name
    have hms := walkMethods_passes (.class none :: S.add [name]) ms
      ((w.introduce name).enter (Scope.implicit "this" name.line))
    rw [Surroundings.context_class_none, Surroundings.context_add] at hms
    exact hname.trans (hms.leave.goes hname.fits)
  | .class name (some e) ms, w, h => by
    have hname := goes_introduce hS h name
    have hcheck : Passes (w.introduce name) _ _ :=
      ⟨tells_checkSuperclass (S.add [name]) _ name e, shape_checkSuperclass _ name e⟩
    have he := e.walk_passes (.class (some e) :: S.add [name])
      (fits_class (some e) (hS.add [name]) (hcheck.goes hname.fits).fits)
    have hms := walkMethods_passes (.class (some e) :: S.add [name]) ms
      (((e.walk (Surroundings.context (.class (some e) :: S.add [name]))
        ((w.introduce name).checkSuperclass name e)).enter (Scope.implicit "super" name.line)).enter
          (Scope.implicit "this" name.line))
    have hclass := hcheck.trans (he.trans hms.leave.leave)
    rw [Surroundings.context_class_some, Surroundings.context_add] at hclass
    exact hname.trans (hclass.goes hname.fits)

theorem walkStatements_goes (S : Surroundings) (hS : S.Level) : (ss : List Stmt) → {w : Walk} →
    S.Fits w.shape → Goes w (walkStatements S.context w ss) (S.add (ss.flatMap Stmt.adds))
      (spotsOfStatements S ss)
  | [], w, h => S.add_nil.symm ▸ (passes_nil w).goes h
  | s :: ss, _, h => by
    have hs := s.walk_goes S hS h
    have hss := walkStatements_goes (S.add s.adds) (hS.add s.adds) ss hs.fits
    rw [Surroundings.add_add, Surroundings.context_add] at hss
    exact hs.trans hss

theorem walkMethods_passes (S : Surroundings) : (ms : List Method) → (w : Walk) →
    Passes w (walkMethods S.context w ms) (spotsOfMethods S ms)
  | [], w => passes_nil w
  | ⟨name, f⟩ :: ms, w => (f.walk_passes (some name) S w).trans (walkMethods_passes S ms _)

end

/-- Each spot has at most one fault. -/
theorem Faulty.unique {spot : Spot} {d d' : Diagnostic} (h : Faulty spot d) (h' : Faulty spot d') :
    d = d' := by
  cases h with
  | superOutsideClass h =>
    cases h' with
    | superOutsideClass => rfl
    | superWithoutSuperclass h' => simp [h] at h'
  | superWithoutSuperclass h =>
    cases h' with
    | superOutsideClass h' => simp [h] at h'
    | superWithoutSuperclass => rfl
  | returnOutsideFunction h =>
    cases h' with
    | returnOutsideFunction => rfl
    | valueFromInitializer h' => simp [h] at h'
  | valueFromInitializer h =>
    cases h' with
    | returnOutsideFunction h' => simp [h] at h'
    | valueFromInitializer => rfl
  | _ => cases h'; rfl

/-- The reports of a program whose unread locals are allowed are those of its faulty spots. -/
theorem reports_misuses (program : List Stmt) :
    Reports (spotsOfStatements [] program) (walkStatements .top ⟨[], #[]⟩ program).misuses := by
  have hgoes := walkStatements_goes [] trivial program (w := ⟨[], #[]⟩) rfl
  obtain ⟨ds, hds, hreports⟩ := hgoes.tells
  have hmisuses : (walkStatements .top ⟨[], #[]⟩ program).misuses = ds := hds
  exact hmisuses ▸ hreports

theorem resolve_allow_eq (program : List Stmt) :
    (∃ r, resolve .allow program = .ok r ∧
      (walkStatements .top ⟨[], #[]⟩ program).misuses = []) ∨
    (resolve .allow program = .error (walkStatements .top ⟨[], #[]⟩ program).misuses ∧
      (walkStatements .top ⟨[], #[]⟩ program).misuses ≠ []) := by
  rw [resolve_eq_verdict, verdict]
  split
  next h => exact .inl ⟨_, rfl, h⟩
  next h => exact .inr ⟨rfl, h⟩

/-- A program is accepted exactly when none of its spots is faulty. One that is rejected is
rejected with one report for each faulty spot, in the order of the spots. A declaration that is
faulty leaves the scopes as they are. -/
theorem resolve_exact (program : List Stmt) :
    ((∃ r, resolve .allow program = .ok r) ↔
        ∀ spot ∈ spotsOfStatements [] program, ∀ d, ¬Faulty spot d) ∧
      (∀ ds, resolve .allow program = .error ds → Reports (spotsOfStatements [] program) ds) ∧
      (∀ spot d d', Faulty spot d → Faulty spot d' → d = d') ∧
      ∀ (S : Surroundings) (w : Walk) (name : Token), S.Level → S.Fits w.shape →
        S.Declares name → (w.declare name).scopes = w.scopes := by
  have hreports := reports_misuses program
  refine ⟨?_, fun ds hds => ?_, fun _ _ _ => Faulty.unique,
    fun _ _ _ hS h hname => Walk.scopes_declare_of_declares hS h hname⟩
  · rw [← hreports.eq_nil_iff]
    obtain ⟨r, hr, hnil⟩ | ⟨herror, hne⟩ := resolve_allow_eq program
    · exact iff_of_true ⟨r, hr⟩ hnil
    · exact iff_of_false (by simp [herror]) hne
  · obtain ⟨r, hr, -⟩ | ⟨herror, -⟩ := resolve_allow_eq program
    · simp [hr] at hds
    · rw [herror] at hds
      exact Except.error.inj hds ▸ hreports

end Lox
