import Lox.Proofs.Scope.Spot
import Lox.Scope.Resolution

namespace Lox

/-- One report for each faulty spot, in order. -/
inductive Reports : List Spot → List Diagnostic → Prop where
  | nil : Reports [] []
  | faulty {spot d spots ds} : Faulty spot d → Reports spots ds → Reports (spot :: spots) (d :: ds)
  | sound {spot spots ds} : (∀ d, ¬Faulty spot d) → Reports spots ds → Reports (spot :: spots) ds

theorem Reports.append {spots spots' : List Spot} {ds ds' : List Diagnostic}
    (h : Reports spots ds) (h' : Reports spots' ds') : Reports (spots ++ spots') (ds ++ ds') := by
  induction h with
  | nil => exact h'
  | faulty hspot _ ih => exact .faulty hspot ih
  | sound hspot _ ih => exact .sound hspot ih

theorem Reports.eq_nil_iff {spots : List Spot} {ds : List Diagnostic} (h : Reports spots ds) :
    ds = [] ↔ ∀ spot ∈ spots, ∀ d, ¬Faulty spot d := by
  induction h with
  | nil => simp
  | @faulty spot d _ _ hspot _ _ =>
    refine ⟨nofun, fun hall => ?_⟩
    exact absurd hspot (hall spot (by simp) d)
  | sound hspot _ ih => simp [ih, hspot]

/-- What matters of a scope for faults: its names, and which of them are ready. -/
def Scope.shape (s : Scope) : List (String × Bool) := s.map fun b => (b.name, b.ready)

namespace Walk

def shape (w : Walk) : List (List (String × Bool)) := w.scopes.map Scope.shape

/-- What has been reported that stops a program in any case. -/
def misuses (w : Walk) : List Diagnostic := w.findings.toList.filterMap (Finding.error? .allow)

/-- From `w` to `w'` the faults of these spots have been reported. -/
def Tells (w w' : Walk) (spots : List Spot) : Prop :=
  ∃ ds, w'.misuses = w.misuses ++ ds ∧ Reports spots ds

variable {w w' w'' : Walk} {spots spots' : List Spot} {spot : Spot} {d : Diagnostic}

theorem Tells.nil (h : w'.misuses = w.misuses) : Tells w w' [] := ⟨[], by simp [h], .nil⟩

theorem Tells.faulty (h : w'.misuses = w.misuses ++ [d]) (hd : Faulty spot d) :
    Tells w w' [spot] := ⟨[d], h, .faulty hd .nil⟩

theorem Tells.sound (h : w'.misuses = w.misuses) (hspot : ∀ d, ¬Faulty spot d) :
    Tells w w' [spot] := ⟨[], by simp [h], .sound hspot .nil⟩

theorem Tells.trans (h : Tells w w' spots) (h' : Tells w' w'' spots') :
    Tells w w'' (spots ++ spots') := by
  obtain ⟨ds, hds, hreports⟩ := h
  obtain ⟨ds', hds', hreports'⟩ := h'
  exact ⟨ds ++ ds', by rw [hds', hds, List.append_assoc], hreports.append hreports'⟩

/-- Steps that report nothing may stand around. -/
theorem Tells.congr {v v' : Walk} (h : Tells w w' spots) (hv : w.misuses = v.misuses)
    (hv' : v'.misuses = w'.misuses) : Tells v v' spots := by
  obtain ⟨ds, hds, hreports⟩ := h
  exact ⟨ds, by rw [hv', hds, hv], hreports⟩

@[simp] theorem misuses_misuse (w : Walk) (line : Nat) (fault : ScopeFault) :
    (w.misuse line fault).misuses = w.misuses ++ [⟨line, .scope fault⟩] := by
  simp [misuses, misuse, find, Finding.error?]

@[simp] theorem misuses_enter (w : Walk) (s : Scope) : (w.enter s).misuses = w.misuses := rfl

@[simp] theorem shape_misuse (w : Walk) (line : Nat) (fault : ScopeFault) :
    (w.misuse line fault).shape = w.shape := rfl

@[simp] theorem shape_enter (w : Walk) (s : Scope) : (w.enter s).shape = s.shape :: w.shape := rfl

theorem misuses_leave (w : Walk) : w.leave.misuses = w.misuses := by
  have hfold : ∀ (ds : List Diagnostic) (w : Walk),
      (ds.foldl (fun w d => w.find (.unread d)) w).misuses = w.misuses := by
    intro ds
    induction ds with
    | nil => exact fun _ => rfl
    | cons d ds ih =>
      intro w
      rw [List.foldl_cons, ih]
      simp [misuses, find, Finding.error?]
  unfold leave
  split
  · rfl
  next s outer _ => exact hfold s.unread { w with scopes := outer }

theorem shape_leave (w : Walk) : w.leave.shape = w.shape.tail := by
  have hfold : ∀ (ds : List Diagnostic) (w : Walk),
      (ds.foldl (fun w d => w.find (.unread d)) w).scopes = w.scopes := by
    intro ds
    induction ds with
    | nil => exact fun _ => rfl
    | cons d ds ih =>
      intro w
      rw [List.foldl_cons, ih]
      rfl
  unfold leave
  split
  next h => simp [shape, h]
  next s outer h => simp [shape, hfold, h]

theorem shape_use (s : Scope) (slot : Nat) : (s.use slot).shape = s.shape := by
  refine List.ext_getElem? fun i => ?_
  rw [Scope.shape, Scope.shape, Scope.use, List.getElem?_map, List.getElem?_map,
    List.getElem?_modify]
  cases s[i]? <;> simp
  split <;> exact ⟨rfl, rfl⟩

theorem shape_useAt (scopes : List Scope) (a : Address) :
    (Scope.useAt scopes a).map Scope.shape = scopes.map Scope.shape := by
  refine List.ext_getElem? fun i => ?_
  rw [Scope.useAt, List.getElem?_map, List.getElem?_map, List.getElem?_modify]
  cases scopes[i]? <;> simp
  split
  · exact shape_use _ _
  · rfl

@[simp] theorem misuses_read (w : Walk) (id : Nat) (name : Token) :
    (w.read id name).misuses = w.misuses := by
  unfold read
  split <;> simp [misuses, find, Finding.error?]

@[simp] theorem shape_read (w : Walk) (id : Nat) (name : Token) :
    (w.read id name).shape = w.shape := by
  unfold read
  split
  · rfl
  · exact shape_useAt _ _

@[simp] theorem misuses_refer (w : Walk) (id : Nat) (name : Token) :
    (w.refer id name).misuses = w.misuses := by
  unfold refer
  split <;> simp [misuses, find, Finding.error?]

@[simp] theorem shape_refer (w : Walk) (id : Nat) (name : Token) :
    (w.refer id name).shape = w.shape := by
  unfold refer
  split <;> rfl

end Walk

theorem Scope.slot?_isSome_iff (s : Scope) (name : String) :
    (s.slot? name).isSome ↔ ∃ ready, (name, ready) ∈ s.shape := by
  simp only [slot?, List.findIdx?_isSome, List.any_eq_true, decide_eq_true_eq, shape, List.mem_map,
    Prod.mk.injEq]
  constructor
  · rintro ⟨b, hb, rfl⟩
    exact ⟨b.ready, b, hb, rfl, rfl⟩
  · rintro ⟨_, b, hb, rfl, -⟩
    exact ⟨b, hb, rfl⟩

theorem Scope.isPending_iff (s : Scope) (name : String) :
    s.isPending name ↔ (name, false) ∈ s.shape := by
  simp only [isPending, List.any_eq_true, Bool.and_eq_true, decide_eq_true_eq, Bool.not_eq_true',
    shape, List.mem_map, Prod.mk.injEq]

namespace Surroundings

variable {S : Surroundings} {t name : Token} {names : List Token}

/-- The innermost scope has the names of the surroundings, and the one whose initializer is at hand;
that is the only one that is not ready. -/
def Fits (S : Surroundings) : List (List (String × Bool)) → Prop
  | [] => S.names? = none
  | s :: _ => S.names?.isSome ∧ ∀ name : Token,
    ((∃ ready, (name.lexeme, ready) ∈ s) ↔ S.Declares name ∨ S.Initializes name) ∧
      ((name.lexeme, false) ∈ s ↔ S.Initializes name)

/-- Are these the surroundings of a statement? -/
def Level : Surroundings → Prop
  | [] => True
  | .block _ :: _ => True
  | .function _ _ :: _ => True
  | _ => False

theorem Level.not_initializes (h : S.Level) (name : Token) : ¬S.Initializes name := by
  rintro ⟨t, outer, rfl, -⟩
  exact h

theorem Level.add (h : S.Level) (names : List Token) : (S.add names).Level := by
  cases S with
  | nil => exact trivial
  | cons layer S => cases layer <;> first | exact trivial | exact h.elim

theorem Level.names?_add (h : S.Level) (names : List Token) :
    (S.add names).names? = S.names?.map (· ++ names) := by
  cases S with
  | nil => rfl
  | cons layer S => cases layer <;> first | rfl | exact h.elim

theorem add_nil (S : Surroundings) : S.add [] = S := by
  cases S with
  | nil => rfl
  | cons layer S => cases layer <;> simp [Surroundings.add]

theorem add_add (S : Surroundings) (names names' : List Token) :
    (S.add names).add names' = S.add (names ++ names') := by
  cases S with
  | nil => rfl
  | cons layer S => cases layer <;> simp [Surroundings.add]

theorem function?_add (S : Surroundings) (names : List Token) :
    (S.add names).function? = S.function? := by
  cases S with
  | nil => rfl
  | cons layer S => cases layer <;> rfl

theorem class?_add (S : Surroundings) (names : List Token) :
    (S.add names).class? = S.class? := by
  cases S with
  | nil => rfl
  | cons layer S => cases layer <;> rfl

/-- The context of a walk in these surroundings. -/
def context (S : Surroundings) : Context where
  inFunction :=
    match S.function? with
    | none => .none
    | some none => .function
    | some (some name) => methodContext name
  inClass :=
    match S.class? with
    | none => .none
    | some none => .base
    | some (some _) => .subclass

@[simp] theorem context_add (S : Surroundings) (names : List Token) :
    (S.add names).context = S.context := by
  simp only [context, function?_add, class?_add]

theorem context_function (S : Surroundings) (names : List Token) :
    context (.function none names :: S) = { S.context with inFunction := .function } := rfl

theorem context_class_none (S : Surroundings) :
    context (.class none :: S) = { S.context with inClass := .base } := rfl

theorem context_class_some (S : Surroundings) (superclass : Expr) :
    context (.class (some superclass) :: S) = { S.context with inClass := .subclass } := rfl

theorem not_declares_of_names?_eq_none (h : S.names? = none) : ¬S.Declares name := by
  rintro ⟨names, hnames, -⟩
  simp [h] at hnames

theorem Declares.congr (h : S.Declares t) (ht : t.lexeme = name.lexeme) : S.Declares name := by
  obtain ⟨names, hnames, t', ht', heq⟩ := h
  exact ⟨names, hnames, t', ht', heq.trans ht⟩

theorem declares_initializer : Declares (.initializer t :: S) name ↔ S.Declares name := Iff.rfl

theorem initializes_initializer : Initializes (.initializer t :: S) name ↔
    t.lexeme = name.lexeme ∧ S.names?.isSome ∧ ¬S.Declares t := by
  constructor
  · rintro ⟨t', outer, heq, h⟩
    obtain ⟨heq', rfl⟩ := List.cons.inj heq
    obtain rfl := Layer.initializer.inj heq'
    exact h
  · exact fun h => ⟨t, S, rfl, h⟩

theorem declares_add (hS : S.Level) (hsome : S.names?.isSome) :
    (S.add [t]).Declares name ↔ S.Declares name ∨ t.lexeme = name.lexeme := by
  obtain ⟨names, hnames⟩ := Option.isSome_iff_exists.mp hsome
  rw [Declares, Declares, hS.names?_add, hnames]
  simp [or_and_right, exists_or]

end Surroundings

namespace Walk

open Surroundings

variable {w : Walk} {S : Surroundings} {name : Token}

theorem shape_eq_nil_iff : w.shape = [] ↔ w.scopes = [] := by simp [shape]

theorem declares_of_slot? {s : Scope} {outer : List Scope} (hw : w.scopes = s :: outer)
    (hS : S.Level) (h : S.Fits w.shape) (name : Token) :
    (s.slot? name.lexeme).isSome ↔ S.Declares name := by
  rw [shape, hw] at h
  rw [Scope.slot?_isSome_iff, (h.2 name).1]
  simp [hS.not_initializes name]

theorem shape_declare (s : Scope) (name : String) (line : Nat) :
    (s.declare name line).shape = s.shape ++ [(name, false)] := by
  simp [Scope.shape, Scope.declare]

theorem tells_declare (hS : S.Level) (h : S.Fits w.shape) (name : Token) :
    Tells w (w.declare name) [⟨.declaration name, S⟩] := by
  unfold declare
  split
  next hw =>
    rw [shape, hw] at h
    refine .sound rfl fun d hd => ?_
    cases hd with
    | declaredTwice hdeclares => exact not_declares_of_names?_eq_none h hdeclares
  next s outer hw =>
    have hslot := declares_of_slot? hw hS h name
    split
    next slot hs => exact .faulty (misuses_misuse _ _ _) (.declaredTwice (hslot.mp (by simp [hs])))
    next hs =>
      refine .sound rfl fun d hd => ?_
      cases hd with
      | declaredTwice hdeclares => simpa [hs] using hslot.mpr hdeclares

theorem tail_declare (w : Walk) (name : Token) : (w.declare name).shape.tail = w.shape.tail := by
  unfold declare
  split
  · rfl
  next s outer hw =>
    split
    · rfl
    · simp [shape, hw]

theorem fits_initializer_declare (hS : S.Level) (h : S.Fits w.shape) (name : Token) :
    Fits (.initializer name :: S) (w.declare name).shape := by
  unfold declare
  split
  next hw =>
    rw [shape, hw] at h ⊢
    exact h
  next s outer hw =>
    have hslot := declares_of_slot? hw hS h name
    split
    next slot hs =>
      have hdeclares : S.Declares name := hslot.mp (by simp [hs])
      rw [shape_misuse]
      rw [shape, hw] at h ⊢
      refine ⟨h.1, fun x => ?_⟩
      rw [initializes_initializer, declares_initializer]
      have hx := h.2 x
      simp only [hS.not_initializes x, or_false, iff_false] at hx
      simp [hx, hdeclares]
    next hs =>
      have hdeclares : ¬S.Declares name := fun h => by simpa [hs] using hslot.mpr h
      rw [shape, hw] at h
      obtain ⟨hsome, hall⟩ := h
      refine ⟨hsome, fun x => ?_⟩
      obtain ⟨hany, hpending⟩ := hall x
      simp only [hS.not_initializes x, or_false, iff_false] at hany hpending
      rw [initializes_initializer, declares_initializer, shape_declare]
      simp only [List.mem_append, List.mem_singleton, Prod.mk.injEq, exists_or, hany, hpending,
        false_or, hsome, hdeclares, not_false_eq_true, and_true, exists_eq_right]
      exact ⟨by rw [eq_comm], eq_comm⟩

theorem shape_define (s : Scope) (name : String) :
    (s.define name).shape = s.shape.map fun (other, ready) => (other, ready || other = name) := by
  simp only [Scope.shape, Scope.define, List.map_map]
  refine List.map_congr_left fun b _ => ?_
  simp only [Function.comp_apply]
  split <;> simp_all

theorem mem_shape_define (s : Scope) (name : String) {x : String} {ready : Bool} :
    (x, ready) ∈ (s.define name).shape ↔
      ∃ before, (x, before) ∈ s.shape ∧ ready = (before || decide (x = name)) := by
  rw [shape_define, List.mem_map]
  constructor
  · rintro ⟨⟨_, before⟩, hmem, heq⟩
    obtain ⟨rfl, rfl⟩ := Prod.mk.inj heq
    exact ⟨before, hmem, rfl⟩
  · rintro ⟨before, hmem, rfl⟩
    exact ⟨(x, before), hmem, rfl⟩

theorem tail_define (w : Walk) (name : Token) : (w.define name).shape.tail = w.shape.tail := by
  unfold define
  split
  · rfl
  next s outer hw => simp [shape, hw]

@[simp] theorem misuses_define (w : Walk) (name : Token) :
    (w.define name).misuses = w.misuses := by
  unfold define
  split <;> rfl

theorem fits_add_define (hS : S.Level) (h : Fits (.initializer name :: S) w.shape) :
    Fits (S.add [name]) (w.define name).shape := by
  unfold define
  split
  next hw =>
    rw [shape, hw] at h ⊢
    show (S.add [name]).names? = none
    have hnone : S.names? = none := h
    rw [hS.names?_add, hnone]
    rfl
  next s outer hw =>
    rw [shape, hw] at h
    obtain ⟨hsome, hall⟩ := h
    have hsome : S.names?.isSome := hsome
    refine ⟨by rw [hS.names?_add]; simpa using hsome, fun x => ?_⟩
    obtain ⟨hany, hpending⟩ := hall x
    rw [initializes_initializer] at hany hpending
    rw [declares_initializer] at hany
    constructor
    · rw [declares_add hS hsome]
      simp only [(hS.add [name]).not_initializes x, or_false, mem_shape_define]
      have hex : (∃ ready, ∃ before, (x.lexeme, before) ∈ s.shape ∧
          ready = (before || decide (x.lexeme = name.lexeme))) ↔
            ∃ before, (x.lexeme, before) ∈ s.shape := by
        constructor
        · rintro ⟨_, before, hmem, -⟩
          exact ⟨before, hmem⟩
        · rintro ⟨before, hmem⟩
          exact ⟨_, before, hmem, rfl⟩
      rw [hex, hany]
      constructor
      · exact fun h => h.imp_right And.left
      · rintro (h | h)
        · exact .inl h
        · by_cases hdeclares : S.Declares name
          · exact .inl (hdeclares.congr h)
          · exact .inr ⟨h, hsome, hdeclares⟩
    · simp only [(hS.add [name]).not_initializes x, iff_false, mem_shape_define]
      rintro ⟨before, hmem, heq⟩
      obtain ⟨rfl, hne⟩ : before = false ∧ decide (x.lexeme = name.lexeme) = false := by
        simpa using heq.symm
      exact of_decide_eq_false hne (hpending.mp hmem).1.symm

theorem isPending_iff (h : S.Fits w.shape) (name : Token) :
    w.isPending name ↔ S.Initializes name := by
  unfold isPending
  split
  next hw =>
    rw [shape, hw] at h
    have hnone : S.names? = none := h
    simp only [Bool.false_eq_true, false_iff]
    rintro ⟨t, outer, rfl, -, hsome, -⟩
    have hnone : Surroundings.names? outer = none := hnone
    simp [hnone] at hsome
  next s outer hw =>
    rw [shape, hw] at h
    rw [Scope.isPending_iff]
    exact (h.2 name).2

theorem tells_readVariable (h : S.Fits w.shape) (id : Nat) (name : Token) :
    Tells w (w.readVariable id name) [⟨.read name, S⟩] := by
  have hpending := isPending_iff h name
  unfold readVariable
  split
  next hp => exact .faulty (by simp) (.readInOwnInitializer (hpending.mp hp))
  next hp =>
    refine .sound (by simp) fun d hd => ?_
    cases hd with
    | readInOwnInitializer h => exact hp (hpending.mpr h)

@[simp] theorem shape_readVariable (w : Walk) (id : Nat) (name : Token) :
    (w.readVariable id name).shape = w.shape := by
  unfold readVariable
  split <;> simp

theorem tells_assignVariable (h : S.Fits w.shape) (id : Nat) (name : Token) :
    Tells w (w.assignVariable id name) [⟨.assignment name, S⟩] := by
  have hpending := isPending_iff h name
  unfold assignVariable
  split
  next hp => exact .faulty (by simp) (.assignedInOwnInitializer (hpending.mp hp))
  next hp =>
    refine .sound (by simp) fun d hd => ?_
    cases hd with
    | assignedInOwnInitializer h => exact hp (hpending.mpr h)

@[simp] theorem shape_assignVariable (w : Walk) (id : Nat) (name : Token) :
    (w.assignVariable id name).shape = w.shape := by
  unfold assignVariable
  split <;> simp

theorem tells_readThis (S : Surroundings) (w : Walk) (id : Nat) (keyword : Token) :
    Tells w (w.readThis S.context.inClass id keyword) [⟨.this keyword, S⟩] := by
  unfold readThis Surroundings.context
  cases hclass : S.class? with
  | none => exact .faulty (by simp) (.thisOutsideClass hclass)
  | some superclass? =>
    have hsound : ∀ d, ¬Faulty ⟨.this keyword, S⟩ d := by
      intro d hd
      cases hd with
      | thisOutsideClass h => simp [hclass] at h
    cases superclass? <;> exact .sound (by simp) hsound

theorem shape_readThis (w : Walk) (c : ClassContext) (id : Nat) (keyword : Token) :
    (w.readThis c id keyword).shape = w.shape := by
  cases c <;> simp [readThis]

theorem tells_readSuper (S : Surroundings) (w : Walk) (id : Nat) (keyword : Token) :
    Tells w (w.readSuper S.context.inClass id keyword) [⟨.super keyword, S⟩] := by
  unfold readSuper Surroundings.context
  cases hclass : S.class? with
  | none => exact .faulty (by simp) (.superOutsideClass hclass)
  | some superclass? =>
    cases superclass? with
    | none => exact .faulty (by simp) (.superWithoutSuperclass hclass)
    | some superclass =>
      refine .sound (by simp) fun d hd => ?_
      cases hd with
      | superOutsideClass h => simp [hclass] at h
      | superWithoutSuperclass h => simp [hclass] at h

theorem shape_readSuper (w : Walk) (c : ClassContext) (id : Nat) (keyword : Token) :
    (w.readSuper c id keyword).shape = w.shape := by
  cases c <;> simp [readSuper]

theorem methodContext_eq_initializer {name : Token} :
    methodContext name = .initializer ↔ name.lexeme = initializerName := by
  unfold methodContext
  split <;> simp_all

theorem methodContext_ne_none (name : Token) : methodContext name ≠ .none := by
  unfold methodContext
  split <;> simp

/-- A `return` is at fault outside of functions and, with a value, in an initializer. -/
theorem tells_return (S : Surroundings) (w : Walk) (keyword : Token) :
    Tells w (w.leaveFunction S.context.inFunction keyword) [⟨.return keyword false, S⟩] ∧
      Tells w ((w.leaveFunction S.context.inFunction keyword).returnValue S.context.inFunction
        keyword) [⟨.return keyword true, S⟩] := by
  unfold leaveFunction returnValue Surroundings.context
  cases hfunction : S.function? with
  | none =>
    exact ⟨.faulty (by simp) (.returnOutsideFunction hfunction),
      .faulty (by simp) (.returnOutsideFunction hfunction)⟩
  | some method? =>
    have hinside : ∀ d, ¬Faulty ⟨.return keyword false, S⟩ d := by
      intro d hd
      cases hd with
      | returnOutsideFunction h => simp [hfunction] at h
    cases method? with
    | none =>
      refine ⟨.sound (by simp) hinside, .sound (by simp) fun d hd => ?_⟩
      cases hd with
      | returnOutsideFunction h => simp [hfunction] at h
      | valueFromInitializer h => simp [hfunction] at h
    | some name =>
      simp only [methodContext_ne_none, if_false, methodContext_eq_initializer]
      refine ⟨.sound rfl hinside, ?_⟩
      split
      next hname => exact .faulty (by simp) (.valueFromInitializer hfunction hname)
      next hname =>
        refine .sound rfl fun d hd => ?_
        cases hd with
        | returnOutsideFunction h => simp [hfunction] at h
        | valueFromInitializer h hname' =>
          obtain rfl := Option.some.inj (Option.some.inj (hfunction.symm.trans h))
          exact hname hname'

theorem shape_leaveFunction (w : Walk) (c : FunctionContext) (keyword : Token) :
    (w.leaveFunction c keyword).shape = w.shape := by
  unfold leaveFunction
  split <;> simp

theorem shape_returnValue (w : Walk) (c : FunctionContext) (keyword : Token) :
    (w.returnValue c keyword).shape = w.shape := by
  unfold returnValue
  split <;> simp

theorem tells_checkSuperclass (S : Surroundings) (w : Walk) (name : Token) (superclass : Expr) :
    Tells w (w.checkSuperclass name superclass) (spotsOfInheritance name S superclass) := by
  unfold checkSuperclass inheritsFrom spotsOfInheritance
  cases superclass with
  | «variable» id t =>
    dsimp only
    split
    next t' ht =>
      split at ht
      next hname =>
        obtain rfl := Option.some.inj ht
        exact .faulty (by simp) (.inheritsFromItself hname)
      next => simp at ht
    next ht =>
      split at ht
      next => simp at ht
      next hname =>
        refine .sound rfl fun d hd => ?_
        cases hd with
        | inheritsFromItself h => exact hname h
  | _ => exact .nil rfl

theorem shape_checkSuperclass (w : Walk) (name : Token) (superclass : Expr) :
    (w.checkSuperclass name superclass).shape = w.shape := by
  unfold checkSuperclass
  split <;> simp

end Walk

end Lox
