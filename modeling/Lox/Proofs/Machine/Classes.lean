import Lox.Proofs.Machine.Names

namespace Lox

variable {P : History} {g? : Option FrameRef} {W W' : World} {m m' : Machine} {L : Lexical}
  {n : Nat}

/-- The frame of a bound method, when it is bound. -/
theorem instance_of_bind {f : Closure} {i : InstanceRef} {c : Class}
    (hM : P.moment ⟨n + 1, .bind f (.instance i c), m⟩)
    (hmade : ∃ O, P.moment O ∧ O.Makes f) :
    Instance P ⟨n + 1, .bind f (.instance i c), m⟩ ⟨m.frames.frames.size⟩
      ⟨f.frame, [Value.instance i c].toArray⟩ (.this f.function) := by
  refine ⟨hM, ⟨by simp, rfl, rfl⟩, rfl, by simp [Site.names], ?_, ?_, ?_, ?_⟩
  · intro slot hslot
    obtain rfl : slot = 0 := by simpa using hslot
    exact ⟨_, "this", hM, rfl, rfl, rfl, rfl⟩
  · rintro _ _ ⟨⟩
    exact ⟨rfl, i, c, rfl⟩
  · rintro _ _ _ ⟨⟩
  · rintro _ (⟨_, _, ⟨⟩⟩ | ⟨_, ⟨⟩⟩)
    exact hmade

theorem safe_bind {f : Closure} {i : InstanceRef} {c : Class} (h : Sound P W m)
    (hf : f.Unbound P W m.frames) (hc : (Value.instance i c).Fits P W m) :
    Safe P none W m (Machine.bind f (.instance i c)) [⟨n + 1, .bind f (.instance i c), m⟩]
      fun W' m' f' => f'.Fits P W' m' ∧ f'.function = f.function := by
  refine Safe.enter fun hM => ⟨trivial, ?_⟩
  obtain ⟨⟨L, hstands, hsuits⟩, hmade⟩ := hf
  have hinstance := instance_of_bind hM hmade
  refine Safe.andThen (safe_newFrame h hinstance (by simpa using hc)) ?_
  rintro _ _ _ - hk ⟨rfl, rfl, rfl⟩
  refine .pure hk.sound ⟨⟨⟨⟨_, ?_, hsuits⟩, ?_⟩, fun _ => ?_⟩, rfl⟩
  · exact stands_push h rfl hstands
  · exact ⟨_, hM, rfl, rfl⟩
  · refine ⟨_, ⟨n + 1, .bind f (.instance i c), m⟩, f.frame, .instance i c, rfl, ?_, rfl⟩
    rw [← h.length]
    exact List.getElem?_concat_length

theorem safe_property {i : InstanceRef} {c : Class} {name : Token} (h : Sound P W m)
    (hc : (Value.instance i c).Fits P W m) :
    Safe P none W m (Machine.property i c name)
      (match m.instances[i.index]?.bind (·[name.lexeme]?), c.method? name.lexeme with
        | none, some f => [⟨n + 1, .bind f (.instance i c), m⟩]
        | _, _ => [])
      fun W' m' v => v.Fits P W' m' := by
  have hcalls : Lox.after (get : Step Machine) m (fun _ m =>
      match m.instances[i.index]?.bind (·[name.lexeme]?), c.method? name.lexeme with
        | none, some f => [⟨n + 1, .bind f (.instance i c), m⟩]
        | _, _ => []) =
      match m.instances[i.index]?.bind (·[name.lexeme]?), c.method? name.lexeme with
        | none, some f => [⟨n + 1, .bind f (.instance i c), m⟩]
        | _, _ => [] := rfl
  rw [← hcalls]
  refine Safe.before (safe_get h) ?_
  rintro _ _ _ - - ⟨rfl, rfl, rfl⟩
  cases hfield : m.instances[i.index]?.bind (·[name.lexeme]?) with
  | some v =>
    obtain ⟨fields, hfields, hv⟩ := Option.bind_eq_some_iff.mp hfield
    exact .pure h (h.stored.fields i.index fields name.lexeme v hfields hv)
  | none =>
    cases hmethod : c.method? name.lexeme with
    | none => exact .fail h
    | some f =>
      refine Safe.andThen (safe_bind h (hc.1.good _ f hmethod) hc) fun f' W' m' _ hk hf' => ?_
      exact safe_functionValue hk.sound hf'.1

theorem safe_superMethod {id : Nat} {keyword method : Token} (h : Sound P W m)
    (hlocated : Located P m .super id keyword) :
    Safe P none W m (Machine.superMethod id keyword method)
      (callsOfExpr n m (.super id keyword method)) fun W' m' v => v.Fits P W' m' := by
  refine Safe.also (fun _ => hlocated) rfl (Safe.before (c := fun _ m => _) (safe_get h) ?_)
  rintro _ _ _ - - ⟨rfl, rfl, rfl⟩
  cases m.addresses[id]? with
  | none => exact .fail h
  | some a =>
    refine Safe.before (safe_readLocal h keyword a) ?_
    rintro v _ _ - - ⟨rfl, rfl, hv⟩
    cases v with
    | «class» superclass =>
      refine Safe.before (safe_receiver h keyword a) ?_
      rintro ⟨i, c⟩ _ _ - - ⟨rfl, rfl, hc⟩
      dsimp only
      cases hmethod : superclass.method? method.lexeme with
      | none => exact .fail h
      | some f =>
        refine Safe.andThen (safe_bind h (hv.good _ f hmethod) hc) fun f' W' m' _ hk hf' => ?_
        exact safe_functionValue hk.sound hf'.1
    | _ => exact .fail h

theorem mem_methodTable {frame : Option FrameRef} {methods : List Method} {name : String}
    {f : Closure} (h : (Machine.methodTable frame methods)[name]? = some f) :
    ∃ method ∈ methods, f = ⟨some name, method.function, frame, name = initializerName⟩ := by
  have hfold : ∀ (ms : List Method) (t : Std.TreeMap String Closure),
      (ms.foldl (fun t m => t.insert m.name.lexeme
        ⟨some m.name.lexeme, m.function, frame, m.name.lexeme = initializerName⟩) t)[name]? =
          some f →
      (∃ method ∈ ms, f = ⟨some name, method.function, frame, name = initializerName⟩) ∨
        t[name]? = some f := by
    intro ms
    induction ms with
    | nil => exact fun t h => .inr h
    | cons method ms ih =>
      intro t hrest
      rcases ih _ hrest with ⟨method', hmem, hmethod⟩ | hfirst
      · exact .inl ⟨method', List.mem_cons_of_mem _ hmem, hmethod⟩
      · rw [Std.TreeMap.getElem?_insert] at hfirst
        split at hfirst
        next heq =>
          obtain rfl := Std.LawfulEqCmp.eq_of_compare heq
          exact .inl ⟨method, List.mem_cons_self, (Option.some.inj hfirst).symm⟩
        next => exact .inr hfirst
  refine (hfold methods ∅ h).resolve_right ?_
  simp

theorem Known.of_mem_methods {methods : List Method} {method : Method}
    (h : Known P L (nodesOfMethods L methods)) (hmem : method ∈ methods) :
    Known P L (method.function.nodes ((Site.this method.function).enter 1 L)) := by
  refine h.of_subset fun node hnode => ?_
  clear h
  induction methods with
  | nil => simp at hmem
  | cons other methods ih =>
    obtain ⟨name, function⟩ := other
    rw [nodesOfMethods, List.mem_append]
    rcases List.mem_cons.mp hmem with rfl | hmem
    · exact .inl hnode
    · exact .inr (ih hmem)

theorem Class.method?_mk {identity : Nat} {name key : String} {superclass : Option Class}
    {methods : Std.TreeMap String Closure} {f : Closure}
    (h : (Class.mk identity name superclass methods).method? key = some f) :
    methods[key]? = some f ∨ ∃ c, superclass = some c ∧ c.method? key = some f := by
  cases superclass with
  | none => exact .inl h
  | some c =>
    simp only [Class.method?] at h
    split at h
    next f' hf' =>
      obtain rfl := Option.some.inj h
      exact .inl hf'
    next => exact .inr ⟨c, rfl, h⟩

/-- The value of a declaration goes where its name has been declared just before. -/
theorem safe_settle {name : Token} {slot : Option Nat} {v : Value} (h : Sound P W m)
    (hL : Stands P W m.frames m.frame L) (hopen : ∀ p ∈ L.head?, p.site.IsOpen)
    (hv : v.Fits P W m) :
    Safe P none W m (Machine.settle name slot v) [] fun W' _ _ => W = W' := by
  have hglobal : Kept P none W m W (m.defineGlobal name.lexeme v) :=
    .of_frames (h.defineGlobal name.lexeme hv) rfl rfl (Nat.le_refl _) rfl
  cases hf : m.frame with
  | none =>
    have heq : Machine.settle name slot v m = .ok () (m.defineGlobal name.lexeme v) := by
      unfold Machine.settle
      rw [hf]
      cases slot <;> rfl
    exact .of_eq heq hglobal rfl
  | some f =>
    rw [hf] at hL
    cases hL with
    | @frame _ p L frame M hget hM hsite =>
      cases slot with
      | none =>
        have heq : Machine.settle name none v m = .ok () (m.defineGlobal name.lexeme v) := by
          unfold Machine.settle
          rw [hf]
        exact .of_eq heq hglobal rfl
      | some slot =>
        have hset := h.set hget hM hsite (hopen p rfl) slot hv
        by_cases hslot : slot < m.frames.size f
        · have heq : Machine.settle name (some slot) v m =
              .ok () { m with frames := m.frames.set f slot v } := by
            simp [Machine.settle, Frames.locate, Frames.ancestor?, hf, hslot]
          have hgrown : Grown none W m W { m with frames := m.frames.set f slot v } :=
            .of_frames (Frames.grows_set _ _ _ _) (List.prefix_refl W)
          exact .of_eq heq ⟨hgrown, rfl, hset⟩ rfl
        · have heq : Machine.settle name (some slot) v m =
              Machine.fail (.invalidSlot ⟨0, slot⟩) m := by
            simp [Machine.settle, Frames.locate, Frames.ancestor?, hf, hslot]
          exact .of_error heq h

/-- The methods of a class stand in the scope in which they are made, and go by their names. -/
theorem fits_class {identity : Nat} {name : String} {superclass : Option Class}
    {frame : Option FrameRef} {methods : List Method} {O : Moment}
    (hsuper : ∀ c, superclass = some c → c.Fits P W m) (hL : Stands P W m.frames frame L)
    (hproper : ∀ f, ((Site.this f).enter 1 L).Proper)
    (hknown : Known P L (nodesOfMethods L methods)) (hformed : FormedMethods methods)
    (hO : P.moment O) (hmakes : ∀ f : Closure, (∃ method ∈ methods, method.function = f.function) →
      f.frame = frame → O.Makes f) :
    (Class.mk identity name superclass (Machine.methodTable frame methods)).Fits P W m := by
  constructor
  case good =>
    intro key f hf
    rcases Class.method?_mk hf with hf | ⟨c, rfl, hinherited⟩
    · obtain ⟨method, hmem, rfl⟩ := mem_methodTable hf
      refine ⟨⟨L, hL, hproper _, ?_, ?_⟩, O, hO, hmakes _ ⟨method, hmem, rfl⟩ rfl⟩
      · exact (hknown.of_mem_methods hmem).enter _ 1
      · exact (formedMethods_iff methods).mp hformed method hmem
    · exact (hsuper c rfl).good key f hinherited
  case named =>
    intro key f hf
    rcases Class.method?_mk hf with hf | ⟨c, rfl, hinherited⟩
    · obtain ⟨method, -, rfl⟩ := mem_methodTable hf
      exact ⟨rfl, decide_eq_true_iff⟩
    · exact (hsuper c rfl).named key f hinherited

/-- Where the methods of a class stand. -/
def Lexical.methods (L : Lexical) (superclass : Option Class) (ms : List Method) : Lexical :=
  match superclass with
  | none => L.declare
  | some _ => (Site.super ms).enter 1 L.declare

/-- The frame of a superclass, when the subclass is declared and its name has a cell. -/
theorem instance_of_declareClass {name : Token} {c : Class} {methods : List Method}
    (hM : P.moment ⟨n + 1, .declareClass name (some c) methods, m⟩) (hframe : m'.frame = m.frame)
    (hsize : m'.frames.frames.size = m.frames.frames.size) :
    Instance P ⟨n + 1, .declareClass name (some c) methods, m⟩ ⟨m'.frames.frames.size⟩
      ⟨m'.frame, [Value.class c].toArray⟩ (.super methods) := by
  refine ⟨hM, ⟨by simp, rfl, by rw [hsize]; rfl⟩, hframe, by simp [Site.names], ?_, ?_, ?_, ?_⟩
  · intro slot hslot
    obtain rfl : slot = 0 := by simpa using hslot
    exact ⟨_, "super", hM, rfl, by rw [hsize]; rfl, rfl, rfl⟩
  · rintro _ _ ⟨⟩
  · rintro _ _ _ ⟨⟩
    rfl
  · rintro _ (⟨_, _, ⟨⟩⟩ | ⟨_, ⟨⟩⟩)

theorem safe_declareClass {name : Token} {superclass : Option Class} {methods : List Method}
    (h : Sound P W m) (hL : Here P W m L)
    (hnext : ∀ p ∈ L.head?, p.site.names[p.count]? = some name.lexeme) (hname : name.Ordinary)
    (hsuper : ∀ c, superclass = some c → c.Fits P W m)
    (hknown : Known P (L.methods superclass methods)
      (nodesOfMethods (L.methods superclass methods) methods))
    (hformed : FormedMethods methods) :
    Safe P m.frame W m (Machine.declareClass name superclass methods)
      [⟨n + 1, .declareClass name superclass methods, m⟩]
      fun W' m' _ => Here P W' m' L.declare := by
  refine Safe.enter fun hM => ⟨trivial, ?_⟩
  have hdefine : Safe P m.frame W m (Machine.define name .nil) [⟨n + 1, .define name .nil, m⟩]
      fun W' m' _ => W = W' ∧ Here P W' m' L.declare :=
    Safe.enter fun hD => ⟨trivial, safe_define h hL hnext hname hD rfl ⟨_, rfl⟩ trivial⟩
  refine Safe.andThen hdefine ?_
  rintro slot _ m₁ - hk ⟨rfl, hhere⟩
  have hsize : m₁.frames.frames.size = m.frames.frames.size :=
    hk.sound.length.symm.trans h.length
  have hopen := Lexical.isOpen_declare hname hnext
  have hsuper₁ : ∀ c, superclass = some c → c.Fits P W m₁ := fun c hc =>
    hk.fits (v := .class c) (hsuper c hc)
  refine (Safe.imp ?_ fun W' m' _ hk' (_ : True) => hhere.kept hk').of_none
  refine Safe.andThen (safe_get hk.sound) ?_
  rintro _ _ _ - - ⟨rfl, rfl, rfl⟩
  cases superclass with
  | none =>
    refine Safe.andThen (Safe.pure (Q := fun W' m' f => W = W' ∧ m₁ = m' ∧ f = m₁.frame)
      hk.sound ⟨rfl, rfl, rfl⟩) ?_
    rintro _ _ _ - - ⟨rfl, rfl, rfl⟩
    refine Safe.andThen (safe_mintIdentity hk.sound) fun identity W' m' _ hk' _ => ?_
    refine (safe_settle hk'.sound (hk'.stands hhere.stands) hopen (hk'.fits (v := .class _) ?_)).imp
      fun _ _ _ _ _ => trivial
    refine fits_class hsuper₁ hhere.stands (fun f => ?_) hknown hformed hM fun f hmem hframe => ?_
    · have hthis : (Site.this f).Ordinary := trivial
      exact hhere.proper.enter hthis (by simp) 1
    · exact ⟨hmem, hframe.trans hk.frame⟩
  | some c =>
    have hinstance := instance_of_declareClass hM hk.frame hsize
    have hcell : ∀ v ∈ [Value.class c], v.Fits P W m₁ := by
      rw [List.forall_mem_singleton]
      exact hsuper₁ c rfl
    refine Safe.andThen (Safe.map (safe_newFrame hk.sound hinstance hcell)) ?_
    rintro _ _ _ - hk₂ ⟨_, rfl, rfl, rfl, rfl⟩
    refine Safe.andThen (safe_mintIdentity hk₂.sound) fun identity W' m' _ hk' _ => ?_
    have hkept := hk₂.trans hk'
    refine (safe_settle hk'.sound (hkept.stands hhere.stands) hopen (hk'.fits (v := .class _) ?_)).imp
      fun _ _ _ _ _ => trivial
    refine fits_class (fun c' hc' => hk₂.fits (v := .class c') (hsuper₁ c' hc'))
      (stands_push hk.sound rfl hhere.stands) (fun f => ?_) hknown hformed hM
      fun f hmem hframe => ?_
    · exact hhere.proper.subclass f methods
    · refine ⟨hmem, hframe.trans ?_⟩
      rw [hsize]
      rfl

end Lox
