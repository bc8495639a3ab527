import Lox.Proofs.Loop.Framing
import Lox.Proofs.Machine.Apply

namespace Lox

/-- The machines hold the same, laid out in different frames, and what is `k` inside an empty frame
goes on in them. -/
structure Machine.Matches (A : Tables) (W : Framing) (k : Inset) (m m' : Machine) :
    Prop where
  globals : TableTwin (W.Like A) m.globals m'.globals
  frame : W.Stands k m.frame m'.frame
  frames : W.Fits A m.frames m'.frames
  instances : RowTwin (TableTwin (W.Like A)) m.instances m'.instances
  natives : m.natives = m'.natives
  oblivious : ∀ body ∈ m.natives, body.Oblivious
  turns : m.turns = m'.turns
  addresses : m.addresses = A.left
  addresses' : m'.addresses = A.right
  output : m.output = m'.output
  echoes : m.echoes = m'.echoes
  nextIdentity : m.nextIdentity = m'.nextIdentity

namespace Machine

variable {A : Tables} {W W' : Framing} {k j : Inset} {m m' : Machine}
  {α β γ δ : Type}

/-- The output and the counters, the rest of what is stored and the place may change. -/
theorem Matches.within (h : m.Matches A W k m') (hW : W.Within W') {f? f?' : Option FrameRef}
    {s s' : Frames Value} (hframe : W'.Stands j f? f?') (hframes : W'.Fits A s s') :
    Matches A W' j { m with frame := f?, frames := s } { m' with frame := f?', frames := s' } :=
  { h with
    globals := h.globals.imp fun _ _ hv => hv.within hW
    frame := hframe
    frames := hframes
    instances := h.instances.imp fun _ _ hfields => hfields.imp fun _ _ hv => hv.within hW }

/-- The machines go back to where they were. -/
theorem Matches.back (h : m.Matches A W k m') (hW : W.Within W') {n n' : Machine}
    (hn : n.Matches A W' j n') :
    Matches A W' k { n with frame := m.frame } { n' with frame := m'.frame } :=
  { hn with frame := h.frame.within hW }

theorem Matches.defineGlobal (h : m.Matches A W k m') (name : String) {v v' : Value}
    (hv : W.Like A v v') : (m.defineGlobal name v).Matches A W k (m'.defineGlobal name v') :=
  { h with globals := h.globals.insert name hv }

/-- From machines that match in the framing `W` the steps end alike, and leave machines that match
in a framing that has grown from it. -/
def Matching (A : Tables) (W : Framing) (k : Inset) (R : Framing → α → β → Prop)
    (p : Step α) (q : Step β) : Prop :=
  ∀ m m', m.Matches A W k m' → ∃ W', W.Within W' ∧
    ResultRel (Machine.Matches A W' k) Eq (R W') (p m) (q m')

namespace Matching

variable {R : Framing → α → β → Prop} {Q : Framing → γ → δ → Prop} {p : Step α} {q : Step β}

theorem pure {a : α} {b : β} (h : R W a b) : Matching A W k R (Pure.pure a) (Pure.pure b) :=
  fun _ _ hm => ⟨W, .refl W, .ok h hm⟩

theorem throw (e : Stop) :
    Matching A W k R (MonadExcept.throw e : Step α) (MonadExcept.throw e : Step β) :=
  fun _ _ hm => ⟨W, .refl W, .error rfl hm⟩

theorem fail (e : RuntimeError) : Matching A W k R (Machine.fail e) (Machine.fail e) := throw _

theorem bind {l : α → Step γ} {l' : β → Step δ} (h : Matching A W k R p q)
    (hl : ∀ {W'}, W.Within W' → ∀ a b, R W' a b → Matching A W' k Q (l a) (l' b)) :
    Matching A W k Q (p >>= l) (q >>= l') := by
  intro m m' hm
  obtain ⟨W', hW, hp⟩ := h m m' hm
  rw [bind_apply, bind_apply]
  generalize p m = r at hp
  generalize q m' = r' at hp
  cases hp with
  | ok hab hm' =>
    obtain ⟨W'', hW', hr⟩ := hl hW _ _ hab _ _ hm'
    exact ⟨W'', hW.trans hW', hr⟩
  | error he hm' => exact ⟨W', hW, .error he hm'⟩

theorem get {l : Machine → Step γ} {l' : Machine → Step δ}
    (hl : ∀ m m', m.Matches A W k m' → Matching A W k Q (l m) (l' m')) :
    Matching A W k Q ((MonadState.get : Step Machine) >>= l)
      ((MonadState.get : Step Machine) >>= l') :=
  fun m m' hm => hl m m' hm m m' hm

theorem map {g : α → γ} {g' : β → δ} (h : Matching A W k R p q)
    (hg : ∀ W a b, R W a b → Q W (g a) (g' b)) : Matching A W k Q (g <$> p) (g' <$> q) := by
  rw [← bind_pure_comp, ← bind_pure_comp]
  exact h.bind fun _ a b hab => pure (hg _ a b hab)

theorem ofExcept {r : Except RuntimeError α} {r' : Except RuntimeError β}
    (h : ExceptRel Eq (R W) r r') :
    Matching A W k R (Machine.ofExcept r) (Machine.ofExcept r') := by
  cases h with
  | ok h => exact pure h
  | error h =>
    obtain rfl := h
    exact fail _

/-- Steps in other frames, after which the machines are where they were. -/
theorem within {f f' : FrameRef} (h : Matching A W j R p q) (hf : W.Stands j (some f) (some f')) :
    Matching A W k R (Machine.within f p) (Machine.within f' q) := by
  intro m m' hm
  obtain ⟨W', hW, hp⟩ := h _ _ (hm.within (.refl W) hf hm.frames)
  refine ⟨W', hW, ?_⟩
  unfold Machine.within
  dsimp only
  generalize p { m with frame := some f } = r at hp ⊢
  generalize q { m' with frame := some f' } = r' at hp ⊢
  cases hp with
  | ok hab hm' => exact .ok hab (hm.back hW hm')
  | error he hm' => exact .error he (hm.back hW hm')

/-- The same, in any framing. -/
abbrev Same : Framing → α → α → Prop := fun _ => Eq

/-- Values that are alike in the framing at hand. -/
abbrev Alike (A : Tables) : Framing → Value → Value → Prop := fun W => W.Like A

variable {v v' : Value} {t : Token} {i i' : Nat}

theorem write (line : String) : Matching A W k Same (Machine.write line) (Machine.write line) :=
  fun m m' hm => ⟨W, .refl W, .ok rfl { hm with output := by simp only [hm.output] }⟩

theorem mintIdentity : Matching A W k Same Machine.mintIdentity Machine.mintIdentity :=
  fun _ _ hm => ⟨W, .refl W,
    .ok hm.nextIdentity { hm with nextIdentity := congrArg (· + 1) hm.nextIdentity }⟩

theorem nextTurn : Matching A W k Same Machine.nextTurn Machine.nextTurn :=
  fun _ _ hm => ⟨W, .refl W, .ok hm.turns { hm with turns := congrArg (· + 1) hm.turns }⟩

theorem newInstance : Matching A W k Same Machine.newInstance Machine.newInstance :=
  fun _ _ hm => ⟨W, .refl W, .ok (congrArg InstanceRef.mk hm.instances.size_eq)
    { hm with instances := hm.instances.push .empty }⟩

theorem newFrame {f? f?' : Option FrameRef} (hstands : W.Stands j f? f?') {vs vs' : List Value}
    (hvs : List.Forall₂ (W.Like A) vs vs') :
    Matching A W k (fun W f f' => W.pairs f j.inner f') (Machine.newFrame f? vs)
      (Machine.newFrame f?' vs') := by
  intro m m' hm
  have hW := W.within_pair ⟨m.frames.frames.size⟩ j.inner ⟨m'.frames.frames.size⟩
  rw [newFrame_apply, newFrame_apply]
  exact ⟨_, hW, .ok (.inr ⟨rfl, rfl, rfl⟩)
    (hm.within hW (hm.frame.within hW) (hm.frames.push hstands hvs))⟩

theorem define (hk : k ≠ .inside 0) (t : Token) (hv : W.Like A v v') :
    Matching A W k Same (Machine.define t v) (Machine.define t v') := by
  intro m m' hm
  refine ⟨W, .refl W, ?_⟩
  rw [define_apply, define_apply]
  obtain ⟨hf, hf'⟩ | ⟨f, f', hf, hf', hp⟩ := hm.frame.pairs hk
  · rw [hf, hf']
    exact .ok rfl (hm.defineGlobal _ hv)
  · rw [hf, hf']
    have hframes := hm.frames.define ⟨k, hp⟩ hv
    exact .ok (congrArg some (hm.frames.size_eq ⟨k, hp⟩))
      { hm with frame := .frame hp, frames := hframes }

theorem readLocal_eq (t : Token) (a : Address) (m : Machine) :
    Machine.readLocal t a m = match m.frames.read? m.frame a with
      | some v => .ok v m
      | none => Machine.undefined t m := by
  rw [Machine.readLocal, get_bind_apply]
  cases m.frame with
  | none => rfl
  | some f =>
    rw [← Frames.getAt_eq]
    dsimp only
    cases m.frames.getAt f a <;> rfl

theorem readLocal (t : Token) (a : Address) :
    Matching A W k (Alike A) (Machine.readLocal t (k.skip a)) (Machine.readLocal t a) := by
  intro m m' hm
  have hread := hm.frames.read? hm.frame a
  refine ⟨W, .refl W, ?_⟩
  rw [readLocal_eq, readLocal_eq]
  generalize m.frames.read? m.frame (k.skip a) = v? at hread
  generalize m'.frames.read? m'.frame a = v?' at hread
  cases hread with
  | none => exact .error rfl hm
  | some hv => exact .ok hv hm

theorem readVariable (t : Token) (hi : Shifts A k i i') :
    Matching A W k (Alike A) (Machine.readVariable i t) (Machine.readVariable i' t) := by
  refine get fun m m' hm => ?_
  rw [hm.addresses, hm.addresses', hi]
  cases A.right[i']? with
  | some a => exact readLocal t a
  | none =>
    have hglobal := hm.globals t.lexeme
    dsimp only [Option.map_none]
    generalize m.globals[t.lexeme]? = v? at hglobal
    generalize m'.globals[t.lexeme]? = v?' at hglobal
    cases hglobal with
    | some hv => exact pure hv
    | none => exact fail _

theorem assignLocal_eq (t : Token) (a : Address) (v : Value) (m : Machine) :
    Machine.assignLocal t a v m = match m.frames.place? m.frame a with
      | some g => .ok () { m with frames := m.frames.set g a.slot v }
      | none => Machine.undefined t m := by
  unfold Machine.assignLocal
  cases m.frame with
  | none => rfl
  | some f =>
    rw [← Frames.locate_eq]
    dsimp only
    cases m.frames.locate f a <;> rfl

theorem assignLocal (t : Token) (a : Address) (hv : W.Like A v v') :
    Matching A W k Same (Machine.assignLocal t (k.skip a) v) (Machine.assignLocal t a v') := by
  intro m m' hm
  have hplace := hm.frames.place? hm.frame a
  refine ⟨W, .refl W, ?_⟩
  rw [assignLocal_eq, assignLocal_eq]
  generalize m.frames.place? m.frame (k.skip a) = g? at hplace
  generalize m'.frames.place? m'.frame a = g?' at hplace
  cases hplace with
  | none => exact .error rfl hm
  | some hp => exact .ok rfl { hm with frames := hm.frames.set hp a.slot hv }

theorem assignVariable (t : Token) (hi : Shifts A k i i') (hv : W.Like A v v') :
    Matching A W k Same (Machine.assignVariable i t v) (Machine.assignVariable i' t v') := by
  refine get fun m m' hm => ?_
  rw [hm.addresses, hm.addresses', hi, hm.globals.contains_eq]
  cases A.right[i']? with
  | some a => exact assignLocal t a hv
  | none =>
    dsimp only [Option.map_none]
    split
    · exact fun _ _ hm => ⟨W, .refl W, .ok rfl (hm.defineGlobal _ hv)⟩
    · exact fail _

/-- A method that is bound stands where its class does, one scope further in. -/
theorem bindReceiver {f f' : Closure} (hf : f.Like (W.Method A) f') (hv : W.Like A v v') :
    Matching A W k (fun W => Closure.Like (W.Function A)) (Machine.bind f v)
      (Machine.bind f' v') := by
  obtain ⟨hname, harity, hinit, j, hstands, hmoved⟩ := hf
  refine (newFrame hstands (.cons hv .nil)).bind fun _ g g' hp => pure ?_
  exact ⟨hname, harity, hinit, j.inner, .frame hp, hmoved, fun _ => j.inner_ne⟩

theorem functionValue {f f' : Closure} (hf : f.Like (W.Function A) f') :
    Matching A W k (Alike A) (Machine.functionValue f) (Machine.functionValue f') := by
  refine mintIdentity.bind fun hW identity _ heq => ?_
  obtain rfl := heq
  exact pure (.function identity (hf.imp fun h => h.within hW))

/-- What `bind` makes of a method is a value. -/
theorem boundMethod {f f' : Closure} (hf : f.Like (W.Method A) f') (hv : W.Like A v v') :
    Matching A W k (Alike A) (do Machine.functionValue (← Machine.bind f v))
      (do Machine.functionValue (← Machine.bind f' v')) :=
  (bindReceiver hf hv).bind fun _ _ _ h => functionValue h

theorem property (j : InstanceRef) {c c' : Class} (hc : c.Like (W.Method A) c') (t : Token) :
    Matching A W k (Alike A) (Machine.property j c t) (Machine.property j c' t) := by
  refine get fun m m' hm => ?_
  have hfield : Option.Rel (W.Like A) (m.instances[j.index]?.bind (·[t.lexeme]?))
      (m'.instances[j.index]?.bind (·[t.lexeme]?)) := by
    have hfields := hm.instances j.index
    generalize m.instances[j.index]? = fields? at hfields
    generalize m'.instances[j.index]? = fields?' at hfields
    cases hfields with
    | none => exact .none
    | some h => exact h t.lexeme
  have hmethod := hc.method? t.lexeme
  generalize m.instances[j.index]?.bind (·[t.lexeme]?) = v? at hfield
  generalize m'.instances[j.index]?.bind (·[t.lexeme]?) = v?' at hfield
  cases hfield with
  | some hv => exact pure hv
  | none =>
    dsimp only
    generalize c.method? t.lexeme = f? at hmethod
    generalize c'.method? t.lexeme = f?' at hmethod
    cases hmethod with
    | some hf => exact boundMethod hf (.instance j hc)
    | none => exact fail _

theorem setField (j : InstanceRef) (t : Token) (hv : W.Like A v v') :
    Matching A W k Same (Machine.setField j t v) (Machine.setField j t v') :=
  fun _ _ hm => ⟨W, .refl W, .ok rfl { hm with
    instances := hm.instances.modify j.index fun _ _ h => h.insert t.lexeme hv }⟩

theorem receiver_eq (t : Token) (a : Address) (m : Machine) :
    Machine.receiver t a m = match a.depth with
      | 0 => Machine.fail (.undefinedVariable "this" t.line) m
      | depth + 1 => match m.frames.read? m.frame ⟨depth, 0⟩ with
        | some (.instance j c) => .ok (j, c) m
        | _ => Machine.fail (.undefinedVariable "this" t.line) m := by
  rw [Machine.receiver, get_bind_apply]
  cases a.depth with
  | zero => rfl
  | succ depth =>
    cases m.frame with
    | none => rfl
    | some f =>
      dsimp only
      rw [← Frames.getAt_eq]
      cases m.frames.getAt f ⟨depth, 0⟩ with
      | error => rfl
      | ok v => cases v <;> rfl

theorem receiver (t : Token) {a : Address} (ha : k ≠ .inside a.depth) :
    Matching A W k (fun W r r' => r.1 = r'.1 ∧ r.2.Like (W.Method A) r'.2)
      (Machine.receiver t (k.skip a)) (Machine.receiver t a) := by
  intro m m' hm
  refine ⟨W, .refl W, ?_⟩
  obtain ⟨depth, slot⟩ := a
  rw [receiver_eq, receiver_eq]
  cases depth with
  | zero =>
    rw [show (k.skip ⟨0, slot⟩).depth = 0 from Inset.hops_zero ha]
    exact .error rfl hm
  | succ depth =>
    rw [show (k.skip ⟨depth + 1, slot⟩).depth = k.hops depth + 1 from Inset.hops_succ ha]
    have hread := hm.frames.read? hm.frame ⟨depth, 0⟩
    unfold Inset.skip at hread
    dsimp only at hread ⊢
    generalize m.frames.read? m.frame ⟨k.hops depth, 0⟩ = v? at hread
    generalize m'.frames.read? m'.frame ⟨depth, 0⟩ = v?' at hread
    cases hread with
    | none => exact .error rfl hm
    | some hv =>
      cases hv with
      | «instance» j hc => exact .ok ⟨rfl, hc⟩ hm
      | _ => exact .error rfl hm

theorem superMethod (t method : Token) (hi : ShiftsSuper A k i i') :
    Matching A W k (Alike A) (Machine.superMethod i t method)
      (Machine.superMethod i' t method) := by
  refine get fun m m' hm => ?_
  rw [hm.addresses, hm.addresses', hi.1]
  cases ha : A.right[i']? with
  | none => exact fail _
  | some a =>
    refine (readLocal t a).bind fun _ v v' hv => ?_
    cases hv with
    | «class» hc =>
      refine (receiver t (hi.2 a ha)).bind fun hW r r' hr => ?_
      obtain ⟨j, d⟩ := r
      obtain ⟨j', d'⟩ := r'
      obtain ⟨rfl, hd⟩ := hr
      have hfound := hc.method? method.lexeme
      dsimp only
      generalize Class.method? method.lexeme _ = f? at hfound
      generalize Class.method? method.lexeme _ = f?' at hfound
      cases hfound with
      | some hf => exact boundMethod (hf.imp fun h => h.within hW) (.instance j hd)
      | none => exact fail _
    | _ => exact fail _

theorem boundReceiver_eq (f : Closure) (t : Token) (m : Machine) :
    Machine.boundReceiver f t m = match m.frames.read? f.frame ⟨0, 0⟩ with
      | some v => .ok v m
      | none => Machine.fail (.undefinedVariable "this" t.line) m := by
  rw [Machine.boundReceiver, get_bind_apply]
  cases f.frame with
  | none => rfl
  | some g =>
    rw [← Frames.getAt_eq]
    dsimp only
    cases m.frames.getAt g ⟨0, 0⟩ <;> rfl

theorem boundReceiver {f f' : Closure} (hf : W.Function A f f') (hinit : f.isInitializer = true)
    (t : Token) :
    Matching A W k (Alike A) (Machine.boundReceiver f t) (Machine.boundReceiver f' t) := by
  intro m m' hm
  obtain ⟨j, hstands, -, hj⟩ := hf
  have hread := hm.frames.read? hstands ⟨0, 0⟩
  refine ⟨W, .refl W, ?_⟩
  rw [boundReceiver_eq, boundReceiver_eq]
  rw [show j.skip ⟨0, 0⟩ = ⟨0, 0⟩ from congrArg (Address.mk · 0) (Inset.hops_zero (hj hinit))]
    at hread
  generalize m.frames.read? f.frame ⟨0, 0⟩ = v? at hread
  generalize m'.frames.read? f'.frame ⟨0, 0⟩ = v?' at hread
  cases hread with
  | none => exact .error rfl hm
  | some hv => exact .ok hv hm

theorem settle (hk : k ≠ .inside 0) (t : Token) (slot : Option Nat) (hv : W.Like A v v') :
    Matching A W k Same (Machine.settle t slot v) (Machine.settle t slot v') := by
  intro m m' hm
  refine ⟨W, .refl W, ?_⟩
  unfold Machine.settle
  cases slot with
  | none => exact .ok rfl (hm.defineGlobal _ hv)
  | some slot =>
    obtain ⟨hf, hf'⟩ | ⟨f, f', hf, hf', hp⟩ := hm.frame.pairs hk
    · rw [hf, hf']
      exact .ok rfl (hm.defineGlobal _ hv)
    · have hframes := hm.frames.set ⟨k, hp⟩ slot hv
      have hsize := hm.frames.size_eq ⟨k, hp⟩
      have hlocate : ∀ (s : Frames Value) (g : FrameRef), s.locate g ⟨0, slot⟩ =
          if slot < s.size g then .ok g else .error ⟨0, slot⟩ := fun _ _ => rfl
      rw [hf, hf']
      dsimp only
      rw [hlocate, hlocate, hsize]
      by_cases hlt : slot < m'.frames.size f'
      · simp only [if_pos hlt]
        exact .ok rfl { hm with frame := .frame hp, frames := hframes }
      · simp only [if_neg hlt]
        exact .error rfl hm

theorem methodTable {f? f?' : Option FrameRef} (hstands : W.Stands j f? f?') {ms ms' : List Method}
    (hms : MovedMethods A j.inner ms ms') :
    TableTwin (Closure.Like (W.Method A)) (Machine.methodTable f? ms)
      (Machine.methodTable f?' ms') := by
  refine List.rel_foldl ?_ .empty hms.forall₂
  rintro table table' htable m m' ⟨hname, hf⟩
  dsimp only
  rw [hname]
  exact htable.insert _ ⟨rfl, congrArg List.length hf.params, rfl, j, hstands, hf⟩

theorem declareClass (hk : k ≠ .inside 0) (t : Token) {superclass superclass' : Option Class}
    (hsuperclass : Option.Rel (Class.Like (W.Method A)) superclass superclass')
    {ms ms' : List Method}
    (hms : MovedMethods A (if superclass.isSome then k.inner.inner else k.inner) ms ms') :
    Matching A W k Same (Machine.declareClass t superclass ms)
      (Machine.declareClass t superclass' ms') := by
  refine (define hk t .nil).bind fun {W₁} hW slot slot' heq => ?_
  obtain rfl := heq
  refine get fun m m' hm => ?_
  cases hsuperclass with
  | none =>
    refine (pure (R := fun W f? f?' => W.Stands k f? f?') hm.frame).bind fun hW' f? f?' hf => ?_
    refine mintIdentity.bind fun hW'' identity identity' heq => ?_
    obtain rfl := heq
    have htable := methodTable (hf.within hW'') hms
    exact settle hk t slot (.class (.new identity t.lexeme .none htable))
  | some hc =>
    have hcell : W₁.Like A (.class _) (.class _) :=
      .class (hc.imp fun _ _ h => Framing.Method.within h hW)
    refine ((newFrame hm.frame (.cons hcell .nil)).map
      (Q := fun W f? f?' => W.Stands k.inner f? f?') fun _ _ _ hp => .frame hp).bind
      fun hW' f? f?' hf => ?_
    refine mintIdentity.bind fun hW'' identity identity' heq => ?_
    obtain rfl := heq
    have hsuper := hc.imp fun _ _ h => Framing.Method.within h ((hW.trans hW').trans hW'')
    have htable := methodTable (hf.within hW'') hms
    exact settle hk t slot (.class (.new identity t.lexeme (.some hsuper) htable))

theorem checkArity (expected got : Nat) (t : Token) :
    Matching A W k Same (Machine.checkArity expected got t)
      (Machine.checkArity expected got t) := by
  unfold Machine.checkArity
  split
  · exact fail _
  · exact pure rfl

theorem callNative (f : NativeRef) (t : Token) {vs vs' : List Value}
    (hvs : List.Forall₂ (W.Like A) vs vs') :
    Matching A W k (Alike A) (Machine.callNative f t vs) (Machine.callNative f t vs') := by
  refine nextTurn.bind fun hW turn _ heq => ?_
  obtain rfl := heq
  refine get fun m m' hm => ?_
  rw [← hm.natives]
  cases hbody : m.natives[f.index]? with
  | none => exact pure .nil
  | some body =>
    have hvs' := hvs.imp fun _ _ hv => Framing.Like.within hv hW
    have hoblivious := hm.oblivious body (Array.mem_of_getElem? hbody) _ _ turn vs vs' hvs'
    dsimp only
    generalize body turn vs = r at hoblivious
    generalize body turn vs' = r' at hoblivious
    cases hoblivious with
    | ok hv => exact pure hv
    | error hmessage =>
      rw [hmessage]
      exact fail _

end Matching

end Machine

end Lox
