import Lox.Proofs.Machine.Expression
import Lox.Proofs.Scope.Exact

namespace Lox

variable {P : History} {g? : Option FrameRef} {W W' : World} {m m' : Machine} {L : Lexical}
  {n : Nat}

theorem safe_exhausted {α : Type} {p : Step α} {M : Moment} {Q : World → Machine → α → Prop}
    (h : Sound P W m) (hM : Ends P g? W m Q (p m) → M.Meets P) (hnone : M.calls = [])
    (hp : p = throw .exhausted) : Safe P g? W m p [M] Q := by
  subst hp
  refine Safe.ending (fun _ => ?_) fun _ => hM
  rw [hnone]
  exact .throw h

theorem safeArguments_succ (ih : SafeExpr P n) (ihAll : SafeArguments P n) :
    SafeArguments P (n + 1) := by
  intro W m L es h hes
  refine Safe.enter fun _ => ⟨trivial, ?_⟩
  obtain ⟨hknown, hformed⟩ := hes
  cases es with
  | nil => exact .pure h.sound (by simp)
  | cons e es =>
    refine Safe.bind (ih h ⟨hknown.left, hformed.1⟩) fun v W₁ m₁ _ hk₁ hv => ?_
    refine Safe.andThen (ihAll (h.kept hk₁) ⟨hknown.right, hformed.2⟩) fun vs W₂ m₂ _ hk₂ hvs => ?_
    exact .pure hk₂.sound (List.forall_mem_cons.mpr ⟨hk₂.fits hv, hvs⟩)

/-- A class that is called makes an instance, which its initializer is called for. -/
theorem safe_construct {c : Class} {paren : Token} {vs : List Value} (ih : SafeCall P n)
    (h : Sound P W m) (hc : c.Fits P W m) (hvs : ∀ v ∈ vs, v.Fits P W m) :
    Safe P none W m (Machine.invoke (n + 1) (.class c) paren vs)
      (callsOfInvocation n m paren vs (.class c)) fun W' m' v =>
        v.Fits P W' m' ∧ (Value.class c).Constructs m v m' := by
  refine Safe.before (safe_checkArity h (Machine.arity c) vs.length paren) ?_
  rintro _ _ _ - - ⟨rfl, rfl, harity⟩
  refine Safe.before (safe_newInstance h) ?_
  rintro _ _ m₁ - hk₁ ⟨rfl, rfl, hsize⟩
  have hi : (Value.instance ⟨m.instances.size⟩ c).Fits P W m₁ :=
    ⟨hk₁.grown.class_fits hc, fun _ => hsize⟩
  cases hmethod : c.method? initializerName with
  | none =>
    refine .pure hk₁.sound ⟨hi, ?_⟩
    rintro _ ⟨⟩
    exact ⟨rfl, hsize⟩
  | some f =>
    have hlength : vs.length = f.arity := by
      rw [harity, Machine.arity, hmethod]
    refine Safe.bind (safe_bind hk₁.sound (hi.1.good _ f hmethod) hi) ?_
    intro f' W₂ m₂ _ hk₂ ⟨hf', hfunction⟩
    have hvs₂ : ∀ v ∈ vs, v.Fits P W₂ m₂ := fun v hv => (hk₁.trans hk₂).fits (hvs v hv)
    have hlength₂ : vs.length = f'.arity := by
      rw [hlength, Closure.arity, Closure.arity, hfunction]
    refine Safe.andThen (ih hk₂.sound hf' hvs₂ hlength₂) fun _ W₃ m₃ _ hk₃ _ => ?_
    have hgrown := (hk₂.trans hk₃).grown
    refine .pure hk₃.sound ⟨hgrown.fits hi, ?_⟩
    rintro _ ⟨⟩
    exact ⟨rfl, Nat.lt_of_lt_of_le hsize hgrown.instances⟩

theorem meets_invoke {callee : Value} {paren : Token} {vs : List Value} (h : Sound P W m)
    (hcallee : callee.Fits P W m) (hvs : ∀ v ∈ vs, v.Fits P W m)
    (hends : Ends P g? W m (fun W' m' v => v.Fits P W' m' ∧ callee.Constructs m v m')
      (Machine.invoke n callee paren vs m)) :
    Moment.Meets P ⟨n, .invoke callee paren vs, m⟩ := by
  refine ⟨⟨W, h, hcallee, hvs⟩, fun v m' hok => ?_⟩
  dsimp only at hok
  rw [hok] at hends
  obtain ⟨W', -, -, hconstructs⟩ := hends
  exact hconstructs

theorem safeInvocation_succ (ih : SafeCall P n) : SafeInvocation P (n + 1) := by
  intro W m callee paren vs h hcallee hvs
  refine Safe.imp (Safe.ending (fun _ => ?_) fun _ => meets_invoke h hcallee hvs)
    fun _ _ _ _ hv => hv.1
  cases callee with
  | native f =>
    refine Safe.andThen (safe_checkArity h f.arity vs.length paren) ?_
    rintro _ _ _ - - ⟨rfl, rfl, -⟩
    exact (safe_callNative h f paren hvs).imp fun _ _ _ _ hv => ⟨hv, nofun⟩
  | function _ f =>
    refine Safe.before (safe_checkArity h f.arity vs.length paren) ?_
    rintro _ _ _ - - ⟨rfl, rfl, harity⟩
    exact (ih h hcallee hvs harity).imp fun _ _ _ _ hv => ⟨hv, nofun⟩
  | «class» c => exact safe_construct ih h hcallee hvs
  | _ => exact .fail h

/-- The frame of a call, when the call begins. -/
theorem instance_of_call {f : Closure} {paren : Token} {vs : List Value}
    (hM : P.moment ⟨n + 1, .call f paren vs, m⟩) (hlength : vs.length = f.arity)
    (hmade : ∃ O, P.moment O ∧ O.Makes f) :
    Instance P ⟨n + 1, .call f paren vs, m⟩ ⟨m.frames.frames.size⟩ ⟨f.frame, vs.toArray⟩
      (.function f.function) := by
  obtain ⟨name, ⟨params, body⟩, outer, isInitializer⟩ := f
  have hparams : vs.length = params.length := hlength
  refine ⟨hM, ⟨by simp, rfl, rfl⟩, rfl, ?_, fun slot hslot => ?_, ?_, ?_, ?_⟩
  · simp [Site.names, hparams]
  · have hslot' : slot < vs.length := by simpa using hslot
    have hlt : slot < params.length := by omega
    refine ⟨_, params[slot].lexeme, hM, ?_, rfl, hslot', ?_⟩
    · rw [Site.names, List.getElem?_append_left (by simpa using hlt)]
      simp [hlt]
    · simp [hlt]
  · rintro _ _ ⟨⟩
  · rintro _ _ _ ⟨⟩
  · rintro _ (⟨_, _, ⟨⟩⟩ | ⟨_, ⟨⟩⟩)
    exact hmade

/-- A machine that has gone into a new frame is where the scope of the frame is entered. -/
theorem here_push {M : Moment} {enclosing : Option FrameRef} {vs : List Value} {site : Site}
    (h : Sound P W m)
    (hinstance : Instance P M ⟨m.frames.frames.size⟩ ⟨enclosing, vs.toArray⟩ site)
    (hvs : ∀ v ∈ vs, v.Fits P W m) (hL : Stands P W m.frames enclosing L)
    (hproper : L.Proper) (hsite : site.Ordinary) (hsuper : ∀ ms, site ≠ .super ms) :
    Sound P (W ++ [M]) { m with
        frames := m.frames.push enclosing vs, frame := some ⟨m.frames.frames.size⟩ } ∧
      Here P (W ++ [M]) { m with
        frames := m.frames.push enclosing vs, frame := some ⟨m.frames.frames.size⟩ }
        (site.enter vs.length L) := by
  refine ⟨(h.push hinstance hvs).congr rfl rfl rfl rfl rfl,
    stands_push h hinstance.creates.site hL, hproper.enter hsite hsuper _, ?_⟩
  rintro _ _ ⟨⟩ ⟨⟩
  refine ⟨?_, rfl⟩
  have hget : (m.frames.push enclosing vs).get? ⟨m.frames.frames.size⟩ =
      some ⟨enclosing, vs.toArray⟩ := by
    rw [Frames.get?_push, if_pos rfl]
  exact Frames.size_of_get? hget

theorem get?_size (s : Frames Value) : s.get? ⟨s.frames.size⟩ = none := by
  simp [Frames.get?]

/-- The frame that a method was bound in holds its receiver for good. -/
theorem Sound.receiver {g : FrameRef} {B : Moment} {f : Closure} {r v : Value} (h : Sound P W m)
    (hB : W[g.index]? = some B) (htask : B.task = .bind f r)
    (hv : m.frames.getAt g ⟨0, 0⟩ = .ok v) : v = r := by
  have hcell : m.frames.cell? g 0 = some v := by
    cases hcell : m.frames.cell? g 0 with
    | none => simp [Frames.getAt, Frames.ancestor?, hcell] at hv
    | some u => simpa [Frames.getAt, Frames.ancestor?, hcell] using hv
  cases hg : m.frames.get? g with
  | none => simp [Frames.cell?, hg] at hcell
  | some frame =>
    obtain ⟨site, hi⟩ := h.frames g frame B hg hB
    have hcells := (hi.receiver f r htask).1
    simpa [Frames.cell?, hg, hcells, eq_comm] using hcell

/-- What a call gives, and where the receiver is if an initializer has been called. -/
def Closure.Gives (f : Closure) (P : History) (W : World) (m : Machine) (v : Value) : Prop :=
  v.Fits P W m ∧ (f.isInitializer = true →
    ∃ g, f.frame = some g ∧ m.frames.getAt g ⟨0, 0⟩ = .ok v)

/-- An initializer that can be called has been bound to an instance, and when the call has ended
this instance is still there. -/
theorem Closure.Fits.returns {f : Closure} {r : EStateM.Result Stop Machine Value}
    (h : Sound P W m) (hf : f.Fits P W m) (hinit : f.isInitializer = true)
    (hends : Ends P g? W m (f.Gives P) r) : f.Returns P m r := by
  obtain ⟨g, B, enclosing, receiver, hg, hB, htask⟩ := hf.bound hinit
  obtain ⟨⟨L, hstands, -⟩, -⟩ := hf.callable
  rw [hg] at hstands
  cases hstands with
  | frame hget =>
    obtain ⟨site, hi⟩ := h.frames g _ B hget hB
    obtain ⟨hcells, i, c, rfl⟩ := hi.receiver _ _ htask
    have hthis : m.frames.getAt g ⟨0, 0⟩ = .ok (.instance i c) := by
      simp [Frames.getAt, Frames.ancestor?, Frames.cell?, hget, hcells]
    refine ⟨B, enclosing, i, c, hi.happened, htask, hi.creates.ref ▸ hg, hi.creates.ref ▸ hthis,
      fun v m' hok => ?_⟩
    rw [hok] at hends
    obtain ⟨W', hk, -, hreceiver⟩ := hends
    obtain ⟨g', hg', hget'⟩ := hreceiver hinit
    obtain rfl : g = g' := Option.some.inj (hg.symm.trans hg')
    exact hk.sound.receiver (getElem?_extend hk.grown.world hB) htask hget'

theorem meets_call {f : Closure} {paren : Token} {vs : List Value} (h : Sound P W m)
    (hf : f.Fits P W m) (hends : Ends P g? W m (f.Gives P) (Machine.call n f paren vs m)) :
    Moment.Meets P ⟨n, .call f paren vs, m⟩ := by
  obtain ⟨⟨L, -, hsuits⟩, -⟩ := hf.callable
  exact ⟨hsuits.formed, fun hinit => hf.returns h hinit hends⟩

theorem safeCall_succ (ih : SafeStmts P n) : SafeCall P (n + 1) := by
  intro W m f paren vs h hf hvs hlength
  obtain ⟨⟨L, hstands, hproper, hknown, hformed⟩, hmade⟩ := hf.callable
  refine Safe.imp (Safe.ending (fun hM => ?_) fun _ => meets_call h hf) fun _ _ _ _ hv => hv.1
  have hinstance := instance_of_call hM hlength hmade
  obtain ⟨hsound, hhere⟩ := here_push h hinstance hvs hstands hproper hformed.ordinary (by simp)
  refine Safe.of_fresh ?_ (get?_size m.frames)
  unfold Machine.call Moment.calls
  refine Safe.before (safe_newFrame h hinstance hvs) ?_
  rintro _ _ _ - hk ⟨rfl, rfl, rfl⟩
  obtain ⟨name, ⟨params, body⟩, outer, isInitializer⟩ := f
  rw [show vs.length = params.length from hlength] at hhere
  have hknown' := hknown.enter (Site.function ⟨params, body⟩) params.length
  have hbody := ih hsound hhere hformed.2 hknown' (expectsAll_function params body)
  refine Safe.andThen (Safe.within hbody) fun flow W₁ m₁ _ hk₁ hflow => ?_
  cases isInitializer with
  | true =>
    exact (safe_boundReceiver hk₁.sound _ paren).imp fun _ _ _ _ hv => ⟨hv.1, fun _ => hv.2⟩
  | false =>
    have hleft : flow.Fits P W₁ m₁ := hflow.leave
    cases flow with
    | «return» v => exact .pure hk₁.sound ⟨hleft, by simp⟩
    | _ => exact .pure hk₁.sound ⟨trivial, by simp⟩

end Lox
