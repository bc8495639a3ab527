import Lox.Proofs.Machine.Safe

namespace Lox

variable {P : History} {g? : Option FrameRef} {W W' : World} {m m' : Machine} {L : Lexical}

theorem Safe.of_eq {α : Type} {p : Step α} {a : α} {Q : World → Machine → α → Prop}
    (hp : p m = .ok a m') (hk : Kept P g? W m W' m') (hQ : Q W' m' a) : Safe P g? W m p [] Q := by
  intro _
  rw [hp]
  exact ⟨by simp, W', hk, hQ⟩

theorem Safe.of_error {α : Type} {p : Step α} {e : Stop} {Q : World → Machine → α → Prop}
    (hp : p m = .error e m) (h : Sound P W m) : Safe P g? W m p [] Q := by
  intro _
  rw [hp]
  exact ⟨by simp, W, .refl h⟩

/-- A change of other things than the frames. -/
theorem Kept.of_frames (h : Sound P W m') (hframes : m'.frames = m.frames)
    (hnatives : m'.natives = m.natives) (hinstances : m.instances.size ≤ m'.instances.size)
    (hframe : m'.frame = m.frame) : Kept P g? W m W m' :=
  ⟨.of_eq hframes hnatives hinstances, hframe, h⟩

theorem safe_write (h : Sound P W m) (line : String) :
    Safe P g? W m (Machine.write line) [] fun W' m' _ => W = W' ∧ m'.frames = m.frames :=
  .of_eq rfl (.of_frames (h.congr rfl rfl rfl rfl rfl) rfl rfl (Nat.le_refl _) rfl) ⟨rfl, rfl⟩

theorem safe_mintIdentity (h : Sound P W m) :
    Safe P g? W m Machine.mintIdentity [] fun W' m' _ => W = W' ∧ m'.frames = m.frames :=
  .of_eq rfl (.of_frames (h.congr rfl rfl rfl rfl rfl) rfl rfl (Nat.le_refl _) rfl) ⟨rfl, rfl⟩

theorem safe_nextTurn (h : Sound P W m) :
    Safe P g? W m Machine.nextTurn [] fun W' m' _ => W = W' ∧ m'.frames = m.frames :=
  .of_eq rfl (.of_frames (h.congr rfl rfl rfl rfl rfl) rfl rfl (Nat.le_refl _) rfl) ⟨rfl, rfl⟩

theorem safe_get (h : Sound P W m) :
    Safe P g? W m (get : Step Machine) [] fun W' m' a => W = W' ∧ m = m' ∧ m = a :=
  .of_eq rfl (.refl h) ⟨rfl, rfl, rfl⟩

theorem safe_checkArity (h : Sound P W m) (expected got : Nat) (paren : Token) :
    Safe P g? W m (Machine.checkArity expected got paren) []
      fun W' m' _ => W = W' ∧ m = m' ∧ got = expected := by
  unfold Machine.checkArity
  split
  · exact .fail h
  next heq => exact .pure h ⟨rfl, rfl, Decidable.not_not.mp heq⟩

theorem safe_newFunction (h : Sound P W m) (f : Closure) :
    Safe P g? W m (Machine.functionValue f) [] fun W' m' v =>
      W = W' ∧ m'.frames = m.frames ∧ ∃ identity, v = .function identity f :=
  Safe.andThen (safe_mintIdentity h) fun identity _ _ _ hk ⟨hW, hframes⟩ =>
    .pure hk.sound ⟨hW, hframes, identity, rfl⟩

theorem safe_functionValue {f : Closure} (h : Sound P W m) (hf : f.Fits P W m) :
    Safe P g? W m (Machine.functionValue f) [] fun W' m' v => v.Fits P W' m' := by
  refine (safe_newFunction h f).imp ?_
  rintro W' m' _ hk ⟨-, -, _, rfl⟩
  exact hk.grown.closure_fits hf

theorem safe_newInstance (h : Sound P W m) :
    Safe P g? W m Machine.newInstance [] fun W' m' i =>
      W = W' ∧ i = ⟨m.instances.size⟩ ∧ m.instances.size < m'.instances.size := by
  have hsize : m.instances.size < (m.instances.push ∅).size := by simp
  have hsound : Sound P W { m with instances := m.instances.push ∅ } :=
    h.store rfl rfl rfl hsize.le h.stored.newInstance
  exact .of_eq rfl (.of_frames hsound rfl rfl hsize.le rfl) ⟨rfl, rfl, hsize⟩

theorem safe_setField {v : Value} (h : Sound P W m) (i : InstanceRef) (name : Token)
    (hv : v.Fits P W m) :
    Safe P g? W m (Machine.setField i name v) [] fun W' m' _ => W = W' ∧ m'.frames = m.frames := by
  have hsize : m.instances.size ≤ (m.instances.modify i.index fun fields =>
      fields.insert name.lexeme v).size := by simp
  have hsound : Sound P W { m with
      instances := m.instances.modify i.index fun fields => fields.insert name.lexeme v } :=
    h.store rfl rfl rfl hsize (h.stored.setField i.index name.lexeme hv)
  exact .of_eq rfl (.of_frames hsound rfl rfl hsize rfl) ⟨rfl, rfl⟩

/-- What an honest host function makes up is no function, and a class or an instance without
methods. -/
theorem Value.fits_of_good {v : Value} (hgood : ∀ P W s, v.Good P W s)
    (hplain : (∀ body ∈ m.natives, body.Plain) → v.Plain) : v.Fits P W m := by
  have hclass : ∀ c : Class, (∀ P W s, c.Good P W s) → c.Fits P W m := fun c hc =>
    ⟨hc P W m.frames, fun name f hf => by
      obtain ⟨-, O, hO, -⟩ := hc ⟨fun _ => False, fun _ => False⟩ [] m.frames name f hf
      exact hO.elim⟩
  cases v with
  | function identity f =>
    obtain ⟨-, O, hO, -⟩ := hgood ⟨fun _ => False, fun _ => False⟩ [] m.frames
    exact hO.elim
  | «class» c => exact hclass c hgood
  | «instance» i c => exact ⟨hclass c hgood, fun hnatives => (hplain hnatives).elim⟩
  | _ => trivial

theorem safe_callNative (h : Sound P W m) (f : NativeRef) (paren : Token) {vs : List Value}
    (hvs : ∀ v ∈ vs, v.Fits P W m) :
    Safe P g? W m (Machine.callNative f paren vs) [] fun W' m' v => v.Fits P W' m' := by
  refine Safe.andThen (safe_nextTurn h) fun turn W' m' _ hk _ => ?_
  refine Safe.andThen (safe_get hk.sound) ?_
  rintro _ _ _ - - ⟨rfl, rfl, rfl⟩
  split
  · exact .pure hk.sound trivial
  next body hbody =>
    split
    next v hv =>
      refine .pure hk.sound ?_
      by_cases hmem : v ∈ vs
      · exact hk.fits (hvs v hmem)
      · have hgood := (hk.sound.natives _ body hbody turn vs v hv).resolve_left hmem
        exact Value.fits_of_good hgood fun hplain =>
          (hplain body (Array.mem_of_getElem? hbody) turn vs v hv).resolve_left hmem
    next => exact .fail hk.sound

theorem safe_readLocal (h : Sound P W m) (name : Token) (a : Address) :
    Safe P g? W m (Machine.readLocal name a) [] fun W' m' v =>
      W = W' ∧ m = m' ∧ v.Fits P W m := by
  refine Safe.andThen (safe_get h) ?_
  rintro _ _ _ - - ⟨rfl, rfl, rfl⟩
  split
  · exact .fail h
  · split
    next v hv => exact .pure h ⟨rfl, rfl, h.stored.getAt hv⟩
    next => exact .fail h

theorem safe_readVariable (h : Sound P W m) (id : Nat) (name : Token) :
    Safe P g? W m (Machine.readVariable id name) [] fun W' m' v => v.Fits P W' m' := by
  refine Safe.andThen (safe_get h) ?_
  rintro _ _ _ - - ⟨rfl, rfl, rfl⟩
  split
  next a _ =>
    refine (safe_readLocal h name a).imp ?_
    rintro _ _ v - ⟨rfl, rfl, hv⟩
    exact hv
  · split
    next v hv => exact .pure h (h.stored.globals _ v hv)
    next => exact .fail h

theorem safe_receiver (h : Sound P W m) (keyword : Token) (a : Address) :
    Safe P g? W m (Machine.receiver keyword a) [] fun W' m' r =>
      W = W' ∧ m = m' ∧ (Value.instance r.1 r.2).Fits P W m := by
  refine Safe.andThen (safe_get h) ?_
  rintro _ _ _ - - ⟨rfl, rfl, rfl⟩
  split
  · split
    next v hv => exact .pure h ⟨rfl, rfl, h.stored.getAt hv⟩
    next => exact .fail h
  next => exact .fail h

theorem safe_boundReceiver (h : Sound P W m) (f : Closure) (paren : Token) :
    Safe P g? W m (Machine.boundReceiver f paren) [] fun W' m' v => v.Fits P W' m' ∧
      ∃ g, f.frame = some g ∧ m'.frames.getAt g ⟨0, 0⟩ = .ok v := by
  refine Safe.andThen (safe_get h) ?_
  rintro _ _ _ - - ⟨rfl, rfl, rfl⟩
  split
  · exact .fail h
  next g hg =>
    split
    next v hv => exact .pure h ⟨h.stored.getAt hv, g, hg, hv⟩
    next => exact .fail h

/-- A new frame is sound if it is an instance of the scope that it is made for. -/
theorem Sound.push {M : Moment} {enclosing : Option FrameRef} {vs : List Value} {site : Site}
    (h : Sound P W m)
    (hinstance : Instance P M ⟨m.frames.frames.size⟩ ⟨enclosing, vs.toArray⟩ site)
    (hvs : ∀ v ∈ vs, v.Fits P W m) :
    Sound P (W ++ [M]) { m with frames := m.frames.push enclosing vs } := by
  have hW : W <+: W ++ [M] := List.prefix_append _ _
  refine ⟨h.table, ?_, fun g frame M' hg hM' => ?_, ?_, h.natives⟩
  · simp [Frames.push, h.length]
  · rw [Frames.get?_push] at hg
    split at hg
    next hnew =>
      obtain rfl := Option.some.inj hg
      obtain ⟨i⟩ := g
      obtain rfl : i = m.frames.frames.size := hnew
      rw [← h.length, List.getElem?_concat_length] at hM'
      obtain rfl := Option.some.inj hM'
      exact ⟨site, hinstance⟩
    next =>
      have hlt := Frames.get?_eq_some hg
      rw [List.getElem?_append_left (by rw [h.length]; exact hlt)] at hM'
      exact h.frames g frame M' hg hM'
  · have hgrown : Grown none W m (W ++ [M]) { m with frames := m.frames.push enclosing vs } :=
      .of_frames (Frames.grows_push _ _ _) hW
    exact (h.stored.push enclosing hvs).imp fun _ => hgrown.fits

theorem safe_newFrame {M : Moment} {enclosing : Option FrameRef} {vs : List Value} {site : Site}
    (h : Sound P W m)
    (hinstance : Instance P M ⟨m.frames.frames.size⟩ ⟨enclosing, vs.toArray⟩ site)
    (hvs : ∀ v ∈ vs, v.Fits P W m) :
    Safe P g? W m (Machine.newFrame enclosing vs) [] fun W' m' f => f = ⟨m.frames.frames.size⟩ ∧
      W' = W ++ [M] ∧ m' = { m with frames := m.frames.push enclosing vs } :=
  .of_eq (Machine.newFrame_apply enclosing vs m)
    ⟨.of_frames (Frames.grows_push _ _ _) (List.prefix_append _ _), rfl, h.push hinstance hvs⟩
    ⟨rfl, rfl, rfl⟩

/-- The new frame stands where the scope is entered. -/
theorem stands_push {M : Moment} {enclosing : Option FrameRef} {vs : List Value} {site : Site}
    (h : Sound P W m) (hM : M.task.site? = some site) (hL : Stands P W m.frames enclosing L) :
    Stands P (W ++ [M]) (m.frames.push enclosing vs) (some ⟨m.frames.frames.size⟩)
      (site.enter vs.length L) := by
  have hget : (m.frames.push enclosing vs).get? ⟨m.frames.frames.size⟩ =
      some ⟨enclosing, vs.toArray⟩ := by
    rw [Frames.get?_push, if_pos rfl]
  refine .frame (M := M) hget ?_ hM ?_ ?_ ?_
  · show (W ++ [M])[m.frames.frames.size]? = some M
    rw [← h.length, List.getElem?_concat_length]
  · simp
  · rintro t value ⟨⟩
  · have hgrows : Frames.Grows none m.frames (m.frames.push enclosing vs) :=
      Frames.grows_push _ _ _
    exact hL.mono (List.prefix_append _ _) hgrows

end Lox
