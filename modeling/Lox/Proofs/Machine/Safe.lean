import Lox.Proofs.Machine.World

namespace Lox

/-- A node looks up its name where it stands in the text. -/
def Located (P : History) (m : Machine) (role : Role) (id : Nat) (name : Token) : Prop :=
  ∃ W L, Sound P W m ∧ Stands P W m.frames m.frame L ∧ L.Proper ∧
    Known P L [⟨role, id, name, L⟩] ∧ role.Names name

/-- A statement is executed where it stands in the text. -/
def Stmt.Located (P : History) (m : Machine) (s : Stmt) : Prop :=
  ∃ W L loop, Sound P W m ∧ Stands P W m.frames m.frame L ∧ L.Proper ∧ Known P L (s.nodes L) ∧
    s.Formed loop

/-- An initializer has been bound to an instance, which is still in its frame, and gives it back. -/
def Closure.Returns (P : History) (f : Closure) (m : Machine)
    (r : EStateM.Result Stop Machine Value) : Prop :=
  ∃ B enclosing i c, P.moment B ∧ B.task = .bind { f with frame := enclosing } (.instance i c) ∧
    f.frame = some B.newRef ∧ m.frames.getAt B.newRef ⟨0, 0⟩ = .ok (.instance i c) ∧
    ∀ v m', r = .ok v m' → v = .instance i c

/-- What is called and gives back `v` makes the next instance, if it is a class. -/
def Value.Constructs (callee : Value) (m : Machine) (v : Value) (m' : Machine) : Prop :=
  ∀ c, callee = .class c →
    v = .instance ⟨m.instances.size⟩ c ∧ m.instances.size < m'.instances.size

/-- What is required of a moment. -/
def Moment.Meets (P : History) (M : Moment) : Prop :=
  match M.task with
  | .access role id name => Located P M.machine role id name
  | .evaluate e => ∀ v m, Machine.evaluate M.allowance e M.machine = .ok v m → ∃ W, v.Fits P W m
  | .invoke callee paren arguments =>
    (∃ W, Sound P W M.machine ∧ callee.Fits P W M.machine ∧ ∀ v ∈ arguments, v.Fits P W M.machine) ∧
      ∀ v m, Machine.invoke M.allowance callee paren arguments M.machine = .ok v m →
        callee.Constructs M.machine v m
  | .call f paren arguments => f.function.Formed ∧ (f.isInitializer = true →
      f.Returns P M.machine (Machine.call M.allowance f paren arguments M.machine))
  | .execute s => s.Located P M.machine
  | _ => True

/-- From one machine to the next: the frame is the same again, and only the frame `g?` may have got
more cells than it had. -/
structure Kept (P : History) (g? : Option FrameRef) (W : World) (m : Machine) (W' : World)
    (m' : Machine) : Prop where
  grown : Grown g? W m W' m'
  frame : m'.frame = m.frame
  sound : Sound P W' m'

/-- What holds when a step has ended. -/
def Ends {α : Type} (P : History) (g? : Option FrameRef) (W : World) (m : Machine)
    (Q : World → Machine → α → Prop) : EStateM.Result Stop Machine α → Prop
  | .ok a m' => ∃ W', Kept P g? W m W' m' ∧ Q W' m' a
  | .error _ m' => ∃ W', Kept P g? W m W' m'

/-- The step `p`, which goes through these moments, is safe and leads to `Q`. -/
def Safe {α : Type} (P : History) (g? : Option FrameRef) (W : World) (m : Machine) (p : Step α)
    (calls : List Moment) (Q : World → Machine → α → Prop) : Prop :=
  (∀ M ∈ calls, ∀ M', M.Reaches M' → P.moment M') →
    (∀ M ∈ calls, ∀ M', M.Reaches M' → M'.Meets P) ∧ Ends P g? W m Q (p m)

variable {α β : Type} {P : History} {g? : Option FrameRef} {W W' : World} {m m' : Machine}
  {p : Step α} {calls : List Moment} {Q Q' : World → Machine → α → Prop}
  {R : World → Machine → β → Prop}

theorem Kept.refl (h : Sound P W m) : Kept P g? W m W m := ⟨.of_eq rfl rfl (Nat.le_refl _), rfl, h⟩

theorem Kept.trans {W'' : World} {m'' : Machine} (h : Kept P g? W m W' m')
    (h' : Kept P g? W' m' W'' m'') : Kept P g? W m W'' m'' :=
  ⟨h.grown.trans h'.grown, h'.frame.trans h.frame, h'.sound⟩

theorem Kept.fits {v : Value} (h : Kept P g? W m W' m') (hv : v.Fits P W m) : v.Fits P W' m' :=
  h.grown.fits hv

theorem Kept.stands {L : Lexical} (h : Kept P g? W m W' m') (hL : Stands P W m.frames m.frame L) :
    Stands P W' m'.frames m'.frame L := by
  rw [h.frame]
  exact hL.mono h.grown.world h.grown.frames

theorem Ends.imp {r : EStateM.Result Stop Machine α} (h : Ends P g? W m Q r)
    (hQ : ∀ W' m' a, Kept P g? W m W' m' → Q W' m' a → Q' W' m' a) : Ends P g? W m Q' r := by
  cases r with
  | ok a m' =>
    obtain ⟨W', hk, hq⟩ := h
    exact ⟨W', hk, hQ W' m' a hk hq⟩
  | error e m' => exact h

theorem Ends.after {r : EStateM.Result Stop Machine α} (hk : Kept P g? W m W' m')
    (h : Ends P g? W' m' Q r) : Ends P g? W m Q r := by
  cases r with
  | ok a m'' =>
    obtain ⟨W'', hk', hq⟩ := h
    exact ⟨W'', hk.trans hk', hq⟩
  | error e m'' =>
    obtain ⟨W'', hk'⟩ := h
    exact ⟨W'', hk.trans hk'⟩

namespace Safe

theorem imp (h : Safe P g? W m p calls Q)
    (hQ : ∀ W' m' a, Kept P g? W m W' m' → Q W' m' a → Q' W' m' a) :
    Safe P g? W m p calls Q' :=
  fun hP => ⟨(h hP).1, (h hP).2.imp hQ⟩

theorem of_grows {f? : Option FrameRef} (h : Safe P g? W m p calls Q)
    (hs : ∀ s, Frames.Grows g? m.frames s → Frames.Grows f? m.frames s) :
    Safe P f? W m p calls Q := by
  have hkept : ∀ {W' m'}, Kept P g? W m W' m' → Kept P f? W m W' m' := fun {W' m'} hk =>
    ⟨hk.grown.of_grows (hs _ hk.grown.frames), hk.frame, hk.sound⟩
  intro hP
  obtain ⟨hmeets, hends⟩ := h hP
  refine ⟨hmeets, ?_⟩
  unfold Ends at hends ⊢
  split at hends
  · obtain ⟨W', hk, hq⟩ := hends
    exact ⟨W', hkept hk, hq⟩
  · obtain ⟨W', hk⟩ := hends
    exact ⟨W', hkept hk⟩

theorem of_none (h : Safe P none W m p calls Q) : Safe P g? W m p calls Q :=
  h.of_grows fun _ => Frames.Grows.of_none

/-- What happens in a frame that was not there before does not count. -/
theorem of_fresh {g : FrameRef} (h : Safe P (some g) W m p calls Q)
    (hg : m.frames.get? g = none) : Safe P none W m p calls Q :=
  h.of_grows fun _ hs => hs.of_fresh hg

theorem pure {a : α} (h : Sound P W m) (hQ : Q W m a) :
    Safe P g? W m (Pure.pure a) [] Q :=
  fun _ => ⟨by simp, W, .refl h, hQ⟩

theorem throw {e : Stop} (h : Sound P W m) :
    Safe P g? W m (MonadExcept.throw e : Step α) [] Q :=
  fun _ => ⟨by simp, W, .refl h⟩

theorem fail {e : RuntimeError} (h : Sound P W m) : Safe P g? W m (Machine.fail e) [] Q :=
  throw h

theorem ofExcept {r : Except RuntimeError α} (h : Sound P W m) (hQ : ∀ a, r = .ok a → Q W m a) :
    Safe P g? W m (Machine.ofExcept r) [] Q := by
  cases r with
  | ok a => exact pure h (hQ a rfl)
  | error e => exact fail h

/-- Steps that follow each other go through the moments of the first, and then of the second. -/
theorem bind {k : α → Step β} {c : α → Machine → List Moment} (h : Safe P g? W m p calls Q)
    (hk : ∀ a W' m', p m = .ok a m' → Kept P g? W m W' m' → Q W' m' a →
      Safe P g? W' m' (k a) (c a m') R) :
    Safe P g? W m (p >>= k) (calls ++ Lox.after p m c) R := by
  intro hP
  obtain ⟨hmeets, hends⟩ := h fun M hM => hP M (List.mem_append_left _ hM)
  rw [Machine.bind_apply]
  cases hp : p m with
  | error e m' =>
    rw [hp] at hends
    refine ⟨fun M hM => ?_, hends⟩
    simp only [Lox.after, hp, List.append_nil] at hM
    exact hmeets M hM
  | ok a m' =>
    rw [hp] at hends
    obtain ⟨W', hkept, hq⟩ := hends
    have hnext : Lox.after p m c = c a m' := by simp only [Lox.after, hp]
    rw [hnext] at hP ⊢
    obtain ⟨hmeets', hends'⟩ := hk a W' m' hp hkept hq fun M hM =>
      hP M (List.mem_append_right _ hM)
    refine ⟨fun M hM => ?_, .after hkept hends'⟩
    rcases List.mem_append.mp hM with hM | hM
    · exact hmeets M hM
    · exact hmeets' M hM

/-- A step that goes through no moment of its own may follow. -/
theorem andThen {k : α → Step β} (h : Safe P g? W m p calls Q)
    (hk : ∀ a W' m', p m = .ok a m' → Kept P g? W m W' m' → Q W' m' a →
      Safe P g? W' m' (k a) [] R) :
    Safe P g? W m (p >>= k) calls R := by
  have hnext : Lox.after p m (fun _ _ => []) = [] := by
    unfold Lox.after
    split <;> rfl
  have hsafe := bind (c := fun _ _ => []) h hk
  rwa [hnext, List.append_nil] at hsafe

/-- A step that goes through no moment of its own may stand in front. -/
theorem before {k : α → Step β} {c : α → Machine → List Moment} (h : Safe P g? W m p [] Q)
    (hk : ∀ a W' m', p m = .ok a m' → Kept P g? W m W' m' → Q W' m' a →
      Safe P g? W' m' (k a) (c a m') R) :
    Safe P g? W m (p >>= k) (Lox.after p m c) R := bind h hk

theorem map {f : α → β} (h : Safe P g? W m p calls Q) :
    Safe P g? W m (f <$> p) calls fun W' m' b => ∃ a, b = f a ∧ Q W' m' a := by
  rw [← bind_pure_comp]
  exact andThen h fun a W' m' _ hk hq => pure hk.sound ⟨a, rfl, hq⟩

/-- What a moment does is safe if what it goes through is. How it ends may be needed for what is
required of it. -/
theorem ending {M : Moment} (h : P.moment M → Safe P g? W m p M.calls Q)
    (hM : P.moment M → Ends P g? W m Q (p m) → M.Meets P) : Safe P g? W m p [M] Q := by
  intro hP
  have hreach := hP M (by simp)
  have hmoment := hreach M .refl
  obtain ⟨hcalls, hends⟩ := h hmoment fun M' hM' M'' h => hreach M'' (.head hM' h)
  refine ⟨fun M₁ hM₁ M' hreaches => ?_, hends⟩
  obtain rfl := List.mem_singleton.mp hM₁
  rcases Relation.ReflTransGen.cases_head hreaches with rfl | ⟨M₂, hM₂, hreaches⟩
  · exact hM hmoment hends
  · exact hcalls M₂ hM₂ M' hreaches

theorem enter {M : Moment} (h : P.moment M → M.Meets P ∧ Safe P g? W m p M.calls Q) :
    Safe P g? W m p [M] Q :=
  ending (fun hM => (h hM).2) fun hM _ => (h hM).1

/-- A moment that goes through no other may come first. -/
theorem also {M : Moment} (hM : P.moment M → M.Meets P) (hnone : M.calls = [])
    (h : Safe P g? W m p calls Q) : Safe P g? W m p ([M] ++ calls) Q := by
  intro hP
  obtain ⟨hmeets, hends⟩ := h fun M' hM' => hP M' (List.mem_append_right _ hM')
  refine ⟨fun M₁ hM₁ M' hreaches => ?_, hends⟩
  rcases List.mem_append.mp hM₁ with hM₁ | hM₁
  · obtain rfl := List.mem_singleton.mp hM₁
    rcases Relation.ReflTransGen.cases_head hreaches with rfl | ⟨M₂, hM₂, -⟩
    · exact hM (hP M₁ (by simp) M₁ .refl)
    · simp [hnone] at hM₂
  · exact hmeets M₁ hM₁ M' hreaches

/-- A step in another frame leads back to the frame where the machine was. -/
theorem within {f : FrameRef} (h : Safe P g? W { m with frame := some f } p calls Q) :
    Safe P g? W m (Machine.within f p) calls fun W' m' a =>
      Q W' { m' with frame := some f } a := by
  intro hP
  obtain ⟨hmeets, hends⟩ := h hP
  refine ⟨hmeets, ?_⟩
  unfold Machine.within
  cases hp : p { m with frame := some f } with
  | ok a m' =>
    rw [hp] at hends
    obtain ⟨W', hk, hq⟩ := hends
    have hframe : m'.frame = some f := hk.frame
    refine ⟨W', ⟨hk.grown.leave, rfl, hk.sound.congr rfl rfl rfl rfl rfl⟩, ?_⟩
    show Q W' { m' with frame := some f } a
    rw [← hframe]
    exact hq
  | error e m' =>
    rw [hp] at hends
    obtain ⟨W', hk⟩ := hends
    exact ⟨W', hk.grown.leave, rfl, hk.sound.congr rfl rfl rfl rfl rfl⟩

end Safe

end Lox
