import Lox.Proofs.Loop.Clauses
import Lox.Proofs.Loop.Evaluation

namespace Lox.Machine

variable {α β γ δ : Type} (M : Framing → Machine → Machine → Prop)

/-- `P'` has an outcome like `r`, in a framing that has grown from `W`. -/
def Matched (V : Framing → α → β → Prop) (W : Framing) (P' : Ending β → Prop) (r : Ending α) :
    Prop :=
  ∃ r' W', P' r' ∧ W.Within W' ∧ ResultRel (M W') Eq (V W') r r'

/-- Whatever `P` leads to, `P'` leads to something like it from related machines. -/
def Follows (V : Framing → α → β → Prop) (P : Machine → Ending α → Prop)
    (P' : Machine → Ending β → Prop) : Prop :=
  ∀ W m m', M W m m' → ∀ r, P m r → Matched M V W (P' m') r

namespace Follows

variable {M} {V : Framing → α → β → Prop} {U : Framing → γ → δ → Prop}
  {P : Machine → Ending α → Prop} {P' : Machine → Ending β → Prop}

theorem const {a : α} {b : β} (h : ∀ W, V W a b) :
    Follows M V (fun m r => r = .ok a m) (fun m r => r = .ok b m) := by
  rintro W m m' hm _ rfl
  exact ⟨_, W, rfl, .refl W, .ok (h W) hm⟩

theorem bind {next : α → Machine → Ending γ → Prop} {next' : β → Machine → Ending δ → Prop}
    (h : Follows M V P P') (hnext : ∀ W a b, V W a b → ∀ m m', M W m m' → ∀ r, next a m r →
      Matched M U W (next' b m') r) :
    Follows M U (Chain P next) (Chain P' next') := by
  rintro W m m' hm r ⟨r₁, hP, hr⟩
  obtain ⟨r₁', W₁, hP', hW, hrel⟩ := h W m m' hm r₁ hP
  cases hrel with
  | ok hab hm₁ =>
    obtain ⟨r', W₂, hr', hW', hrel⟩ := hnext W₁ _ _ hab _ _ hm₁ r hr
    exact ⟨r', W₂, ⟨_, hP', hr'⟩, hW.trans hW', hrel⟩
  | error he hm₁ =>
    obtain rfl := hr
    exact ⟨_, W₁, ⟨_, hP', rfl⟩, hW, .error he hm₁⟩

theorem andThen {N : Machine → Ending γ → Prop} {N' : Machine → Ending δ → Prop}
    (h : Follows M V P P') (hN : Follows M U N N') :
    Follows M U (Chain P fun _ => N) (Chain P' fun _ => N') :=
  h.bind fun W _ _ _ m m' hm r hr => hN W m m' hm r hr

/-- Both machines go into a new frame, and back. -/
theorem apart (henter : ∀ W m m', M W m m' → ∃ W', W.Within W' ∧ M W' m.entered m'.entered)
    (hback : ∀ {W W' m m' n n'}, M W m m' → W.Within W' → M W' n n' →
      M W' { n with frame := m.frame } { n' with frame := m'.frame })
    (h : Follows M V P P') : Follows M V (Apart P) (Apart P') := by
  rintro W m m' hm _ ⟨r, hP, rfl⟩
  obtain ⟨W₁, hW, hm₁⟩ := henter W m m' hm
  obtain ⟨r', W₂, hP', hW', hrel⟩ := h W₁ _ _ hm₁ r hP
  refine ⟨_, W₂, ⟨r', hP', rfl⟩, hW.trans hW', ?_⟩
  cases hrel with
  | ok hab hn => exact .ok hab (hback hm (hW.trans hW') hn)
  | error he hn => exact .error he (hback hm (hW.trans hW') hn)

variable {V : Framing → Value → Value → Prop} {P P' N N' : Machine → Ending Flow → Prop}

theorem flowThen (h : Follows M (fun W => Flow.Like (V W)) P P')
    (hN : Follows M (fun W => Flow.Like (V W)) N N') :
    Follows M (fun W => Flow.Like (V W)) (Chain P (Flow.Then N)) (Chain P' (Flow.Then N')) := by
  refine h.bind fun W flow flow' hflow m m' hm r hr => ?_
  cases hflow with
  | normal => exact hN W m m' hm r hr
  | «break» =>
    obtain rfl := hr
    exact ⟨_, W, rfl, .refl W, .ok .break hm⟩
  | «return» hv =>
    obtain rfl := hr
    exact ⟨_, W, rfl, .refl W, .ok (.return hv) hm⟩

/-- Loops whose checks and rounds follow each other do as many rounds. -/
theorem loops {check check' : Machine → Ending Value → Prop}
    (htruthy : ∀ W v v', V W v v' → v.truthy = v'.truthy) (hcheck : Follows M V check check')
    (hround : Follows M (fun W => Flow.Like (V W)) P P') :
    Follows M (fun W => Flow.Like (V W)) (Loops check P) (Loops check' P') := by
  intro W m m' hm r h
  have hchecked : ∀ {W m m' v n}, M W m m' → check m (.ok v n) → ∃ v' n' W',
      check' m' (.ok v' n') ∧ v'.truthy = v.truthy ∧ W.Within W' ∧ M W' n n' := by
    intro W m m' v n hm hv
    obtain ⟨r', W', hr', hW, hrel⟩ := hcheck W m m' hm _ hv
    cases hrel with
    | ok hvv hn => exact ⟨_, _, W', hr', (htruthy W' _ _ hvv).symm, hW, hn⟩
  have hturned : ∀ {W m m' v n r}, M W m m' → check m (.ok v n) → v.truthy = true → P n r →
      ∃ v' n' r' W', check' m' (.ok v' n') ∧ v'.truthy = true ∧ P' n' r' ∧ W.Within W' ∧
        ResultRel (M W') Eq (Flow.Like (V W')) r r' := by
    intro W m m' v n r hm hv htrue hr
    obtain ⟨v', n', W₁, hv', htruth, hW, hn⟩ := hchecked hm hv
    obtain ⟨r', W₂, hr', hW', hrel⟩ := hround W₁ n n' hn r hr
    exact ⟨v', n', r', W₂, hv', htruth.trans htrue, hr', hW.trans hW', hrel⟩
  induction h generalizing W m' with
  | unchecked hv =>
    obtain ⟨r', W', hr', hW, hrel⟩ := hcheck W _ m' hm _ hv
    cases hrel with
    | error he hn => exact ⟨_, W', .unchecked hr', hW, .error he hn⟩
  | ended hv hfalse =>
    obtain ⟨v', n', W', hv', htruth, hW, hn⟩ := hchecked hm hv
    exact ⟨_, W', .ended hv' (htruth.trans hfalse), hW, .ok .normal hn⟩
  | failed hv htrue hr =>
    obtain ⟨v', n', r', W', hv', htrue', hr', hW, hrel⟩ := hturned hm hv htrue hr
    cases hrel with
    | error he hn => exact ⟨_, W', .failed hv' htrue' hr', hW, .error he hn⟩
  | broken hv htrue hr =>
    obtain ⟨v', n', r', W', hv', htrue', hr', hW, hrel⟩ := hturned hm hv htrue hr
    cases hrel with
    | ok hflow hn =>
      cases hflow
      exact ⟨_, W', .broken hv' htrue' hr', hW, .ok .normal hn⟩
  | returned hv htrue hr =>
    obtain ⟨v', n', r', W', hv', htrue', hr', hW, hrel⟩ := hturned hm hv htrue hr
    cases hrel with
    | ok hflow hn =>
      cases hflow with
      | «return» hw => exact ⟨_, W', .returned hv' htrue' hr', hW, .ok (.return hw) hn⟩
  | again hv htrue hr _ ih =>
    obtain ⟨v', n', r', W₁, hv', htrue', hr', hW, hrel⟩ := hturned hm hv htrue hr
    cases hrel with
    | ok hflow hn =>
      cases hflow
      obtain ⟨r'', W₂, hr'', hW', hrel⟩ := ih W₁ _ hn
      exact ⟨r'', W₂, .again hv' htrue' hr' hr'', hW.trans hW', hrel⟩

end Follows

end Lox.Machine
