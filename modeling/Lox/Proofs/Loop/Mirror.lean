import Lox.Proofs.Loop.Follow
import Lox.Proofs.Machine.Retained

namespace Lox

open Machine

theorem Flow.like_swap (V : Value → Value → Prop) :
    (fun flow flow' => Flow.Like V flow' flow) = Flow.Like fun v v' => V v' v := by
  funext flow flow'
  refine propext ⟨fun h => ?_, fun h => ?_⟩
  · cases h with
    | «return» hv => exact .return hv
    | _ => constructor
  · cases h with
    | «return» hv => exact .return hv
    | _ => constructor

theorem flowsAlike_swap (A : Tables) : (fun W flow' flow => FlowsAlike A W flow flow') =
    fun W => Flow.Like fun v' v => Matching.Alike A W v v' :=
  funext fun W => Flow.like_swap (W.Like A)

section

variable {ε σ τ α β : Type} {R : α → β → Prop}

theorem ResultRel.swap {S : σ → τ → Prop} {r : EStateM.Result ε σ α} {r' : EStateM.Result ε τ β}
    (h : ResultRel S Eq R r r') : ResultRel (fun t s => S s t) Eq (fun b a => R a b) r' r := by
  cases h with
  | ok hab hm => exact .ok hab hm
  | error he hm => exact .error he.symm hm

/-- What is like an outcome is an outcome. -/
theorem ResultRel.of_result {S : Machine → Machine → Prop} {r : Ending α}
    {x : EStateM.Result Stop Machine β} (h : ResultRel S Eq R r.result x) :
    ∃ r' : Ending β, x = r'.result ∧ ResultRel S Eq R r r' := by
  cases r with
  | ok a m =>
    cases h with
    | ok hab hm => exact ⟨.ok _ _, rfl, .ok hab hm⟩
  | error e m =>
    cases h with
    | error he hm =>
      obtain rfl := he
      exact ⟨.error e _, rfl, .error rfl hm⟩

end

/-- Both machines go into a new frame. -/
theorem Machine.Matches.entered {A : Tables} {W : Framing} {k : Inset} {m m' : Machine}
    (h : m.Matches A W k m') : ∃ W', W.Within W' ∧ m.entered.Matches A W' k.inner m'.entered := by
  have hW := W.within_pair ⟨m.frames.frames.size⟩ k.inner ⟨m'.frames.frames.size⟩
  exact ⟨_, hW, h.within hW (.frame (.inr ⟨rfl, rfl, rfl⟩)) (h.frames.push h.frame .nil)⟩

namespace Loop

variable {α β γ δ : Type}

/-- What happens on machines that match, `k` inside an empty frame of the first one, is alike,
whichever of the two leads. -/
structure Mirrors (A : Tables) (k : Inset) (V : Framing → α → β → Prop)
    (P : Machine → Ending α → Prop) (P' : Machine → Ending β → Prop) : Prop where
  forth : Follows (fun W m m' => m.Matches A W k m') V P P'
  back : Follows (fun W m' m => m.Matches A W k m') (fun W b a => V W a b) P' P

namespace Mirrors

variable {A : Tables} {k : Inset} {V : Framing → α → β → Prop} {U : Framing → γ → δ → Prop}
  {P : Machine → Ending α → Prop} {P' : Machine → Ending β → Prop}

theorem const {a : α} {b : β} (h : ∀ W, V W a b) :
    Mirrors A k V (fun m r => r = .ok a m) (fun m r => r = .ok b m) :=
  ⟨.const h, .const h⟩

theorem andThen {N : Machine → Ending γ → Prop} {N' : Machine → Ending δ → Prop}
    (h : Mirrors A k V P P') (hN : Mirrors A k U N N') :
    Mirrors A k U (Chain P fun _ => N) (Chain P' fun _ => N') :=
  ⟨h.forth.andThen hN.forth, h.back.andThen hN.back⟩

/-- Steps that match with every allowance. -/
theorem endsIn {p : Nat → Step α} {q : Nat → Step β}
    (h : ∀ n W, Matching A W k V (p n) (q n)) : Mirrors A k V (EndsIn p) (EndsIn q) := by
  constructor
  · rintro W m m' hm r ⟨n, hr⟩
    obtain ⟨W', hW, hrel⟩ := h n W m m' hm
    rw [hr] at hrel
    obtain ⟨r', hr', hrel⟩ := hrel.of_result
    exact ⟨r', W', ⟨n, hr'⟩, hW, hrel⟩
  · rintro W m' m hm r' ⟨n, hr'⟩
    obtain ⟨W', hW, hrel⟩ := h n W m m' hm
    rw [hr'] at hrel
    obtain ⟨r, hr, hrel⟩ := hrel.swap.of_result
    exact ⟨r, W', ⟨n, hr⟩, hW, hrel⟩

theorem evaluate {e e' : Expr} (h : e.Moved A k e') :
    Mirrors A k (Matching.Alike A) (EndsIn (Machine.evaluate · e))
      (EndsIn (Machine.evaluate · e')) :=
  endsIn fun n _ => (matchingParts A n).evaluate h

theorem execute {s s' : Stmt} (h : s.Moved A k s') :
    Mirrors A k (FlowsAlike A) (EndsIn (Machine.execute · s)) (EndsIn (Machine.execute · s')) :=
  endsIn fun n _ => (matchingParts A n).execute h

theorem apart (h : Mirrors A .outside V P P') : Mirrors A .outside V (Apart P) (Apart P') :=
  ⟨h.forth.apart (fun _ _ _ hm => hm.entered) fun hm hW hn => hm.back hW hn,
    h.back.apart (fun _ _ _ hm => hm.entered) fun hm hW hn => hm.back hW hn⟩

/-- Only one of the machines goes into a new frame, which stays empty. -/
theorem round (h : Mirrors A (.inside 0) V P P')
    (hframe : ∀ m r, P' m r → (final r.result).frame = m.frame) :
    Mirrors A .outside V (Apart P) P' := by
  have hinto : ∀ {W : Framing} {m m' : Machine}, m.Matches A W .outside m' →
      m.entered.Matches A (W.round ⟨m.frames.frames.size⟩ m'.frame) (.inside 0) m' := by
    intro W m m' hm
    exact hm.within (W.within_round _ _) (.round (.inr ⟨rfl, rfl⟩)) (hm.frames.round hm.frame)
  have hout : ∀ {W W' : Framing} {m m' : Machine} {r : Ending α} {r' : Ending β},
      m.Matches A W .outside m' → W.Within W' → P' m' r' →
      ResultRel (Machine.Matches A W' (.inside 0)) Eq (V W') r r' →
      ResultRel (Machine.Matches A W' .outside) Eq (V W') (r.backTo m.frame) r' := by
    intro W W' m m' r r' hm hW hr' hrel
    have hstays := hframe m' r' hr'
    cases hrel with
    | @ok _ _ n n' hab hn =>
      have hback := hm.back hW hn
      rw [show m'.frame = n'.frame from hstays.symm] at hback
      exact .ok hab hback
    | @error _ _ n n' he hn =>
      have hback := hm.back hW hn
      rw [show m'.frame = n'.frame from hstays.symm] at hback
      exact .error he hback
  constructor
  · rintro W m m' hm _ ⟨r, hr, rfl⟩
    obtain ⟨r', W', hr', hW', hrel⟩ := h.forth _ _ _ (hinto hm) r hr
    have hW := (W.within_round _ _).trans hW'
    exact ⟨r', W', hr', hW, hout hm hW hr' hrel⟩
  · rintro W m' m hm r' hr'
    obtain ⟨r, W', hr, hW', hrel⟩ := h.back _ _ _ (hinto hm) r' hr'
    have hW := (W.within_round _ _).trans hW'
    exact ⟨_, W', ⟨r, hr, rfl⟩, hW, (hout hm hW hr' hrel.swap).swap⟩

section

variable {P P' N N' : Machine → Ending Flow → Prop}

theorem flowThen (h : Mirrors A k (FlowsAlike A) P P') (hN : Mirrors A k (FlowsAlike A) N N') :
    Mirrors A k (FlowsAlike A) (Chain P (Flow.Then N)) (Chain P' (Flow.Then N')) := by
  obtain ⟨hforth, hback⟩ := h
  obtain ⟨hforthN, hbackN⟩ := hN
  rw [flowsAlike_swap] at hback hbackN
  refine ⟨hforth.flowThen hforthN, ?_⟩
  rw [flowsAlike_swap]
  exact hback.flowThen hbackN

theorem loops {check check' : Machine → Ending Value → Prop}
    (hcheck : Mirrors A k (Matching.Alike A) check check')
    (hround : Mirrors A k (FlowsAlike A) P P') :
    Mirrors A k (FlowsAlike A) (Loops check P) (Loops check' P') := by
  obtain ⟨hforth, hback⟩ := hround
  rw [flowsAlike_swap] at hback
  refine ⟨hcheck.forth.loops (fun _ _ _ hv => hv.truthy) hforth, ?_⟩
  rw [flowsAlike_swap]
  exact hcheck.back.loops (fun _ _ _ hv => hv.truthy.symm) hback

end

end Mirrors

end Loop

end Lox
