import Lox.Proofs.Scope.Faults
import Lox.Proofs.Scope.Parallel

namespace Lox

theorem walkStatements_append (c : Context) (w : Walk) (ss ss' : List Stmt) :
    walkStatements c w (ss ++ ss') = walkStatements c (walkStatements c w ss) ss' := by
  induction ss generalizing w with
  | nil => rw [List.nil_append, walkStatements]
  | cons s ss ih => rw [List.cons_append, walkStatements, walkStatements, ih]

/-- At top level no scope is open, neither before a program nor behind it. -/
theorem scopes_walk_top (program : List Stmt) :
    (walkStatements .top ⟨[], #[]⟩ program).scopes = [] := by
  have hgoes := walkStatements_goes [] trivial program (w := ⟨[], #[]⟩) rfl
  have hfits := hgoes.fits
  apply Walk.shape_eq_nil_iff.mp
  cases hshape : (walkStatements .top ⟨[], #[]⟩ program).shape with
  | nil => rfl
  | cons s outer =>
    have hsome : (Surroundings.names? []).isSome := by
      have hcons : Surroundings.Fits [] (s :: outer) := hshape ▸ hfits
      exact hcons.1
    exact absurd hsome (by simp [Surroundings.names?])

section Verdict

variable {lint : Lint} {fs fs' : List Finding} {r r' : Resolution}

theorem verdict_eq_ok : verdict lint fs = .ok r ↔ fs.filterMap (Finding.error? lint) = [] ∧
    r = ⟨fs.filterMap Finding.address?, fs.filterMap (Finding.warning? lint)⟩ := by
  unfold verdict
  split
  next h =>
    rw [Except.ok.injEq]
    exact ⟨fun heq => ⟨h, heq.symm⟩, fun heq => heq.2.symm⟩
  next h => exact ⟨nofun, fun heq => absurd heq.1 h⟩

theorem verdict_append (h : verdict lint fs = .ok r) (h' : verdict lint fs' = .ok r') :
    verdict lint (fs ++ fs') = .ok ⟨r.addresses ++ r'.addresses, r.warnings ++ r'.warnings⟩ := by
  obtain ⟨herrors, rfl⟩ := verdict_eq_ok.mp h
  obtain ⟨herrors', rfl⟩ := verdict_eq_ok.mp h'
  apply verdict_eq_ok.mpr
  simp only [List.filterMap_append, herrors, herrors', List.append_nil, and_self]

end Verdict

/-- Programs that are alike with two accepted ones are accepted after each other. -/
theorem resolve_append {K K' : Link} {lint : Lint} {p q p' q' : List Stmt} {r r' : Resolution}
    (hp : TwinStatements K p q) (hp' : TwinStatements K' p' q') (h : resolve lint p = .ok r)
    (h' : resolve lint p' = .ok r') : ∃ a a' : Resolution,
      resolve lint (q ++ q') = .ok ⟨a.addresses ++ a'.addresses, a.warnings ++ a'.warnings⟩ ∧
        r.Twin K a ∧ r'.Twin K' a' := by
  have hstart : Walk.Twin K [] [] ⟨[], #[]⟩ ⟨[], #[]⟩ := ⟨.nil, [], [], rfl, rfl, .nil⟩
  obtain ⟨fs, gs, hfs, hgs, hfindings⟩ := (hp.walk .top hstart).findings
  -- The second walk begins behind the first, and finds what it finds at the beginning.
  have hnext : Walk.Twin K' [] gs ⟨[], #[]⟩ (walkStatements .top ⟨[], #[]⟩ q) :=
    ⟨(scopes_walk_top q).symm ▸ .nil, [], [], rfl, by rw [hgs, List.nil_append, List.append_nil],
      .nil⟩
  obtain ⟨fs', gs', hfs', hgs', hfindings'⟩ := (hp'.walk .top hnext).findings
  rw [List.nil_append] at hfs hfs'
  have hr : verdict lint fs = .ok r := hfs ▸ (resolve_eq_verdict lint p).symm.trans h
  have hr' : verdict lint fs' = .ok r' := hfs' ▸ (resolve_eq_verdict lint p').symm.trans h'
  have htwin := twin_verdict lint hfindings
  have htwin' := twin_verdict lint hfindings'
  rw [hr] at htwin
  rw [hr'] at htwin'
  generalize ha : verdict lint gs = v at htwin
  generalize ha' : verdict lint gs' = v' at htwin'
  cases htwin with
  | @ok _ a hra =>
    cases htwin' with
    | @ok _ a' hra' =>
      refine ⟨a, a', ?_, hra, hra'⟩
      rw [resolve_eq_verdict, walkStatements_append, hgs', verdict_append ha ha']

end Lox
