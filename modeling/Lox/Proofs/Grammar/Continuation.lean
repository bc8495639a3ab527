import Lox.Proofs.Grammar.Exact
import Lox.Proofs.Grammar.Parallel
import Lox.Proofs.Tree.Same

namespace Lox.Grammar

/-- A declaration, unless the input ends. -/
def declarationBeforeEnd (inner : Inner) : Parse (Option (Option Stmt)) := do
  if (← kind) = .eof then
    return none
  return some (← inner.declaration)

/-- Behind a program that it accepts, the parser goes on with the rest as it would begin with it. -/
theorem program_behind {ts rest : List Token} {p : List Stmt} {n : Nat}
    (hts : Derives true false .declarations ts p) (hn : ts.length ≤ n)
    (helse : nextKind rest ≠ .else) (firstId : Nat) : ∃ p' allowance nextId,
      p'.map (Stmt.forget id) = p.map (Stmt.forget id) ∧
        program (Inner.ofDepth n) ⟨ts ++ rest, 0, [], firstId⟩ =
          (do
            let os ← manyAlong (fun _ => declarationBeforeEnd (Inner.ofDepth n)) allowance 0
            return p' ++ os.filterMap id) ⟨rest, 0, [], nextId⟩ := by
  obtain ⟨os, allowance, nextId, hos, heq⟩ := manyAlong_behind
    (items_of_declarations (P := (· = .eof)) hts.readable hn (by simp) fun _ => .inr)
    helse (ts ++ rest) 0 (Nat.le_refl _) (by simp) [] firstId
  refine ⟨os.filterMap id, allowance, nextId, forget_filterMap hos, ?_⟩
  have hfirst : manyAlong (fun _ => declarationBeforeEnd (Inner.ofDepth n)) (ts ++ rest) 0
        ⟨ts ++ rest, 0, [], firstId⟩ =
      ((os ++ ·) <$> manyAlong (fun _ => declarationBeforeEnd (Inner.ofDepth n)) allowance 0)
        ⟨rest, 0, [], nextId⟩ := by
    rw [manyAlong_const _ allowance 0 (0 + (p.map fun s => some (s.forget id)).length)]
    exact heq
  have hprogram : program (Inner.ofDepth n) ⟨ts ++ rest, 0, [], firstId⟩ =
      (do
        let os ← manyAlong (fun _ => declarationBeforeEnd (Inner.ofDepth n)) (ts ++ rest) 0
        return os.filterMap id) ⟨ts ++ rest, 0, [], firstId⟩ := rfl
  rw [hprogram, bind_apply, hfirst, map_apply, bind_apply]
  generalize manyAlong _ allowance 0 ⟨rest, 0, [], nextId⟩ = r
  cases r with
  | ok os' c =>
    exact congrArg (EStateM.Result.ok · c) List.filterMap_append
  | error e c => rfl

/-- What is read behind a program is read as it is alone, up to its identities. -/
theorem alike_behind (p' : List Stmt) (allowance : List Token) (n n' : Nat) :
    Alike .anyNodes (fun p q => ∃ q', TwinStatements .anyNodes q' q ∧ p = p' ++ q')
      (do
        let os ← manyAlong (fun _ => declarationBeforeEnd (Inner.ofDepth n)) allowance 0
        return p' ++ os.filterMap id)
      (program (Inner.ofDepth n')) := by
  have hinner := Alike.innerAlike (K := .anyNodes) (fun _ _ _ => trivial) n n'
  refine Alike.bind (p := manyAlong (fun _ => declarationBeforeEnd (Inner.ofDepth n)) allowance 0)
    (q := get >>= fun c => manyAlong (fun _ => declarationBeforeEnd (Inner.ofDepth n')) c.rest 0)
    (R := List.Forall₂ (Option.Rel (Stmt.Twin .anyNodes))) ?_ fun os os' hos => ?_
  · exact fun c c' hc => Alike.declarations hinner (· = .eof) allowance c'.rest 0 c c' hc
  · exact .pure ⟨_, .of_forall₂ (List.rel_filterMap (fun _ _ ho => ho) hos), rfl⟩

/-- Tokens that a program was read from do not change what is read behind them: the tree of the rest
follows that of the program, or else the faults are those of the rest. An `else` might belong to the
program. -/
theorem read_behind {ts ts' rest : List Token} {firstId : Nat} {p : List Stmt}
    (hts : ∀ t ∈ ts, t.kind ≠ .eof) (hend : nextKind rest = .eof)
    (hp : (read program (ts ++ rest) firstId).result = .ok p) (helse : nextKind ts' ≠ .else)
    (firstId' firstId'' : Nat) :
    (∀ q, (read program ts' firstId').result = .ok q →
      ∃ q', (read program (ts ++ ts') firstId'').result = .ok q' ∧
        q'.map (Stmt.forget id) = p.map (Stmt.forget id) ++ q.map (Stmt.forget id)) ∧
    ∀ ds, (read program ts' firstId').result = .error ds →
      (read program (ts ++ ts') firstId'').result = .error ds := by
  have hderives := ((read_program_spec _ firstId).tree p hp).1
  rw [untilEnd_append hts hend] at hderives
  obtain ⟨p', allowance, nextId, hp', hbehind⟩ := program_behind (n := (ts ++ ts').length + 1)
    hderives (by simp; omega) helse firstId''
  have hends := alike_behind p' allowance ((ts ++ ts').length + 1) (ts'.length + 1)
    ⟨ts', 0, [], nextId⟩ ⟨ts', 0, [], firstId'⟩ ⟨.of_forall₂ (forall₂_twin_self ts'), rfl, .nil, trivial⟩
  rw [← hbehind] at hends
  obtain ⟨hresult, -⟩ := hends.reading
    (finishes_program _ _ _ (Nat.lt_succ_self _)) (finishes_program _ _ _ (Nat.lt_succ_self _))
  rw [← read_eq_reading, ← read_eq_reading] at hresult
  refine ⟨fun q hq => ?_, fun ds hds => ?_⟩
  · rw [hq] at hresult
    generalize (read program (ts ++ ts') firstId'').result = result at hresult
    cases hresult with
    | ok h =>
      obtain ⟨q', hq', rfl⟩ := h
      have hforget := hq'.forget_eq id
      rw [forgetStatements_eq_map, forgetStatements_eq_map] at hforget
      exact ⟨_, rfl, by rw [List.map_append, hp', hforget]⟩
  · rw [hds] at hresult
    generalize (read program (ts ++ ts') firstId'').result = result at hresult
    cases hresult with
    | error h => rw [forall₂_eq h]

theorem read_behind_broken :
    let ts := (tokens (scan "fun f(a) { while (a) break; } if (f) print f;")).dropLast
    let ts' := tokens (scan "var ; \x7d print 1 \x7b class A \x7b m( \x7d \x7d x = 2;")
    ∃ p ds, (read program ts 0).result = .ok p ∧ (read program ts' 0).result = .error ds ∧
      ds.length = 4 ∧ (read program (ts ++ ts') 7).result = .error ds := by
  intro ts ts'
  have hts : ∀ t ∈ ts, t.kind ≠ .eof := by decide +kernel
  have helse : nextKind ts' ≠ .else := by decide +kernel
  have hok : (read program ts 0).result.isOk := by decide +kernel
  have hfaults : (read program ts' 0).result.toOption.isNone ∧
      (match (read program ts' 0).result with
        | .error ds => ds.length
        | .ok _ => 0) = 4 := by decide +kernel
  cases hp : (read program ts 0).result with
  | error ds =>
    rw [hp] at hok
    cases hok
  | ok p =>
    cases hds : (read program ts' 0).result with
    | ok q =>
      rw [hds] at hfaults
      cases hfaults.1
    | error ds =>
      rw [hds] at hfaults
      have hp' : (read program (ts ++ []) 0).result = .ok p := by rw [List.append_nil, hp]
      exact ⟨p, ds, rfl, rfl, hfaults.2, (read_behind hts rfl hp' helse 0 7).2 ds hds⟩

end Lox.Grammar
