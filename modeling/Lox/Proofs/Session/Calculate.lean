import Lox.Proofs.Machine.Allowance
import Lox.Proofs.Session.Joined
import Lox.Proofs.Source.RoundTrip

namespace Lox

open Grammar

/-- A statement that prints an expression, with its end on a line of its own: the expression may
end in a comment. -/
def printing (source : String) : String := "print " ++ source ++ "\n;"

theorem pieces_print (cs : List Char) : pieces ("print ".toList ++ cs) =
    .word .print "print".toList :: .blank ' ' :: pieces cs := by
  have hword : IsWord .print "print".toList := isWord_keyword rfl
  obtain ⟨c, cs', hprint, hnext⟩ := hword (' ' :: cs) rfl
  have htext : "print ".toList ++ cs = c :: (cs' ++ ' ' :: cs) := by
    rw [← List.cons_append, ← hprint]
    rfl
  rw [htext, pieces_cons, hnext, pieces_cons]
  rfl

theorem wordsOf_print (source : String) :
    wordsOf ("print " ++ source) = ⟨.print, "print", 1⟩ :: wordsOf source := by
  rw [wordsOf, String.toList_append, pieces_print]
  rfl

theorem faults_scan_print (source : String) :
    faults (scan ("print " ++ source)) = [] ↔ faults (scan source) = [] := by
  unfold scan
  rw [String.toList_append, pieces_print, faults_itemsFrom_eq_nil_iff,
    faults_itemsFrom_eq_nil_iff, List.forall_mem_cons, List.forall_mem_cons]
  exact (and_iff_right trivial).trans (and_iff_right trivial)

theorem printing_eq_joined (source : String) :
    printing source = joined ("print " ++ source) ";" := by
  rw [joined, String.append_assoc]
  rfl

/-- The statement is read to a tree that prints the tree of the expression. -/
theorem read_printing {source : String} {a : Nat} {e : Expr}
    (h : (readExpression source a).result = .ok e) (b : Nat) :
    ∃ e', (readProgram (printing source) b).result = .ok [.print e'] ∧
      e.forget id = e'.forget id := by
  obtain ⟨hfaults, -⟩ := readExpression_eq_ok h
  have hprint := (faults_scan_print source).mpr hfaults
  have hderives := derives_of_readExpression h
  rw [untilEnd_tokens_scan] at hderives
  have hwords : wordsOf (printing source) = ⟨.print, "print", 1⟩ ::
      (wordsOf source ++ [⟨.semicolon, ";", newlines ("print " ++ source).toList + 1 + 1⟩]) := by
    rw [printing_eq_joined, wordsOf_joined hprint, wordsOf_print, wordsOf_lowered]
    rfl
  have hprogram : Derives true false .declarations
      (untilEnd (tokens (scan (printing source)))) [.print e] := by
    rw [untilEnd_tokens_scan, hwords, ← List.append_nil (_ :: _)]
    exact .declarations (.statement (.print rfl hderives rfl)) .noDeclarations
  have hclean : faults (scan (printing source)) = [] := by
    rw [printing_eq_joined]
    exact faults_scan_joined hprint rfl
  obtain ⟨program, hread, hforget⟩ := readProgram_of_derives b hclean hprogram
  obtain ⟨s, rest, rfl, hs, hrest⟩ := List.map_eq_cons_iff.mp hforget
  obtain rfl := List.map_eq_nil_iff.mp hrest
  cases s with
  | print e' =>
    simp only [Stmt.forget, Stmt.print.injEq] at hs
    exact ⟨e', hread, hs.symm⟩
  | _ => simp [Stmt.forget] at hs

/-- How an expression by itself ends, and how a run that prints it ends with its output. -/
inductive Agrees : Except (List Diagnostic) (EStateM.Result Stop Machine Value) → Outcome →
    String → Prop where
  | rejected (ds : List Diagnostic) : Agrees (.error ds) (.rejected ds) ""
  | failed (e : RuntimeError) (m : Machine) :
    Agrees (.ok (.error (.error e) m)) (.failed e) m.output
  | exhausted (m : Machine) : Agrees (.ok (.error .exhausted m)) .exhausted m.output
  | done (v : Value) (m : Machine) : Agrees (.ok (.ok v m)) .done (m.output ++ v.text ++ "\n")

namespace Machine

/-- A program that prints an expression needs one step of the allowance for the statement. -/
theorem interpret_print (n : Nat) (e : Expr) :
    interpret (n + 1) [.print e] = (do write (← evaluate n e).text) := by
  have hone : interpretOne (n + 1) (.print e) = (do write (← evaluate n e).text) := by
    funext m
    show (do let _ ← execute (n + 1) (.print e)) m = _
    rw [execute]
    simp only [bind_assoc, pure_bind]
    rfl
  rw [interpret, hone]
  simp [interpret]

end Machine

namespace Session

theorem agrees_interpret {N : Nat → Nat → Prop} {n : Nat} {e e' : Expr} {m : Machine} {s : Session}
    (he : e.Twin (.ofNodes N) e') (hm : m.Twin (.ofNodes N) s.machine) :
    Agrees (.ok (Machine.evaluate n e m)) (s.interpret (n + 1) [.print e']).1
      (s.interpret (n + 1) [.print e']).2.machine.output := by
  have hrun := (Machine.parallelParts (.ofNodes N) n).evaluate he m s.machine hm
  unfold interpret
  rw [Machine.interpret_print, Machine.bind_apply]
  generalize Machine.evaluate n e m = result at hrun ⊢
  generalize Machine.evaluate n e' s.machine = result' at hrun ⊢
  cases hrun with
  | ok hv hm₁ =>
    show Agrees _ .done (_ ++ _ ++ _)
    rw [← hm₁.output, ← hv.text]
    exact .done _ _
  | @error _ _ _ m₁' hstop hm₁ =>
    cases hstop with
    | @error x x' hx =>
      obtain rfl := hx.eq
      show Agrees _ (.failed x) m₁'.output
      rw [← hm₁.output]
      exact .failed _ _
    | exhausted =>
      show Agrees _ .exhausted m₁'.output
      rw [← hm₁.output]
      exact .exhausted _

/-- With one step more of the allowance a new session does what the expression does by itself. -/
theorem agrees_run (n : Nat) (lint : Lint) (clock : Clock) {source : String} {firstId : Nat}
    {e : Expr} (h : (readExpression source firstId).result = .ok e) :
    Agrees (calculate n lint clock e) ((new lint clock).run (n + 1) (printing source)).1
      ((new lint clock).run (n + 1) (printing source)).2.machine.output := by
  obtain ⟨e', hread, hforget⟩ := read_printing h (new lint clock).nextId
  -- The trees are equal but for identities, so their nodes correspond in order; and as no identity
  -- comes twice in either tree, no node corresponds to two.
  have hloose := e.twin_self.of_forget e' hforget
  have he : e.Twin (.ofNodes (zipped e.ids e'.ids)) e' :=
    hloose.relink (List.forall₂_iff_zip.mpr ⟨hloose.paired.length_eq, id⟩) fun _ _ => id
  have hfresh := ((read_wholeExpression_spec _ firstId).tree e (readExpression_eq_ok h).2).2
  have hfresh' := fresh_of_readProgram hread
  rw [nodesOfProgram, map_id_nodesOfStatements, idsOfStatements, idsOfStatements,
    List.append_nil] at hfresh'
  have hone : (Link.ofNodes (zipped e.ids e'.ids)).OneToOne :=
    fun i i' k k' => oneToOne_zip hfresh.nodup hfresh'.nodup
  -- The resolver walks into both statements alike.
  have hresolve : resolve lint [.print e] = resolve lint [.expression e] := rfl
  have htwin := twin_resolve lint (.cons (.print he) .nil)
  rw [hresolve] at htwin
  unfold calculate
  generalize resolve lint [.expression e] = verdict at htwin ⊢
  generalize hverdict : resolve lint [.print e'] = verdict' at htwin
  cases htwin with
  | @error ds ds' hds =>
    obtain rfl := forall₂_eq hds
    have hcheck : (new lint clock).check (printing source) = .error ds := by
      rw [check, hread]
      exact congrArg (Except.map _) hverdict
    rw [run_of_rejected _ hcheck]
    exact .rejected _
  | @ok r r' hr =>
    have hcheck : (new lint clock).check (printing source) = .ok ([.print e'], r') :=
      check_eq_ok.mpr ⟨hread, hverdict⟩
    rw [run_of_accepted _ hcheck]
    have hwithin : (Link.ofNodes fun _ _ => False).Within (.ofNodes (zipped e.ids e'.ids)) :=
      ⟨fun _ _ => False.elim, fun _ _ => id⟩
    have hnotes : ∀ i i', zipped e.ids e'.ids i i' →
        ((Machine.new clock).noteResolution r).addresses[i]? =
          ((Machine.new clock).noteResolution r').addresses[i']? :=
      getElem?_note_eq hone hr.addresses fun _ _ _ => rfl
    exact agrees_interpret he ((twin_new lint clock).machine.noting hwithin hnotes)

/-- A run that does not use up its allowance does the same with a larger one. -/
theorem run_eq_of_le {s : Session} {source : String} {n n' : Nat} (hle : n ≤ n')
    (h : (s.run n source).1 ≠ .exhausted) : s.run n' source = s.run n source := by
  rw [run_eq] at h
  rw [run_eq, run_eq]
  cases hcheck : s.check source with
  | error ds => rfl
  | ok accepted =>
    rw [hcheck] at h
    dsimp only [interpret] at h ⊢
    rcases (Machine.growing_interpret accepted.1).extends hle (s.begun source accepted.2).machine
      with ⟨m, hm⟩ | heq
    · rw [hm] at h
      exact absurd rfl h
    · rw [heq]

end Session

theorem calculate_eq_of_le {lint : Lint} {clock : Clock} {e : Expr} {n n' : Nat} (hle : n ≤ n')
    (h : ∀ m, calculate n lint clock e ≠ .ok (.error .exhausted m)) :
    calculate n' lint clock e = calculate n lint clock e := by
  unfold calculate at h ⊢
  cases hresolve : resolve lint [.expression e] with
  | error ds => rfl
  | ok r =>
    rw [hresolve] at h
    dsimp only at h ⊢
    rcases (Machine.growing_evaluate e).extends hle ((Machine.new clock).noteResolution r)
      with ⟨m, hm⟩ | heq
    · exact absurd (congrArg Except.ok hm) (h m)
    · exact congrArg Except.ok heq

/-- An expression by itself comes to what a new session prints of it: both are rejected with the
same diagnostics, or fail with the same error after the same output, or the session prints what the
expression prints and then its value. The session needs one step more of its allowance; the
allowances do not matter if they are not used up. -/
theorem calculate_agrees_run (lint : Lint) (clock : Clock) {source : String} {firstId : Nat}
    {e : Expr} (h : (readExpression source firstId).result = .ok e) :
    let run := fun n => (Session.new lint clock).run n (printing source)
    (∀ n, Agrees (calculate n lint clock e) (run (n + 1)).1 (run (n + 1)).2.machine.output) ∧
      ∀ n n', (∀ m, calculate n lint clock e ≠ .ok (.error .exhausted m)) →
        (run n').1 ≠ .exhausted →
        Agrees (calculate n lint clock e) (run n').1 (run n').2.machine.output := by
  dsimp only
  refine ⟨fun n => Session.agrees_run n lint clock h, fun n n' hn hn' => ?_⟩
  have hmax := Session.agrees_run (max n n') lint clock h
  rwa [calculate_eq_of_le (Nat.le_max_left n n') hn,
    Session.run_eq_of_le (Nat.le_succ_of_le (Nat.le_max_right n n')) hn'] at hmax

/-- A call of a function that keeps a local and fails behind what it prints, with a comment at the
end. -/
theorem calculate_agrees_run_comment :
    let source := "fun (x) { { var y = x; print y; } return nil.z; }(true) // \x7b"
    let run := fun n => (Session.new .deny (.ticking 0 1)).run n (printing source)
    ∃ e, (readExpression source 0).result = .ok e ∧
      (run 91).2.machine.output = "true\n" ∧
      Agrees (calculate 90 .deny (.ticking 0 1) e) (run 91).1 (run 91).2.machine.output := by
  intro source run
  obtain ⟨hok, houtput⟩ : (readExpression source 0).result.isOk ∧
      (run 91).2.machine.output = "true\n" := by decide +kernel
  obtain ⟨e, he⟩ := exists_eq_ok hok
  exact ⟨e, he, houtput, (calculate_agrees_run .deny (.ticking 0 1) he).1 90⟩

end Lox
