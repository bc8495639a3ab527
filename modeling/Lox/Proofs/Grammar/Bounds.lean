import Lox.Proofs.Grammar.Parallel
import Lox.Proofs.Tree.Same

namespace Lox.Grammar

variable {α : Type}

/-- What the production passes is not the end of input, as many loops are around it afterwards as
were before, and it gives up only for want of an allowance. -/
def Orderly (production : Inner → Parse α) : Prop := ∀ n c,
  match production (Inner.ofDepth n) c with
  | .ok _ c' | .error (.fault _) c' => Passes c.rest c'.rest ∧ c'.loops = c.loops
  | .error .exhausted _ => n ≤ c.rest.length

theorem orderly_of_reads {production : Inner → Parse α}
    (h : ∀ n c, ∃ Q, Reads (n ≤ c.rest.length) (production (Inner.ofDepth n)) c Q) :
    Orderly production := by
  intro n c
  obtain ⟨Q, hreads⟩ := h n c
  unfold Reads at hreads
  match production (Inner.ofDepth n) c, hreads with
  | .ok _ _, ⟨hstep, _⟩ => exact ⟨hstep.rest, hstep.loops⟩
  | .error (.fault _) _, hstep => exact ⟨hstep.rest, hstep.loops⟩
  | .error .exhausted _, hspent => exact hspent

theorem orderly_program : Orderly program :=
  orderly_of_reads fun _ _ => ⟨_, reads_program rfl⟩

theorem orderly_wholeExpression : Orderly wholeExpression :=
  orderly_of_reads fun _ _ => ⟨_, reads_wholeExpression rfl⟩

theorem orderly_loopBody : Orderly loopBody :=
  orderly_of_reads fun n _ => ⟨_, reads_loopBody (Inner.sound n)⟩

theorem orderly_function (role : Role) : Orderly fun inner => function inner role :=
  orderly_of_reads fun n _ =>
    ⟨_, (reads_function false (Inner.sound n) role).spend Nat.le_of_lt⟩

/-- Recovery does not pass the end of input either. -/
theorem orderly_declaration : Orderly declaration := by
  intro n c
  obtain ⟨p, hrecover, hp⟩ := declaration_recovers (Inner.sound n)
  have hreads := hp _ c rfl
  rw [hrecover, recover]
  unfold Reads at hreads
  match p c, hreads with
  | .ok _ _, ⟨hstep, _⟩ => exact ⟨hstep.rest, hstep.loops⟩
  | .error (.fault _) _, hstep => exact ⟨hstep.rest.trans (passes_resume _), hstep.loops⟩
  | .error .exhausted _, hspent => exact Nat.le_of_lt hspent

theorem declaration_ne_fault (inner : Inner) (c c' : Cursor) (d : Diagnostic) :
    declaration inner c ≠ .error (.fault d) c' := by
  unfold declaration recover
  split <;> simp

/-- Before the end a declaration takes a token, whether or not it has to recover. -/
theorem declaration_passes (n : Nat) {c : Cursor} (hc : c.head.kind ≠ .eof) :
    match declaration (Inner.ofDepth n) c with
    | .ok _ c' => c'.rest.length < c.rest.length
    | .error (.fault _) _ => False
    | .error .exhausted _ => n ≤ c.rest.length := by
  have hreads := reads_declaration (Inner.sound n) (c := c) rfl hc
  cases h : declaration (Inner.ofDepth n) c with
  | ok o c' =>
    rw [Reads, h] at hreads
    exact hreads.2.1
  | error e c' =>
    cases e with
    | fault d => exact declaration_ne_fault _ _ _ _ h
    | exhausted =>
      rw [Reads, h] at hreads
      exact Nat.le_of_lt hreads

/-- The loop around a body is still there at its end, to be left again. -/
theorem loops_body (n : Nat) (c : Cursor) :
    match (Inner.ofDepth n).statement { c with loops := c.loops + 1 } with
    | .ok _ c' | .error (.fault _) c' => c'.loops = c.loops + 1
    | .error .exhausted _ => n ≤ c.rest.length := by
  have hreads := (Inner.sound n).statement _ { c with loops := c.loops + 1 } rfl
  unfold Reads at hreads
  match (Inner.ofDepth n).statement { c with loops := c.loops + 1 }, hreads with
  | .ok _ _, ⟨hstep, _⟩ => exact hstep.loops
  | .error (.fault _) _, hstep => exact hstep.loops
  | .error .exhausted _, hspent => exact hspent

/-- The tokens up to the first end of input and with it, or all if it is missing. -/
def throughEnd : List Token → List Token
  | [] => []
  | t :: ts => t :: if t.kind = .eof then [] else throughEnd ts

theorem TwinTokens.of_throughEnd {ts ts' : List Token} (h : throughEnd ts = throughEnd ts') :
    TwinTokens .same ts ts' := by
  induction ts generalizing ts' with
  | nil =>
    cases ts' with
    | nil => exact .nil
    | cons => cases h
  | cons t ts ih =>
    cases ts' with
    | nil => cases h
    | cons t' ts' =>
      obtain ⟨rfl, htail⟩ := List.cons.inj h
      by_cases heof : t.kind = .eof
      · exact .eof ts ts' t.twin_self heof
      · rw [if_neg heof, if_neg heof] at htail
        exact .cons t.twin_self (ih htail)

theorem Link.steady_same : Link.same.Steady := fun _ _ hi => congrArg (· + 1) hi

theorem Reading.ext_of_twin {R : α → α → Prop} (hR : ∀ a b, R a b → a = b) {r r' : Reading α}
    (hresult : ExceptRel (List.Forall₂ (Diagnostic.Twin .same)) R r.result r'.result)
    (hnext : r.nextId = r'.nextId) : r = r' := by
  obtain ⟨result, nextId⟩ := r
  obtain ⟨result', nextId'⟩ := r'
  obtain rfl : nextId = nextId' := hnext
  cases hresult with
  | ok hab => rw [hR _ _ hab]
  | error hds => rw [forall₂_eq hds]

/-- Programs that are the same up to the end are read the same, whatever the allowances. -/
theorem reading_program_eq {ts ts' : List Token} (h : throughEnd ts = throughEnd ts')
    (firstId : Nat) {n n' : Nat} (hn : ts.length < n) (hn' : ts'.length < n') :
    reading (program (Inner.ofDepth n) ⟨ts, 0, [], firstId⟩) =
      reading (program (Inner.ofDepth n') ⟨ts', 0, [], firstId⟩) := by
  obtain ⟨hresult, hnext⟩ := twin_reading
    (fun n n' => .program (Alike.innerAlike Link.steady_same n n')) finishes_program
    finishes_program (.of_throughEnd h) (rfl : firstId = firstId) hn hn'
  exact Reading.ext_of_twin (fun _ _ hss => hss.eq) hresult hnext

theorem reading_wholeExpression_eq {ts ts' : List Token} (h : throughEnd ts = throughEnd ts')
    (firstId : Nat) {n n' : Nat} (hn : ts.length < n) (hn' : ts'.length < n') :
    reading (wholeExpression (Inner.ofDepth n) ⟨ts, 0, [], firstId⟩) =
      reading (wholeExpression (Inner.ofDepth n') ⟨ts', 0, [], firstId⟩) := by
  obtain ⟨hresult, hnext⟩ := twin_reading
    (fun n n' => .wholeExpression (Alike.innerAlike Link.steady_same n n'))
    finishes_wholeExpression finishes_wholeExpression (.of_throughEnd h)
    (rfl : firstId = firstId) hn hn'
  exact Reading.ext_of_twin (fun _ _ he => he.eq) hresult hnext

/-- Every list is read to an end, within bounds, and no further than to the first end of input. -/
theorem reading_bounded :
    (∀ ts firstId n, ts.length < n →
      ((∀ c, program (Inner.ofDepth n) ⟨ts, 0, [], firstId⟩ ≠ .error .exhausted c) ∧
        reading (program (Inner.ofDepth n) ⟨ts, 0, [], firstId⟩) = read program ts firstId) ∧
      (∀ c, wholeExpression (Inner.ofDepth n) ⟨ts, 0, [], firstId⟩ ≠ .error .exhausted c) ∧
        reading (wholeExpression (Inner.ofDepth n) ⟨ts, 0, [], firstId⟩) =
          read wholeExpression ts firstId) ∧
    (∀ n (c : Cursor), c.head.kind ≠ .eof → match declaration (Inner.ofDepth n) c with
      | .ok _ c' => c'.rest.length < c.rest.length
      | .error (.fault _) _ => False
      | .error .exhausted _ => n ≤ c.rest.length) ∧
    (Orderly program ∧ Orderly wholeExpression ∧ Orderly declaration ∧ Orderly loopBody ∧
      ∀ role, Orderly fun inner => function inner role) ∧
    (∀ n (c : Cursor), match (Inner.ofDepth n).statement { c with loops := c.loops + 1 } with
      | .ok _ c' | .error (.fault _) c' => c'.loops = c.loops + 1
      | .error .exhausted _ => n ≤ c.rest.length) ∧
    ∀ ts ts', throughEnd ts = throughEnd ts' → ∀ firstId,
      read program ts firstId = read program ts' firstId ∧
        read wholeExpression ts firstId = read wholeExpression ts' firstId := by
  refine ⟨fun ts firstId n hn => ⟨⟨?_, ?_⟩, ?_, ?_⟩, fun n c => declaration_passes n,
    ⟨orderly_program, orderly_wholeExpression, orderly_declaration, orderly_loopBody,
      orderly_function⟩, loops_body, fun ts ts' h firstId => ⟨?_, ?_⟩⟩
  · exact finishes_program ts firstId n hn
  · exact reading_program_eq rfl firstId hn (Nat.lt_succ_self _)
  · exact finishes_wholeExpression ts firstId n hn
  · exact reading_wholeExpression_eq rfl firstId hn (Nat.lt_succ_self _)
  · exact reading_program_eq h firstId (Nat.lt_succ_self _) (Nat.lt_succ_self _)
  · exact reading_wholeExpression_eq h firstId (Nat.lt_succ_self _) (Nat.lt_succ_self _)

theorem reading_bounded_middle :
    let ts := tokens (scan "for (;; class")
    let ts' := ts ++ tokens (scan "while (true) break;")
    (∀ c, program (Inner.ofDepth 40) ⟨ts', 0, [], 3⟩ ≠ .error .exhausted c) ∧
      (∀ o c', declaration (Inner.ofDepth 40) ⟨ts', 0, [], 3⟩ = .ok o c' →
        c'.rest.length < ts'.length) ∧
      read program ts 3 = read program ts' 3 := by
  intro ts ts'
  have hlength : ts'.length < 40 := by decide +kernel
  have hhead : (⟨ts', 0, [], 3⟩ : Cursor).head.kind ≠ .eof := by decide +kernel
  have hend : throughEnd ts = throughEnd ts' := by decide +kernel
  obtain ⟨hfinishes, hpasses, -, -, hends⟩ := reading_bounded
  refine ⟨(hfinishes ts' 3 40 hlength).1.1, fun o c' h => ?_, (hends ts ts' hend 3).1⟩
  have hpassed := hpasses 40 ⟨ts', 0, [], 3⟩ hhead
  rwa [h] at hpassed

end Lox.Grammar
