import Lox.Proofs.Loop.Reached
import Lox.Proofs.Loop.Written
import Lox.Proofs.Session.Runs

namespace Lox

open Machine

/-- The loop `l'` is written like `l`. Next to all that has been accepted, the table has the
addresses of its nodes in the scopes that its clauses tell. -/
structure ForLoop.Reference (P : History) (L : Lexical) (l l' : ForLoop)
    (table : Std.TreeMap Nat Address) : Prop where
  twin : l.Twin .anyNodes l'
  direct : Noted table (l'.nodes L)
  accepted : ∀ node, P.node node → table[node.id]? = node.address?

/-- What `m` and the same machine with another table have ended in: the same flow or error, with the
same output and the same in all that is stored. All frames of `m` still stand for themselves. -/
def SameEnds (m : Machine) (table : Std.TreeMap Nat Address) (r r' : Ending Flow) : Prop :=
  ∃ W, (Framing.unmoved m.frames).Within W ∧
    ResultRel (Machine.Matches ⟨m.addresses, table⟩ W .outside) Eq
      (FlowsAlike ⟨m.addresses, table⟩ W) r r'

/-- At the moment `M` the tree of the loop is executed. -/
structure History.Enters (P : History) (M : Moment) (l : ForLoop) : Prop where
  happened : P.moment M
  task : M.task = .execute l.tree
  oblivious : ∀ body ∈ M.machine.natives, body.Oblivious

/-- Where the tree of a loop is executed it ends in the same as the clauses of such a loop do in a
single scope, and it does not end otherwise. -/
def History.LoopsTold (P : History) : Prop :=
  ∀ M (l : ForLoop), P.Enters M l →
    ∃ L, (∀ node ∈ l.tree.nodes L, P.node node) ∧
      (∃ l' table, ForLoop.Reference P L l l' table) ∧
      ∀ l' table, ForLoop.Reference P L l l' table →
        let m' := { M.machine with addresses := table }
        (∀ r, EndsIn (execute · l.tree) M.machine r →
          ∃ r', l'.Runs m' r' ∧ SameEnds M.machine table r r') ∧
        ∀ r', l'.Runs m' r' →
          ∃ r, EndsIn (execute · l.tree) M.machine r ∧ SameEnds M.machine table r r'

/-- There is room for another loop of the same text in the table of a session. -/
theorem ForLoop.exists_reference {P : History} {s : Session} (hs : Session.Settled P s)
    (L : Lexical) (l : ForLoop) : ∃ l' table, Reference P L l l' table := by
  obtain ⟨W, hsound⟩ := hs.sound
  obtain ⟨l', b, htwin, -, hfresh⟩ := l.renews s.nextId
  rw [← l'.map_id_nodes L] at hfresh
  obtain ⟨hother, hown⟩ := s.machine.addresses_note hfresh.nodup
  refine ⟨l', _, htwin, fun node hnode => hown node hnode (hs.later _ ?_), fun node hnode => ?_⟩
  · exact (hfresh.range _ (List.mem_map_of_mem hnode)).1
  · rw [hother, hsound.table node hnode]
    intro hmem
    have hlt := (hs.nodes node hnode).1
    have hge := (hfresh.range _ hmem).1
    omega

theorem history_loopsTold (lint : Lint) (clock : Clock) (requests : List Request)
    (hrequests : ∀ request ∈ requests, request.Honest) :
    ((Session.new lint clock).history .empty requests).LoopsTold := by
  rintro M l ⟨hM, htask, hnatives⟩
  obtain ⟨P, R, hwithin, hruns, hreaches⟩ := Session.exists_runs lint clock hrequests hM
  have hmeets := (hruns.meets M hreaches).2
  rw [Moment.Meets, htask] at hmeets
  obtain ⟨W, L, loop, hsound, hstands, hproper, hknown, hformed⟩ := hmeets
  refine ⟨L, fun node hnode => hwithin.node node (hknown.accepted node hnode), ?_, ?_⟩
  · have hsettled := Session.settled_serve (Session.settled_new lint clock) hrequests
    exact ForLoop.exists_reference hsettled L l
  · intro l' table href
    have hagree : Tables.Agree ⟨M.machine.addresses, table⟩ P :=
      ⟨hsound.table, fun node hnode => href.accepted node (hwithin.node node hnode)⟩
    have hmoved : l.Moved ⟨M.machine.addresses, table⟩ l' :=
      href.twin.moved hproper hformed
        (fun node hnode => hsound.table node (hknown.accepted node hnode)) href.direct
    have hmatches := hsound.matches_unmoved hstands.rooted hnatives hagree
    obtain ⟨hforth, hback⟩ := hmoved.mirrors
    refine ⟨fun r hr => ?_, fun r' hr' => ?_⟩
    · obtain ⟨r', W', hr', hW, hrel⟩ := hforth _ _ _ hmatches r hr
      exact ⟨r', hr', W', hW, hrel⟩
    · obtain ⟨r, W', hr, hW, hrel⟩ := hback _ _ _ hmatches r' hr'
      exact ⟨r, hr, W', hW, hrel.swap⟩

/-- From a `for` loop the tree of its clauses is read. On any machine this tree ends in what the
clauses tell, with frames of their own for rounds that have a step; and wherever a session executes
it these frames make no difference. -/
theorem forLoops_told (lint : Lint) (clock : Clock) (requests : List Request)
    (hrequests : ∀ request ∈ requests, request.Honest) :
    (∀ (nearest loop d : Bool) (keyword : Token) (ts : List Token) (s : Stmt),
      keyword.kind = .for → Grammar.Derives nearest loop (.statement d) (keyword :: ts) s →
      s.declared? = none ∧ ∃ l : ForLoop, s = l.tree ∧ l.Written nearest loop d ts) ∧
      (∀ l : ForLoop, EndsIn (execute · l.tree) = l.RunsApart) ∧
      ((Session.new lint clock).history .empty requests).LoopsTold :=
  ⟨fun _ _ _ _ _ _ hkeyword h => ForLoop.exists_of_derives h hkeyword, fun _ => ForLoop.endsIn_tree,
    history_loopsTold lint clock requests hrequests⟩

theorem oblivious_new (clock : Clock) : ∀ body ∈ (Machine.new clock).natives, body.Oblivious := by
  intro body hbody
  obtain rfl := List.mem_singleton.mp (Array.mem_toList_iff.mpr hbody)
  exact fun _ _ _ _ _ _ => .ok (.number _)

namespace Session

theorem within_remember (s : Session) (P : History) (request : Request) :
    P.Within (s.remember P request) := by
  unfold remember
  split
  · split
    · exact P.within_extend _ _
    · exact .refl P
  · exact .refl P

theorem within_history (s : Session) (P : History) (requests : List Request) :
    P.Within (s.history P requests) := by
  induction requests generalizing s P with
  | nil => exact .refl P
  | cons request requests ih => exact (s.within_remember P request).trans (ih _ _)

/-- The first statement of an accepted program is executed. -/
theorem moment_first (s : Session) (source : String) {st : Stmt} {ss : List Stmt} {r : Resolution}
    (h : s.check source = .ok (st :: ss, r)) (P : History) (n : Nat) (requests : List Request) :
    (s.history P (.run n source :: requests)).moment
      (topLevel n (s.begun source r).machine st) := by
  refine (within_history _ _ requests).moment _ ?_
  simp only [remember, h]
  exact .inr (.single (List.mem_append_left _ (List.mem_singleton_self _)))

end Session

namespace ForLoop

theorem topLevel_tree (l : ForLoop) (n : Nat) (m : Machine) :
    topLevel n m l.tree = ⟨n, .execute l.tree, m⟩ := by
  unfold tree Grammar.forLoop
  cases l.start <;> rfl

/-- A loop that a new session accepts is entered. -/
theorem enters_first (l : ForLoop) {lint : Lint} {clock : Clock} {source : String} {r : Resolution}
    (h : (Session.new lint clock).check source = .ok ([l.tree], r)) (n : Nat)
    (requests : List Request) :
    ∃ M, ((Session.new lint clock).history .empty (.run n source :: requests)).Enters M l := by
  have hmoment := Session.moment_first (.new lint clock) source h .empty n requests
  rw [topLevel_tree] at hmoment
  exact ⟨_, hmoment, rfl, oblivious_new clock⟩

/-- Only braces and other loops make a block of the body. -/
theorem Written.body_ne_block {nearest loop d : Bool} {l : ForLoop} {ts : List Token}
    (h : l.Written nearest loop d ts)
    (hplain : ∀ t ∈ ts, t.kind ≠ .leftBrace ∧ t.kind ≠ .for) (ss : List Stmt) :
    l.body ≠ .block ss := by
  intro hblock
  obtain ⟨-, -, -, -, -, -, hbody⟩ := h
  generalize l.body = s at hbody hblock
  cases hbody with
  | block hopening => exact (hplain _ (by simp)).1 hopening
  | «for» hkeyword => exact (hplain _ (by simp)).2 hkeyword
  | _ => cases hblock

/-- Is this the tree of a loop with three clauses, unless the loop has a block for a body? -/
def hasClauses : Stmt → Bool
  | .block [.var _ (some _), .while (.binary _ _ _) (.block [_, .expression _])] => true
  | _ => false

theorem clauses_of_hasClauses {l : ForLoop} (h : hasClauses l.tree = true)
    (hbody : ∀ ss, l.body ≠ .block ss) :
    l.start.isSome ∧ l.condition.isSome ∧ l.step.isSome := by
  unfold hasClauses at h
  split at h
  next htree =>
    obtain ⟨start, condition, step, body, _⟩ := l
    cases start with
    | none => cases htree
    | some start =>
      cases step with
      | none =>
        obtain ⟨-, -, hblock⟩ : _ ∧ _ ∧ body = .block _ := by
          simpa [tree, Grammar.forLoop] using htree
        exact absurd hblock (hbody _)
      | some step =>
        cases condition with
        | none => simp [tree, Grammar.forLoop] at htree
        | some condition => exact ⟨rfl, rfl, rfl⟩
  next => cases h

end ForLoop

/-- A program of one declaration that starts with `for` is a statement. -/
theorem Grammar.Derives.exists_statement {nearest loop : Bool} {keyword : Token} {ts : List Token}
    {s : Stmt} (h : Derives nearest loop .declarations (keyword :: ts) [s])
    (hkeyword : keyword.kind = .for) :
    ∃ d, Derives nearest loop (.statement d) (keyword :: ts) s := by
  generalize hts : keyword :: ts = ts' at h
  cases h with
  | declarations hs hnone =>
    cases hnone
    rw [List.append_nil] at hts ⊢
    cases hs with
    | statement hs => exact ⟨_, hs⟩
    | declareVariable hs =>
      cases hs with
      | bare hk | initialized hk =>
        obtain ⟨rfl, -⟩ := List.cons.inj hts
        rw [hkeyword] at hk
        cases hk
    | declareFunction hk | declareClass hk | declareSubclass hk =>
      obtain ⟨rfl, -⟩ := List.cons.inj hts
      rw [hkeyword] at hk
      cases hk

/-- A source of one `for` loop is accepted as what its words derive. -/
theorem Session.exists_first {s : Session} {source : String} {keyword : Token} {ts : List Token}
    (hwords : Grammar.untilEnd (tokens (scan source)) = keyword :: ts)
    (hkeyword : keyword.kind = .for)
    (hsingle : (s.check source).toOption.any (·.1.length == 1) = true) :
    ∃ st r d, s.check source = .ok ([st], r) ∧
      Grammar.Derives true false (.statement d) (keyword :: ts) st := by
  cases hcheck : s.check source with
  | error ds =>
    rw [hcheck] at hsingle
    cases hsingle
  | ok accepted =>
    obtain ⟨program, r⟩ := accepted
    rw [hcheck] at hsingle
    obtain ⟨st, rfl⟩ := List.length_eq_one_iff.mp (beq_iff_eq.mp hsingle)
    have hderives := derives_of_readProgram (check_eq_ok.mp hcheck).1
    rw [hwords] at hderives
    obtain ⟨d, hd⟩ := hderives.exists_statement hkeyword
    exact ⟨st, r, d, rfl, hd⟩

/-- A loop without clauses and a loop with all three are read and executed. In another such loop
functions that are made in different rounds share the variable of the start. -/
theorem forLoops_told_shared :
    let source := "var f; var g;
      for (var s = \"\"; s != \"aa\"; s = s + \"a\") \x7b
        var t = fun () \x7b return s; \x7d;
        if (s == \"\") f = t; else g = t;
      \x7d
      print f() == g() and f != g; print f();"
    let requests : List Request := [.run 90 "for (;;) break;", .run 90 source]
    let P := (Session.new .warn (.ticking 0 1)).history .empty requests
    let keyword : Token := ⟨.for, "for", 1⟩
    let stop : Token := ⟨.break, "break", 1⟩
    let ts : List Token := [⟨.leftParen, "(", 1⟩, ⟨.semicolon, ";", 1⟩, ⟨.semicolon, ";", 1⟩,
      ⟨.rightParen, ")", 1⟩, stop, ⟨.semicolon, ";", 1⟩]
    let loop : Stmt := .while (.literal .true) (.break stop)
    let full := "for (var s = \"\"; s != \"aa\"; s = s + \"a\") print s;"
    let words := Grammar.untilEnd (tokens (scan full))
    let requests' : List Request := [.run 90 full, .run 90 source]
    let P' := (Session.new .warn (.ticking 0 1)).history .empty requests'
    ((keyword.kind = .for ∧ Grammar.Derives true false (.statement false) (keyword :: ts) loop ∧
      loop.declared? = none ∧ ∃ l : ForLoop, loop = l.tree ∧ l.Written true false false ts) ∧
      (∀ request ∈ requests, request.Honest) ∧ P.LoopsTold ∧
        (∃ M l, P.Enters M l) ∧
        ((Session.new .warn (.ticking 0 1)).serve requests).machine.output = "true\naa\n") ∧
      words = keyword :: words.tail ∧ (∀ request ∈ requests', request.Honest) ∧ P'.LoopsTold ∧
        ∃ M l d, P'.Enters M l ∧ Grammar.Derives true false (.statement d) words l.tree ∧
          l.tree.declared? = none ∧ l.Written true false d words.tail ∧
          l.start.isSome ∧ l.condition.isSome ∧ l.step.isSome := by
  intro source requests P keyword stop ts loop full words requests' P'
  refine ⟨?bare, ?full⟩
  case bare =>
    have hrequests : ∀ request ∈ requests, request.Honest := by
      simp only [requests, List.mem_cons, List.not_mem_nil, or_false]
      rintro request (rfl | rfl) <;> exact trivial
    have hderives : Grammar.Derives true false (.statement false) (keyword :: ts)
        (Grammar.forLoop none none none (.break stop)) :=
      .for rfl rfl (.noStart rfl) .leftOut rfl .leftOut rfl (.break rfl rfl)
    obtain ⟨hloop, -, htold⟩ := forLoops_told .warn (.ticking 0 1) requests hrequests
    have hwords : Grammar.untilEnd (tokens (scan "for (;;) break;")) = keyword :: ts := by
      decide +kernel
    obtain ⟨st, r, d, hcheck, hd⟩ :=
      Session.exists_first (s := .new .warn (.ticking 0 1)) hwords rfl (by decide +kernel)
    obtain ⟨-, l, rfl, -⟩ := hloop true false d keyword ts st rfl hd
    obtain ⟨M, hM⟩ := l.enters_first hcheck 90 [.run 90 source]
    exact ⟨⟨rfl, hderives, hloop true false false keyword ts loop rfl hderives⟩, hrequests, htold,
      ⟨M, l, hM⟩, by decide +kernel⟩
  case full =>
    have hrequests : ∀ request ∈ requests', request.Honest := by
      simp only [requests', List.mem_cons, List.not_mem_nil, or_false]
      rintro request (rfl | rfl) <;> exact trivial
    obtain ⟨hloop, -, htold⟩ := forLoops_told .warn (.ticking 0 1) requests' hrequests
    have hwords : words = keyword :: words.tail := by decide +kernel
    have hplain : ∀ t ∈ words.tail, t.kind ≠ .leftBrace ∧ t.kind ≠ .for := by decide +kernel
    obtain ⟨st, r, d, hcheck, hd⟩ :=
      Session.exists_first (s := .new .warn (.ticking 0 1)) hwords rfl (by decide +kernel)
    obtain ⟨hdeclared, l, rfl, hwritten⟩ := hloop true false d keyword words.tail st rfl hd
    obtain ⟨M, hM⟩ := l.enters_first hcheck 90 [.run 90 source]
    have htree : ((Session.new .warn (.ticking 0 1)).check full).toOption.any
        (·.1.all ForLoop.hasClauses) = true := by decide +kernel
    rw [hcheck] at htree
    have hclauses : [l.tree].all ForLoop.hasClauses = true := htree
    rw [← hwords] at hd
    exact ⟨hwords, hrequests, htold, M, l, d, hM, hd, hdeclared, hwritten,
      ForLoop.clauses_of_hasClauses (by simpa using hclauses) (hwritten.body_ne_block hplain)⟩

end Lox
