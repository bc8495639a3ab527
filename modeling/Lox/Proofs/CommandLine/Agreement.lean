import Lox.CommandLine.File
import Lox.Proofs.CommandLine.Process
import Lox.Proofs.Grammar.Complete.Whole
import Lox.Proofs.Session.Joined

namespace Lox

open Grammar

namespace Machine

/-- A program stops at its first statement that stops. -/
theorem interpret_eq_error_iff {n : Nat} {program : List Stmt} {m m' : Machine} {stop : Stop} :
    interpret n program m = .error stop m' ↔
      ∃ before statement after m₁, program = before ++ statement :: after ∧
        interpret n before m = .ok () m₁ ∧ interpretOne n statement m₁ = .error stop m' := by
  constructor
  · intro h
    induction program generalizing m with
    | nil => cases h
    | cons s ss ih =>
      cases hs : interpretOne n s m with
      | error stop' m'' =>
        rw [interpret, bind_of_error hs] at h
        cases h
        exact ⟨[], s, ss, m, rfl, rfl, hs⟩
      | ok a m'' =>
        rw [interpret, bind_of_ok hs] at h
        obtain ⟨before, statement, after, m₁, rfl, hbefore, hstatement⟩ := ih h
        refine ⟨s :: before, statement, after, m₁, rfl, ?_, hstatement⟩
        rw [interpret, bind_of_ok hs, hbefore]
  · rintro ⟨before, statement, after, m₁, rfl, hbefore, hstatement⟩
    rw [interpret_append, bind_of_ok hbefore, interpret, bind_of_error hstatement]

end Machine

namespace Session

/-- The source is accepted, and its statements run up to one that stops. -/
inductive StopsAt (s : Session) (n : Nat) (source : String) (stop : Stop) (m : Machine) : Prop where
  | intro {before statement after r m₁} :
    s.check source = .ok (before ++ statement :: after, r) →
    Machine.interpret n before (s.begun source r).machine = .ok () m₁ →
    Machine.interpretOne n statement m₁ = .error stop m → StopsAt s n source stop m

/-- The outcome of a program that stops. -/
def outcomeOf : Stop → Outcome
  | .error e => .failed e
  | .exhausted => .exhausted

/-- A source that is stopped leaves the machine as it is then. -/
theorem stopsAt_iff {s : Session} {n : Nat} {source : String} {stop : Stop} {m : Machine} :
    s.StopsAt n source stop m ↔
      (s.run n source).1 = outcomeOf stop ∧ (s.run n source).2.machine = m := by
  constructor
  · rintro @⟨before, statement, after, r, m₁, hcheck, hbefore, hstatement⟩
    have hstop := Machine.interpret_eq_error_iff.mpr
      ⟨before, statement, after, m₁, rfl, hbefore, hstatement⟩
    rw [run_of_accepted n hcheck, interpret, hstop]
    cases stop <;> exact ⟨rfl, rfl⟩
  · rintro ⟨houtcome, rfl⟩
    cases hcheck : s.check source with
    | error ds =>
      rw [run_of_rejected n hcheck] at houtcome
      cases stop <;> cases houtcome
    | ok accepted =>
      obtain ⟨program, r⟩ := accepted
      rw [run_of_accepted n hcheck, interpret] at houtcome ⊢
      cases hstop : Machine.interpret n program (s.begun source r).machine with
      | ok a m =>
        rw [hstop] at houtcome
        cases stop <;> cases houtcome
      | error stop' m =>
        rw [hstop] at houtcome
        obtain rfl : stop' = stop := by cases stop' <;> cases stop <;> cases houtcome <;> rfl
        obtain ⟨before, statement, after, m₁, rfl, hbefore, hstatement⟩ :=
          Machine.interpret_eq_error_iff.mp hstop
        have hmachine : StopsAt s n source stop' m := .intro hcheck hbefore hstatement
        cases stop' <;> exact hmachine

theorem exists_stopsAt_iff {s : Session} {n : Nat} {source : String} {stop : Stop} :
    (∃ m, s.StopsAt n source stop m) ↔ (s.run n source).1 = outcomeOf stop :=
  ⟨fun ⟨_, h⟩ => (stopsAt_iff.mp h).1, fun h => ⟨_, stopsAt_iff.mpr ⟨h, rfl⟩⟩⟩

end Session

theorem mem_faults {items : List Item} {d : Diagnostic} :
    d ∈ faults items ↔ .error d ∈ items := by
  rw [faults, List.mem_filterMap]
  constructor
  · rintro ⟨item, hitem, hd⟩
    cases item with
    | ok t => cases hd
    | error d' =>
      cases hd
      exact hitem
  · exact fun h => ⟨_, h, rfl⟩

theorem faults_ne_nil_iff {items : List Item} : faults items ≠ [] ↔ ∃ d, .error d ∈ items := by
  constructor
  · intro h
    obtain ⟨d, hd⟩ := List.exists_mem_of_ne_nil _ h
    exact ⟨d, mem_faults.mp hd⟩
  · rintro ⟨d, hd⟩
    exact List.ne_nil_of_mem (mem_faults.mpr hd)

/-- A program is read if no character is at fault and the grammar derives one. -/
theorem readProgram_eq_error_iff (source : String) (firstId : Nat) :
    (∃ ds, (readProgram source firstId).result = .error ds) ↔ (∃ d, .error d ∈ scan source) ∨
      ¬ ∃ program, Derives true false .declarations (untilEnd (tokens (scan source))) program := by
  rw [← faults_ne_nil_iff]
  constructor
  · rintro ⟨ds, hds⟩
    refine Decidable.or_iff_not_imp_left.mpr fun hfaults hderives => ?_
    obtain ⟨program, hprogram⟩ := hderives
    obtain ⟨program', hread, -⟩ :=
      readProgram_of_derives firstId (Decidable.not_not.mp hfaults) hprogram
    rw [hread] at hds
    cases hds
  · intro h
    cases hread : (readProgram source firstId).result with
    | error ds => exact ⟨ds, rfl⟩
    | ok program =>
      have hfaults := (readProgram_eq_ok hread).1
      exact absurd ⟨program, derives_of_readProgram hread⟩ (h.resolve_left (· hfaults))

/-- The faults of the characters are told of first. -/
theorem faults_prefix_of_readProgram {source : String} {firstId : Nat} {ds : List Diagnostic}
    (h : (readProgram source firstId).result = .error ds) :
    ∃ more, ds = faults (scan source) ++ more := by
  rw [readProgram_result] at h
  split at h
  next hfaults => exact ⟨ds, by rw [hfaults]; rfl⟩
  next =>
    cases h
    exact ⟨[], (List.append_nil _).symm⟩
  next more _ _ =>
    cases h
    exact ⟨more, rfl⟩

namespace CommandLine

/-- What the tasks report on a source, and that they agree. A run that ends tells by its status what
is wrong: 65 with the source before it runs, 70 as it runs, and 0 nothing. -/
structure Agreement (source : String) (lint : Lint) (clock : Clock) (tokenized parsed : Bool → Report)
    (ran : Report) : Prop where
  tokenizes : ∀ json, tokenized json = (Process.tokenize json source).report
  parses : ∀ json, parsed json = (Process.parse json source).report
  runs : ran = (Process.run lint clock source).report
  /-- The session rejects the source, and nothing is printed. -/
  rejects : ran.ending = 65 ↔
    ∃ ds, ((Session.new lint clock).run ample source).1 = .rejected ds
  silent : ran.ending = 65 → ran.out = ""
  /-- The session runs the source up to a statement that fails. -/
  stops : ran.ending = 70 ↔ ∃ e m, (Session.new lint clock).StopsAt ample source (.error e) m
  /-- The session runs the source up to a statement that does not end within the allowance. -/
  unended : ran.ending = .unended ↔ ∃ m, (Session.new lint clock).StopsAt ample source .exhausted m
  /-- All is printed up to a statement that stops. -/
  prints : ∀ stop m, (Session.new lint clock).StopsAt ample source stop m → ran.out = m.output
  succeeds : ran.ending = 0 ↔ ((Session.new lint clock).run ample source).1 = .done
  /-- The source has a lexical error or a syntax error, and a run tells the same. -/
  unparsed : ∀ json, (parsed json).ending = 65 ↔ (∃ d, .error d ∈ scan source) ∨
    ¬ ∃ program, Derives true false .declarations (untilEnd (tokens (scan source))) program
  unparsed_run : ∀ json, (parsed json).ending = 65 → ran.ending = 65 ∧ ran.err = (parsed json).err
  /-- The source has a lexical error, and reading it tells the same and more. -/
  unscanned : ∀ json, (tokenized json).ending = 65 ↔ ∃ d, .error d ∈ scan source
  unscanned_parse : ∀ json json', (tokenized json).ending = 65 →
    ∃ more, (parsed json').err = (tokenized json).err ++ more

variable {lint : Lint} {clock : Clock} {source : String}

theorem ending_run : (run lint clock source).ending =
    match ((Session.new lint clock).run ample source).1 with
    | .done => 0
    | .rejected _ => 65
    | .failed _ => 70
    | .exhausted => .unended := by
  rw [run, respond]
  generalize (Session.new lint clock).run ample source = result
  obtain ⟨o, s⟩ := result
  cases o <;> rfl

theorem out_run : (run lint clock source).out =
    ((Session.new lint clock).run ample source).2.machine.output := by
  rw [run, respond]
  generalize (Session.new lint clock).run ample source = result
  obtain ⟨o, s⟩ := result
  cases o <;> rfl

/-- A source that is rejected is neither warned of nor run. -/
theorem run_of_rejected {ds : List Diagnostic}
    (h : ((Session.new lint clock).run ample source).1 = .rejected ds) :
    run lint clock source = rejection ds := by
  rw [run, respond, Session.run_of_rejected ample (Session.run_eq_rejected_iff.mp h)]
  exact congrArg (Report.mk _ _) String.empty_append

theorem rejects_iff : (run lint clock source).ending = 65 ↔
    ∃ ds, ((Session.new lint clock).run ample source).1 = .rejected ds := by
  rw [ending_run]
  cases ((Session.new lint clock).run ample source).1 with
  | rejected ds => exact iff_of_true rfl ⟨ds, rfl⟩
  | _ => exact iff_of_false nofun nofun

theorem stops_iff : (run lint clock source).ending = 70 ↔
    ∃ e m, (Session.new lint clock).StopsAt ample source (.error e) m := by
  simp only [ending_run, Session.exists_stopsAt_iff, Session.outcomeOf]
  cases ((Session.new lint clock).run ample source).1 with
  | failed e => exact iff_of_true rfl ⟨e, rfl⟩
  | _ => exact iff_of_false nofun nofun

theorem unended_iff : (run lint clock source).ending = .unended ↔
    ∃ m, (Session.new lint clock).StopsAt ample source .exhausted m := by
  rw [ending_run, Session.exists_stopsAt_iff, Session.outcomeOf]
  cases ((Session.new lint clock).run ample source).1 with
  | exhausted => exact iff_of_true rfl rfl
  | _ => exact iff_of_false nofun nofun

theorem parse_of_error {json : Bool} {ds : List Diagnostic}
    (h : (readProgram source 0).result = .error ds) : parse json source = rejection ds := by
  rw [parse, h]

theorem ending_parse_iff (json : Bool) : (parse json source).ending = 65 ↔
    ∃ ds, (readProgram source 0).result = .error ds := by
  rw [parse]
  cases (readProgram source 0).result with
  | error ds => exact iff_of_true rfl ⟨ds, rfl⟩
  | ok program =>
    refine iff_of_false (show (0 : TaskEnding) ≠ 65 by decide) ?_
    rintro ⟨ds, h⟩
    cases h

theorem ending_tokenize_iff (json : Bool) : (tokenize json source).ending = 65 ↔
    faults (scan source) ≠ [] := by
  rw [tokenize]
  cases faults (scan source) with
  | nil => exact iff_of_false (show (0 : TaskEnding) ≠ 65 by decide) fun h => h rfl
  | cons d ds => exact iff_of_true rfl (List.cons_ne_nil d ds)

/-- What cannot be read is rejected by a run in the same words. -/
theorem run_of_parse {json : Bool} (h : (parse json source).ending = 65) :
    run lint clock source = parse json source := by
  obtain ⟨ds, hds⟩ := (ending_parse_iff json).mp h
  rw [parse_of_error hds]
  refine run_of_rejected (Session.run_eq_rejected_iff.mpr ?_)
  rw [Session.check, show (readProgram source (Session.new lint clock).nextId).result = _ from hds]

theorem agreement (lint : Lint) (clock : Clock) (source : String) :
    Agreement source lint clock (tokenize · source) (parse · source) (run lint clock source) where
  tokenizes json := (Process.report_tokenize json source).symm
  parses json := (Process.report_parse json source).symm
  runs := (Process.report_run lint clock source).symm
  rejects := rejects_iff
  silent h := by
    obtain ⟨ds, hds⟩ := rejects_iff.mp h
    rw [run_of_rejected hds]
    rfl
  stops := stops_iff
  unended := unended_iff
  prints stop m h := by
    rw [out_run, (Session.stopsAt_iff.mp h).2]
  succeeds := by
    rw [ending_run]
    cases ((Session.new lint clock).run ample source).1 with
    | done => exact iff_of_true rfl rfl
    | _ => exact iff_of_false nofun nofun
  unparsed json := (ending_parse_iff json).trans (readProgram_eq_error_iff source 0)
  unparsed_run json h := by
    rw [run_of_parse h]
    exact ⟨h, rfl⟩
  unscanned json := (ending_tokenize_iff json).trans faults_ne_nil_iff
  unscanned_parse json json' h := by
    have hfaults := (ending_tokenize_iff json).mp h
    obtain ⟨ds, hds⟩ := (readProgram_eq_error_iff source 0).mpr (.inl (faults_ne_nil_iff.mp hfaults))
    obtain ⟨more, rfl⟩ := faults_prefix_of_readProgram hds
    rw [parse_of_error hds]
    exact ⟨diagnosticLines more, diagnosticLines_append _ _⟩

section File

variable {read : String → Except FileFault (List UInt8)} {path : String} {bytes : List UInt8}

theorem report_eq_ofFile {r : Request} (hfile : r.file = some path) (htask : r.task ≠ .repl)
    (clock : Clock) (input : List UInt8) :
    r.report clock read input = ofFile path (read path) (r.onSource clock) := by
  rw [Request.report, hfile]
  cases htask' : r.task with
  | repl => exact absurd htask' htask
  | _ => rfl

theorem report_of_file {r : Request} (hfile : r.file = some path) (htask : r.task ≠ .repl)
    (hread : read path = .ok bytes) (hsource : Utf8.decode bytes = .ok source) (clock : Clock)
    (input : List UInt8) : r.report clock read input = r.onSource clock source := by
  rw [report_eq_ofFile hfile htask, hread, ofFile, hsource]

/-- All tasks break down with the same message on a file that is not to be had as text. -/
theorem report_of_unreadable
    (hunreadable : ∀ bytes source, read path = .ok bytes → Utf8.decode bytes ≠ .ok source) :
    ∃ message cause, ∀ r : Request, r.file = some path → r.task ≠ .repl → ∀ clock input,
      r.report clock read input = breakdown message (some cause) := by
  have hbreakdown : ∃ message cause, ∀ task, ofFile path (read path) task =
      breakdown message (some cause) := by
    cases hread : read path with
    | error fault => cases fault <;> exact ⟨_, _, fun _ => rfl⟩
    | ok bytes =>
      cases hsource : Utf8.decode bytes with
      | error fault => exact ⟨_, _, fun _ => by rw [ofFile, hsource]⟩
      | ok source => exact absurd hsource (hunreadable bytes source hread)
  obtain ⟨message, cause, hbreakdown⟩ := hbreakdown
  refine ⟨message, cause, fun r hfile htask clock input => ?_⟩
  rw [report_eq_ofFile hfile htask, hbreakdown]

example : Request.report ⟨.run, some "a.lox", false, false, .warn⟩ (.ticking 0 1)
      (fun _ => .error (.opening 2)) [] =
    ⟨1, "", "Error: Failed to open file \"a.lox\"\n\nCaused by:\n" ++
      "    No such file or directory (os error 2)\n"⟩ := by
  decide +kernel

/-- The tasks tell one story of a file that is text. -/
theorem report_agreement (hread : read path = .ok bytes) (hsource : Utf8.decode bytes = .ok source)
    (lint : Lint) (log : Bool) (clock : Clock) (input : List UInt8) :
    let report := fun task json =>
      Request.report ⟨task, some path, json, log, lint⟩ clock read input
    Agreement source lint clock (report .tokenize) (report .parse) (report .run false) := by
  intro report
  have hreport : ∀ task json, task ≠ .repl → report task json =
      Request.onSource ⟨task, some path, json, log, lint⟩ clock source :=
    fun _ _ htask => report_of_file rfl htask hread hsource clock input
  have htokenize : report .tokenize = (tokenize · source) :=
    funext fun json => hreport .tokenize json nofun
  have hparse : report .parse = (parse · source) := funext fun json => hreport .parse json nofun
  have hrun : report .run false = run lint clock source := hreport .run false nofun
  rw [htokenize, hparse, hrun]
  exact agreement lint clock source

/-- A stray character with an open statement behind it, and a source that fails as it runs. -/
theorem report_agreement_stray :
    let stray := "print 1 $;\nprint"
    let failing := "print \"a\";\nprint -true;"
    let bytes := fun source : String => source.toUTF8.data.toList
    let read : String → Except FileFault (List UInt8) := fun path =>
      .ok (bytes (if path = "stray.lox" then stray else failing))
    let report := fun path task json =>
      Request.report ⟨task, some path, json, false, .deny⟩ (.ticking 0 1) read []
    (read "stray.lox" = .ok (bytes stray) ∧ Utf8.decode (bytes stray) = .ok stray ∧
      (report "stray.lox" .tokenize true).ending = 65 ∧
      (∃ more, (report "stray.lox" .parse false).err =
        (report "stray.lox" .tokenize true).err ++ more) ∧
      (report "stray.lox" .run false).ending = 65 ∧
      (report "stray.lox" .run false).err = (report "stray.lox" .parse false).err) ∧
    read "failing.lox" = .ok (bytes failing) ∧ Utf8.decode (bytes failing) = .ok failing ∧
      (report "failing.lox" .run false).ending = 70 ∧
      ∃ e m, (Session.new .deny (.ticking 0 1)).StopsAt ample failing (.error e) m ∧
        (report "failing.lox" .run false).out = m.output ∧ m.output = "a\n" := by
  intro stray failing bytes read report
  refine ⟨?_, ?_⟩
  · have hread : read "stray.lox" = .ok (bytes stray) := rfl
    have hsource : Utf8.decode (bytes stray) = .ok stray := by decide +kernel
    have hstray : (.error ⟨1, .lexical (.unexpected '$')⟩ : Item) ∈ scan stray := by decide +kernel
    have h := report_agreement hread hsource .deny false (.ticking 0 1) []
    have hlexical := (h.unscanned true).mpr ⟨_, hstray⟩
    have hparse := (h.unparsed false).mpr (.inl ⟨_, hstray⟩)
    exact ⟨hread, hsource, hlexical, h.unscanned_parse true false hlexical,
      h.unparsed_run false hparse⟩
  · have hread : read "failing.lox" = .ok (bytes failing) := rfl
    have hsource : Utf8.decode (bytes failing) = .ok failing := by decide +kernel
    have hending : (report "failing.lox" .run false).ending = 70 := by decide +kernel
    have hout : (report "failing.lox" .run false).out = "a\n" := by decide +kernel
    have h := report_agreement hread hsource .deny false (.ticking 0 1) []
    obtain ⟨e, m, hstops⟩ := h.stops.mp hending
    have hprints := h.prints _ _ hstops
    exact ⟨hread, hsource, hending, e, m, hstops, hprints, hprints.symm.trans hout⟩

end File

end CommandLine

end Lox
