import Lox.CommandLine.Process
import Lox.Proofs.Token.Scanner

namespace Lox.CommandLine

theorem lines_cons (text : String) (texts : List String) :
    lines (text :: texts) = text ++ "\n" ++ lines texts := by
  rw [lines, List.map_cons, String.join_cons]
  rfl

theorem lines_append (texts texts' : List String) :
    lines (texts ++ texts') = lines texts ++ lines texts' := by
  rw [lines, List.map_append, String.join_append]
  rfl

theorem diagnosticLines_append (ds ds' : List Diagnostic) :
    diagnosticLines (ds ++ ds') = diagnosticLines ds ++ diagnosticLines ds' := by
  rw [diagnosticLines, List.map_append, lines_append]
  rfl

namespace Streams

variable (s : Streams) (stream : Stream)

theorem write_empty : s.write "" stream = s := by
  cases stream <;> simp [write]

theorem write_append (text text' : String) :
    s.write (text ++ text') stream = (s.write text stream).write text' stream := by
  cases stream <;> simp [write, String.append_assoc]

end Streams

namespace Process

variable {α β : Type}

theorem bind_of_ok {p : Process α} {k : α → Process β} {s t : Streams} {a : α}
    (h : p s = .ok a t) : (p >>= k) s = k a t := by
  show EStateM.bind p k s = _
  rw [EStateM.bind, h]

theorem writeLine_bind (stream : Stream) (text : String) (k : Unit → Process β) (s : Streams) :
    (writeLine stream text >>= k) s = k () (s.write (text ++ "\n") stream) := rfl

/-- What is written line by line. -/
theorem forM_writeLine (stream : Stream) (text : α → String) (as : List α) (s : Streams) :
    (forM as fun a => writeLine stream (text a)) s =
      .ok () (s.write (lines (as.map text)) stream) := by
  induction as generalizing s with
  | nil => exact congrArg (EStateM.Result.ok ()) (s.write_empty stream).symm
  | cons a as ih =>
    rw [List.forM_cons, writeLine_bind, ih, List.map_cons, lines_cons,
      s.write_append stream (text a ++ "\n")]

/-- The scanner yields the items that are left, and then none. -/
theorem visitItems_of_left (visit : α → Item → Process α) {n : Nat} {scanner : Scanner}
    {items : List Item} (h : scanner.Left items) (hn : items.length < n) (a : α) :
    visitItems visit n scanner a = items.foldlM visit a := by
  induction items generalizing n scanner a with
  | nil =>
    obtain ⟨n, rfl⟩ := Nat.exists_eq_succ_of_ne_zero (Nat.ne_of_gt hn)
    obtain ⟨scanner', hnext, -⟩ := h.next
    rw [visitItems, hnext]
    rfl
  | cons item items ih =>
    obtain ⟨n, rfl⟩ := Nat.exists_eq_succ_of_ne_zero (Nat.ne_of_gt (Nat.zero_lt_of_lt hn))
    obtain ⟨scanner', hnext, hleft⟩ := h.next
    rw [visitItems, hnext, List.foldlM_cons]
    exact congrArg (visit a item >>= ·) (funext (ih hleft (Nat.lt_of_succ_lt_succ hn)))

/-- The lines of tokens that are listed as they come. -/
def listing (json : Bool) (ts : List Token) : String :=
  if json then "" else lines (ts.map Token.listing)

theorem listing_cons (json : Bool) (t : Token) (ts : List Token) :
    listing json (t :: ts) = listing json [t] ++ listing json ts := by
  cases json with
  | true => rfl
  | false => exact lines_append [t.listing] (ts.map Token.listing)

theorem visitItem_ok (json : Bool) (ts : List Token) (sound : Bool) (t : Token) (s : Streams) :
    visitItem json (ts, sound) (.ok t) s =
      .ok (ts ++ [t], sound) (s.write (listing json [t]) .out) := by
  cases json with
  | true => exact congrArg (EStateM.Result.ok _) (s.write_empty .out).symm
  | false =>
    have hline : listing false [t] = t.listing ++ "\n" := by simp [listing, lines]
    rw [hline]
    rfl

theorem foldlM_visitItem (json : Bool) (items : List Item) (ts : List Token) (sound : Bool)
    (s : Streams) :
    items.foldlM (visitItem json) (ts, sound) s =
      .ok (ts ++ tokens items, sound && (faults items).isEmpty)
        ((s.write (listing json (tokens items)) .out).write (diagnosticLines (faults items))
          .err) := by
  induction items generalizing ts sound s with
  | nil =>
    have hlisting : listing json (tokens []) = "" := by cases json <;> rfl
    have herrors : diagnosticLines (faults []) = "" := rfl
    rw [hlisting, herrors, s.write_empty, s.write_empty]
    simp [tokens, faults]
    rfl
  | cons item items ih =>
    rw [List.foldlM_cons]
    cases item with
    | ok t =>
      rw [bind_of_ok (visitItem_ok json ts sound t s), ih, ← s.write_append .out,
        ← listing_cons, List.append_assoc]
      rfl
    | error d =>
      have hvisit : visitItem json (ts, sound) (.error d) s =
        .ok (ts, false) (s.write (d.display ++ "\n") .err) := rfl
      have herrors : diagnosticLines (faults (.error d :: items)) =
          d.display ++ "\n" ++ diagnosticLines (faults items) := lines_cons _ _
      rw [bind_of_ok hvisit, ih, herrors, Streams.write_append _ _ (d.display ++ "\n")]
      cases sound <;> rfl

theorem report_tokenize (json : Bool) (source : String) :
    (tokenize json source).report = CommandLine.tokenize json source := by
  have hvisit := foldlM_visitItem json (scan source) [] true ⟨"", ""⟩
  rw [← visitItems_of_left _ (Scanner.left_new source) (Nat.lt_succ_of_le (length_scan source)),
    List.nil_append, Bool.true_and] at hvisit
  have htask : tokenize json source ⟨"", ""⟩ = _ := bind_of_ok hvisit
  rw [report, htask, CommandLine.tokenize]
  -- With and without faults, listed at once or in the end: what is written is the same.
  cases (faults (scan source)).isEmpty <;> cases json <;>
    exact congrArg₂ (Report.mk _) String.empty_append String.empty_append

theorem explain_compile (ds : List Diagnostic) (s : Streams) :
    explain (.compile ds) s = .ok Status.rejected (s.write (diagnosticLines ds) .err) :=
  bind_of_ok (forM_writeLine .err Diagnostic.display ds s)

/-- A run that has failed tells of it behind the warnings. -/
theorem explain_behind {f : Failure} {status : Nat} {err : String}
    (h : ∀ s, explain f s = .ok status (s.write err .err)) (warnings : List Diagnostic)
    (out : String) :
    (do
      forM warnings fun d => writeLine .err ("Warning: " ++ d.display)
      exit (← explain f) : Process Unit) ⟨out, ""⟩ =
      .error (.exit status) ⟨out, warningLines warnings ++ err⟩ := by
  have hwarnings := forM_writeLine .err ("Warning: " ++ ·.display) warnings ⟨out, ""⟩
  have hexit := bind_of_ok (k := exit) (h ⟨out, "" ++ warningLines warnings⟩)
  refine (bind_of_ok hwarnings).trans (hexit.trans ?_)
  exact congrArg (fun err' => EStateM.Result.error _ (Streams.mk out (err' ++ err)))
    String.empty_append

theorem report_of_ok {p : Process Unit} {s : Streams} (h : p ⟨"", ""⟩ = .ok () s) :
    p.report = ⟨.exit Status.success, s.out, s.err⟩ := by
  rw [report, h]

theorem report_of_error {p : Process Unit} {ending : TaskEnding} {s : Streams}
    (h : p ⟨"", ""⟩ = .error ending s) : p.report = ⟨ending, s.out, s.err⟩ := by
  rw [report, h]

theorem report_parse (json : Bool) (source : String) :
    (parse json source).report = CommandLine.parse json source := by
  rw [parse, CommandLine.parse]
  cases (readProgram source 0).result with
  | error ds =>
    exact (report_of_error (bind_of_ok (k := exit) (explain_compile ds _))).trans
      (congrArg (Report.mk _ _) String.empty_append)
  | ok program =>
    cases json with
    | true => exact congrArg (Report.mk _ · _) String.empty_append
    | false =>
      exact (report_of_ok (forM_writeLine .out Stmt.symbolic program _)).trans
        (congrArg (Report.mk _ · _) String.empty_append)

theorem report_run (lint : Lint) (clock : Clock) (source : String) :
    (run lint clock source).report = CommandLine.run lint clock source := by
  rw [run, CommandLine.run, respond]
  generalize (Session.new lint clock).run ample source = result
  obtain ⟨o, s⟩ := result
  have hout : "" ++ s.machine.output = s.machine.output := String.empty_append
  cases o with
  | done =>
    have hwarnings := forM_writeLine .err ("Warning: " ++ ·.display) s.warnings
      ⟨"" ++ s.machine.output, ""⟩
    exact (report_of_ok (bind_of_ok hwarnings)).trans
      (congrArg₂ (Report.mk _) hout (String.empty_append.trans String.append_empty.symm))
  | rejected ds =>
    have hexit := explain_behind (explain_compile ds) s.warnings ("" ++ s.machine.output)
    exact (report_of_error hexit).trans (congrArg (Report.mk _ · _) hout)
  | failed e =>
    have hexit := explain_behind (f := .runtime e) (fun _ => rfl) s.warnings
      ("" ++ s.machine.output)
    exact (report_of_error hexit).trans (congrArg (Report.mk _ · _) hout)
  | exhausted => exact congrArg (Report.mk _ · _) hout

end Process

end Lox.CommandLine
