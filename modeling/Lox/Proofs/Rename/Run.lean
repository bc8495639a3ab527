import Lox.Proofs.Rename.Evaluation
import Lox.Proofs.Rename.Locals
import Lox.Proofs.Rename.Resolve
import Lox.Proofs.Session.Joined

namespace Lox

open Grammar

variable {R : Renaming}

theorem Machine.renamed_self {m : Machine} (hheedless : ∀ body ∈ m.natives, body.Heedless)
    (hnoted : ∀ id, R.Notes id → (m.addresses[id]?).isSome) : m.Renamed R false m where
  globals _ := rel_self (Value.alike_self Function.renamed_self) _
  frame := rfl
  inside := by simp
  frames _ := rel_self (fun _ => ⟨rfl, fun _ => rel_self (Value.alike_self Function.renamed_self) _⟩) _
  instances _ := rel_self (fun _ _ => rel_self (Value.alike_self Function.renamed_self) _) _
  natives := rfl
  heedless := hheedless
  turns := rfl
  addresses := rfl
  noted := hnoted
  output := rfl
  echoes := rfl
  nextIdentity := rfl

/-- The same way to end, but for the name in an error. -/
inductive Outcome.Renamed (R : Renaming) : Outcome → Outcome → Prop where
  | done : Outcome.Renamed R .done .done
  | failed {e e'} : e.Renamed R e' → Outcome.Renamed R (.failed e) (.failed e')
  | exhausted : Outcome.Renamed R .exhausted .exhausted

/-- A host function that is given a name takes no notice of functions. -/
def Request.Heedless : Request → Prop
  | .defineNative _ _ body => body.Heedless
  | _ => True

namespace Session

/-- A run that goes the same way with the new name. -/
structure RunRenamed (R : Renaming) (run run' : Outcome × Session) : Prop where
  outcome : run.1.Renamed R run'.1
  machine : run.2.machine.Renamed R false run'.2.machine
  warnings : List.Forall₂ (Diagnostic.Renamed R) run.2.warnings run'.2.warnings

theorem runRenamed_interpret {s s' : Session} (hm : s.machine.Renamed R false s'.machine)
    (hw : List.Forall₂ (Diagnostic.Renamed R) s.warnings s'.warnings) {program program' : List Stmt}
    (hp : RenamedStatements R false program program') (n : Nat) :
    RunRenamed R (s.interpret n program) (s'.interpret n program') := by
  have h := Machine.following_interpret n hp _ _ hm
  unfold interpret
  generalize Machine.interpret n program s.machine = result at h
  generalize Machine.interpret n program' s'.machine = result' at h
  cases h with
  | ok _ hm => exact ⟨.done, hm, hw⟩
  | error he hm =>
    cases he with
    | error he => exact ⟨.failed he, hm, hw⟩
    | exhausted => exact ⟨.exhausted, hm, hw⟩

/-- No host function takes notice of functions. -/
def Heedless (s : Session) : Prop := ∀ body ∈ s.machine.natives, body.Heedless

theorem heedless_answer {s : Session} (h : s.Heedless) {request : Request}
    (hrequest : request.Heedless) : (s.answer request).2.Heedless := by
  cases request with
  | run n source =>
    show (s.run n source).2.Heedless
    cases hcheck : s.check source with
    | error ds =>
      rw [run_of_rejected n hcheck]
      exact h
    | ok x =>
      obtain ⟨program, r⟩ := x
      rw [run_of_accepted n hcheck]
      -- A run is one of its renamings, for want of notes.
      have hself : (s.begun source r).machine.Renamed ⟨"", "", []⟩ false (s.begun source r).machine :=
        Machine.renamed_self h fun id ⟨_, hmem⟩ => nomatch hmem
      have hrun := runRenamed_interpret hself (List.forall₂_same.mpr fun d _ => .same d)
        (renamedStatements_self false program) n
      exact hrun.machine.heedless
  | defineNative name arity body =>
    intro other hother
    rcases Array.mem_push.mp hother with hother | rfl
    · exact h other hother
    · exact hrequest
  | _ => exact h

theorem heedless_serve (lint : Lint) (clock : Clock) {requests : List Request}
    (hrequests : ∀ request ∈ requests, request.Heedless) :
    ((new lint clock).serve requests).Heedless := by
  refine serve_induction (I := Heedless) ?_ fun s request hmem hs =>
    heedless_answer hs (hrequests request hmem)
  intro body hbody
  rcases Array.mem_push.mp hbody with hbody | rfl
  · exact absurd hbody (Array.not_mem_empty _)
  · exact fun _ _ _ _ _ => .ok (.number _)

variable {s : Session} {source : String} {program : List Stmt} {r : Resolution}

/-- The addresses of an accepted program are those of its nodes. -/
theorem Accepted.knows (h : s.Accepted source program r) (old new : String) :
    (Renaming.mk old new r.addresses).Knows (nodesOfProgram program) := by
  intro node hnode a
  show (node.id, a) ∈ r.addresses ↔ _
  rw [h.addresses, List.mem_filterMap]
  constructor
  · rintro ⟨other, hother, hentry⟩
    obtain ⟨b, hb, heq⟩ := Option.map_eq_some_iff.mp hentry
    obtain ⟨hid, rfl⟩ := Prod.mk.inj heq
    obtain rfl := List.inj_on_of_nodup_map h.fresh.nodup hother hnode hid
    exact hb
  · exact fun ha => ⟨node, hnode, by simp [Node.entry?, ha]⟩

/-- An identifier that the source does not have is no lexeme of it. -/
theorem avoids_of_accepted (h : (readProgram source s.nextId).result = .ok program) {R : Renaming}
    (hnew : Lexeme .identifier R.new.toList)
    (hfresh : ∀ t ∈ tokens (scan source), t.kind = .identifier → t.lexeme ≠ R.new) :
    BearsStatements (Token.Avoids R) program := by
  refine Derives.bears (derives_of_readProgram h) fun t ht hlexeme => ?_
  have hwritten : IsWord t.kind t.lexeme.toList := written_of_mem_untilEnd ht
  rw [hlexeme] at hwritten
  exact hfresh t ((List.takeWhile_sublist _).subset ht) (hwritten.kind hnew.isWord) hlexeme

theorem noted_begun (h : s.Accepted source program r) {old new : String} {id : Nat}
    (hid : (Renaming.mk old new r.addresses).Notes id) :
    ((s.begun source r).machine.addresses[id]?).isSome := by
  obtain ⟨a, ha⟩ := hid
  have hnodup : (r.addresses.map Prod.fst).Nodup := by
    rw [h.addresses]
    exact nodup_entries h.fresh.nodup
  have hnote := getElem?_note_of_mem hnodup ha s.machine.addresses
  exact Option.isSome_of_eq_some hnote

end Session

/-- A keyword is no identifier. -/
theorem Lexeme.not_keyword {name : String} (h : Lexeme .identifier name.toList) {word : String}
    {k : Kind} (hword : Kind.keyword? word = some k) (hk : k ≠ .identifier) : name ≠ word := by
  rintro rfl
  have hkeyword : Lexeme k name.toList := .keyword (by rw [String.ofList_toList, hword])
  exact hk (hkeyword.kind h)

/-- Another name for a local. The name is one that no identifier of the source has, and it stands
for the old one where the local is declared and at the nodes that name it. The program is accepted
with the same addresses, so no other node names the local than before, and with the same warnings up
to the name. Its runs go the same way, of any source that reads as the program too. -/
theorem rename_local (lint : Lint) (clock : Clock) (requests : List Request)
    (hrequests : ∀ request ∈ requests, request.Heedless) (source new : String)
    (hnew : Lexeme .identifier new.toList)
    (hfresh : ∀ t ∈ tokens (scan source), t.kind = .identifier → t.lexeme ≠ new) :
    let s := (Session.new lint clock).serve requests
    ∀ program r, s.check source = .ok (program, r) → ∀ l ∈ localsOfStatements program,
      let R : Renaming := ⟨l.name.lexeme, new, r.addresses⟩
      let program' := renameStatements R l.aim program
      localsOfStatements program' = (localsOfStatements program).map (R.renamed l.aim) ∧
      ∃ r', resolve s.lint program' = .ok r' ∧ r'.addresses = r.addresses ∧
        List.Forall₂ (Diagnostic.Renamed R) r.warnings r'.warnings ∧
        (∀ n, Session.RunRenamed R (s.run n source) ((s.begun source r').interpret n program')) ∧
        ∀ source', (readProgram source' s.nextId).result = .ok program' →
          s.check source' = .ok (program', r') ∧
          ∀ n, Session.RunRenamed R (s.run n source) (s.run n source') := by
  intro s program r hcheck l _ R program'
  obtain ⟨hread, hresolve⟩ := Session.check_eq_ok.mp hcheck
  have haccepted := Session.accepted_of_check hcheck
  have hheedless := Session.heedless_serve lint clock hrequests
  have hkeywords : new ≠ "this" ∧ new ≠ "super" :=
    ⟨hnew.not_keyword rfl (by simp), hnew.not_keyword rfl (by simp)⟩
  obtain ⟨warnings, hresolve', hwarnings⟩ := resolve_rename (R := R) hkeywords l.path l.slot hresolve
    haccepted.formed (Session.avoids_of_accepted hread hnew hfresh) (haccepted.knows _ new)
  have hprogram : RenamedStatements R false program program' :=
    renamed_renameStatements false _ (Renaming.inside_ahead false l.path l.slot) program
  have hall : List.Forall₂ (Diagnostic.Renamed R) (s.warnings ++ r.warnings)
      (s.warnings ++ warnings) :=
    List.rel_append (List.forall₂_same.mpr fun d _ => .same d) hwarnings
  have hrun (source' : String) (n : Nat) : Session.RunRenamed R (s.run n source)
      ((s.begun source' ⟨r.addresses, warnings⟩).interpret n program') := by
    have hself : (s.begun source r).machine.Renamed R false
        (s.begun source' ⟨r.addresses, warnings⟩).machine :=
      Machine.renamed_self hheedless fun _ => Session.noted_begun haccepted
    rw [Session.run_of_accepted n hcheck]
    exact Session.runRenamed_interpret hself hall hprogram n
  refine ⟨localsOfStatements_rename R l.aim program, ⟨r.addresses, warnings⟩, hresolve', rfl,
    hwarnings, hrun source, fun source' hread' => ?_⟩
  have hcheck' : s.check source' = .ok (program', ⟨r.addresses, warnings⟩) :=
    Session.check_eq_ok.mpr ⟨hread', hresolve'⟩
  refine ⟨hcheck', fun n => ?_⟩
  rw [Session.run_of_accepted n hcheck']
  exact hrun source' n

/-- A local that a closure in its own initializer reads too early, with another one of its name
farther in. -/
theorem rename_local_closure :
    let requests : List Request :=
      [.defineNative "same" 1 fun _ vs => .ok (vs.headD .nil),
        .run 90 "var g = fun (x) { return x; };"]
    let source := "fun f(a) { var x = (fun () { { var x = same(a); print g(x); } return x; })(); }\nf(true);"
    let s := (Session.new .warn (.ticking 0 1)).serve requests
    (∀ request ∈ requests, request.Heedless) ∧ Lexeme .identifier "y".toList ∧
      (∀ t ∈ tokens (scan source), t.kind = .identifier → t.lexeme ≠ "y") ∧
      ∃ program r l, s.check source = .ok (program, r) ∧ l ∈ localsOfStatements program ∧
        l.path = [0, 0] ∧ l.slot = 1 ∧ l.name.lexeme = "x" ∧
        ∃ r', resolve s.lint (renameStatements ⟨"x", "y", r.addresses⟩ l.aim program) = .ok r' ∧
          r'.addresses = r.addresses ∧
          Session.RunRenamed ⟨"x", "y", r.addresses⟩ (s.run 90 source)
            ((s.begun source r').interpret 90
              (renameStatements ⟨"x", "y", r.addresses⟩ l.aim program)) := by
  intro requests source s
  have hsame : NativeBody.Heedless fun _ vs => .ok (vs.headD .nil) := by
    intro F turn vs vs' hvs
    cases hvs with
    | nil => exact .ok .nil
    | cons hv _ => exact .ok hv
  have hrequests : ∀ request ∈ requests, request.Heedless := by
    simp only [requests, List.mem_cons, List.not_mem_nil, or_false]
    rintro request (rfl | rfl)
    · exact hsame
    · exact trivial
  have hnew : Lexeme .identifier "y".toList := .identifier (by decide) (by decide)
  have hfresh : ∀ t ∈ tokens (scan source), t.kind = .identifier → t.lexeme ≠ "y" := by
    decide +kernel
  have hfound : ((s.check source).map fun x => (localsOfStatements x.1).any fun l =>
      l.path = [0, 0] && l.slot = 1 && l.name.lexeme = "x").toOption = some true := by
    decide +kernel
  cases hcheck : s.check source with
  | error ds =>
    rw [hcheck] at hfound
    cases hfound
  | ok x =>
    obtain ⟨program, r⟩ := x
    rw [hcheck] at hfound
    obtain ⟨l, hl, hplace⟩ := List.any_eq_true.mp (Option.some.inj hfound)
    simp only [Bool.and_eq_true, decide_eq_true_eq] at hplace
    obtain ⟨⟨hpath, hslot⟩, hname⟩ := hplace
    obtain ⟨-, r', hresolve, haddresses, -, hrun, -⟩ :=
      rename_local .warn (.ticking 0 1) requests hrequests source "y" hnew hfresh program r hcheck l hl
    rw [hname] at hresolve hrun
    exact ⟨hrequests, hnew, hfresh, program, r, l, rfl, hl, hpath, hslot, hname, r', hresolve,
      haddresses, hrun 90⟩

end Lox
