import Lox.Proofs.Scope.Binding
import Lox.Proofs.Scope.Succession

namespace Lox

open Classical in
/-- The declarations that no node of the program reads, in the order in which their scopes end. -/
noncomputable def unreadDeclarations (program : List Stmt) : List Declaration :=
  (declarationsOfProgram program).filter fun d => ¬d.ReadIn program

section

variable {node : Node} {d : Declaration}

/-- A node that marks a name of a scope of the text reads a variable. -/
theorem Node.Regular.role_eq_read (h : node.Regular) (hrole : node.role ≠ .write)
    (huses : node.Uses d) (hd : d.name ∈ d.site.tokens) : node.role = .read := by
  obtain ⟨depth, p, haddress, hdrop, hsite⟩ := huses
  have hmem : p ∈ node.context :=
    List.mem_of_mem_drop (hdrop ▸ List.mem_cons_self : p ∈ node.context.drop depth)
  have hplain : ¬p.site.Implicit := by
    rw [hsite]
    intro himplicit
    generalize d.site = site at hd himplicit
    cases site with
    | this _ | super _ => simp [Site.tokens] at hd
    | block _ | function _ => exact himplicit
  obtain ⟨q, hq, hname, -⟩ := (Lexical.lookup_eq_some_iff.mp haddress).declared
  obtain rfl : q = p := by
    have hhead : node.context[depth]? = some p := by
      rw [← List.head?_drop, hdrop]
      rfl
    exact Option.some.inj (hq.symm.trans hhead)
  have hnot : node.name.lexeme = "this" ∨ node.name.lexeme = "super" →
      node.name.lexeme ∉ q.names := h.proper.not_mem_names hmem hplain
  have hin : node.name.lexeme ∈ q.names := List.mem_of_getElem? hname
  have hnamed := h.named
  cases hr : node.role with
  | read => rfl
  | write => exact absurd hr hrole
  | this =>
    rw [hr] at hnamed
    exact absurd hin (hnot (.inl hnamed))
  | super =>
    rw [hr] at hnamed
    exact absurd hin (hnot (.inr hnamed))

/-- In its scope a node marks what it uses, told by the number of scopes around. -/
theorem Node.marks_iff {inner : Lexical} {p : Place}
    (hcontext : node.context = inner ++ p :: d.around) (hsite : p.site = d.site) :
    node.Marks d.around.length d.slot ↔ node.role ≠ .write ∧ node.Uses d := by
  have hlen : node.context.length = inner.length + 1 + d.around.length := by
    rw [hcontext, List.length_append, List.length_cons]
    omega
  refine and_congr_right fun _ => ?_
  constructor
  · rintro ⟨depth, haddress, hdepth⟩
    obtain rfl : depth = inner.length := by omega
    refine ⟨inner.length, p, haddress, ?_, hsite⟩
    rw [hcontext, List.drop_left]
  · rintro ⟨depth, q, haddress, hdrop, -⟩
    have hlen' := congrArg List.length hdrop
    rw [List.length_drop, List.length_cons] at hlen'
    exact ⟨depth, haddress, by omega⟩

end

/-- What is marked in its scope is what is read anywhere in the program. -/
theorem marked_iff_readIn {program : List Stmt} {d : Declaration}
    (hregular : ∀ node ∈ nodesOfProgram program, node.Regular)
    (hd : d ∈ declarationsOfProgram program) : d.Marked ↔ d.ReadIn program := by
  obtain ⟨hname, hsubset⟩ := in_declarationsOfStatements [] program d hd
  constructor
  · rintro ⟨node, hnode, hmarks⟩
    obtain ⟨inner, p, hcontext, hsite⟩ := d.site.split_nodes d.around node hnode
    obtain ⟨hrole, huses⟩ := (Node.marks_iff hcontext hsite).mp hmarks
    have hmem := hsubset hnode
    exact ⟨node, hmem, (hregular node hmem).role_eq_read hrole huses hname, huses⟩
  · rintro ⟨node, hnode, hrole, huses⟩
    obtain ⟨depth, p, haddress, hdrop, hsite⟩ := huses
    have hcontext : node.context = node.context.take depth ++ p :: d.around := by
      rw [← hdrop, List.take_append_drop]
    have hin := in_nodesOfStatements [] program node hnode _ p d.around hcontext (Nat.zero_le _)
    have hwrite : node.role ≠ .write := by simp [hrole]
    exact ⟨node, hsite ▸ hin, (Node.marks_iff hcontext hsite).mpr
      ⟨hwrite, depth, p, haddress, hdrop, hsite⟩⟩

theorem unmarkedReports_program {program : List Stmt}
    (hregular : ∀ node ∈ nodesOfProgram program, node.Regular) :
    unmarkedReports (declarationsOfProgram program) =
      (unreadDeclarations program).map Declaration.report := by
  rw [unmarkedReports, unreadDeclarations]
  congr 1
  refine List.filter_congr fun d hd => ?_
  rw [decide_eq_decide, marked_iff_readIn hregular hd]

namespace Walk

variable {w : Walk}

theorem Clean.errors_eq (h : w.Clean) :
    w.findings.toList.filterMap (Finding.error? .allow) = [] ∧
      w.findings.toList.filterMap (Finding.error? .warn) = [] ∧
      w.findings.toList.filterMap (Finding.error? .deny) = w.unread := by
  unfold Clean at h
  unfold unread
  generalize w.findings.toList = findings at h
  have hmisuse : ∀ f ∈ findings, ∀ d, f ≠ .misuse d := fun f hf d heq => h d (heq ▸ hf)
  refine ⟨?_, ?_, ?_⟩
  · refine List.filterMap_eq_nil_iff.mpr fun f hf => ?_
    cases f with
    | misuse d => exact absurd rfl (hmisuse _ hf d)
    | _ => rfl
  · refine List.filterMap_eq_nil_iff.mpr fun f hf => ?_
    cases f with
    | misuse d => exact absurd rfl (hmisuse _ hf d)
    | _ => rfl
  · refine List.filterMap_congr fun f hf => ?_
    cases f with
    | misuse d => exact absurd rfl (hmisuse _ hf d)
    | _ => rfl

end Walk

theorem verdict_eq_error {lint : Lint} {fs : List Finding}
    (h : fs.filterMap (Finding.error? lint) ≠ []) :
    verdict lint fs = .error (fs.filterMap (Finding.error? lint)) := by
  unfold verdict
  split
  next hnil => exact absurd hnil h
  next => rfl

/-- The misuse of a name stops a program however unread locals are taken. -/
theorem resolve_error {program : List Stmt} {ds : List Diagnostic}
    (h : resolve .allow program = .error ds) (lint : Lint) :
    ∃ ds', resolve lint program = .error ds' := by
  cases hresolve : resolve lint program with
  | error ds' => exact ⟨ds', rfl⟩
  | ok r =>
    obtain ⟨hclean, -⟩ := clean_of_resolve hresolve
    obtain ⟨_, hok, -⟩ | ⟨herror, hne⟩ := resolve_allow_eq program
    · rw [h] at hok
      cases hok
    · exact absurd hclean.errors_eq.1 hne

/-- With no misuse the verdicts on a program differ in what becomes of its unread locals. -/
theorem resolve_of_allow {program : List Stmt} {r : Resolution}
    (h : resolve .allow program = .ok r) (hf : FormedStatements false program) :
    let reports := (unreadDeclarations program).map Declaration.report
    r = ⟨r.addresses, []⟩ ∧ resolve .warn program = .ok ⟨r.addresses, reports⟩ ∧
      (reports = [] → resolve .deny program = .ok ⟨r.addresses, []⟩) ∧
      (reports ≠ [] → resolve .deny program = .error reports) := by
  intro reports
  let w := walkStatements .top ⟨[], #[]⟩ program
  have hresolve : ∀ lint, resolve lint program = verdict lint w.findings.toList :=
    fun lint => resolve_eq_verdict lint program
  have hclean : w.Clean := (clean_of_resolve h).1
  have hfound := walkStatements_surveys .top ⟨[], #[]⟩ [] false program .nil hclean hf
    (by simp [Lexical.ExpectsAll])
  have hreports : w.unread = reports :=
    hfound.unread.trans (unmarkedReports_program (regular_of_resolve h hf))
  obtain ⟨-, hwarn, hdeny⟩ := hclean.errors_eq
  obtain ⟨-, hr⟩ := verdict_eq_ok.mp ((hresolve .allow).symm.trans h)
  have haddresses : r.addresses = w.findings.toList.filterMap Finding.address? :=
    congrArg Resolution.addresses hr
  have hallowed : ∀ lint, lint ≠ .warn →
      w.findings.toList.filterMap (Finding.warning? lint) = [] := by
    intro lint hlint
    refine List.filterMap_eq_nil_iff.mpr fun f _ => ?_
    cases f with
    | unread d => exact if_neg hlint
    | _ => rfl
  refine ⟨?_, ?_, fun hnil => ?_, fun hne => ?_⟩
  · rw [haddresses, ← hallowed .allow (by decide)]
    exact hr
  · rw [hresolve, haddresses]
    exact verdict_eq_ok.mpr ⟨hwarn, by rw [← hreports, Walk.unread]⟩
  · rw [hresolve, haddresses]
    exact verdict_eq_ok.mpr ⟨by rw [hdeny, hreports, hnil], by rw [hallowed .deny (by decide)]⟩
  · have herrors := hdeny.trans hreports
    rw [hresolve, verdict_eq_error (by rw [herrors]; exact hne), herrors]

end Lox
