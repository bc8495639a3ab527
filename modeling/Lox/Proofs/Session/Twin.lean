import Lox.Proofs.Grammar.Parallel
import Lox.Proofs.Machine.Parallel
import Lox.Proofs.Scope.Parallel
import Lox.Proofs.Session.Accepted
import Lox.Proofs.Session.TopLevel
import Lox.Proofs.Tree.Same

namespace Lox

/-- Identities that are counted up from `a` on one side, and from `a'` on the other. -/
def Link.counted (a a' : Nat) : Link := .ofNodes fun i i' => ∃ j, i = a + j ∧ i' = a' + j

/-- No identity corresponds to two. -/
def Link.OneToOne (K : Link) : Prop :=
  ∀ i i' k k', K.node i i' → K.node k k' → (i = k ↔ i' = k')

variable {N N' : Nat → Nat → Prop}

theorem RuntimeError.atLine_line (e : RuntimeError) :
    (e.atLine 0).atLine (e.line?.getD 0) = e := by
  cases e <;> rfl

theorem RuntimeError.Twin.eq {e e' : RuntimeError} (h : e.Twin (.ofNodes N) e') : e = e' := by
  have hline : e.line? = e'.line? := by
    have hrel := h.line
    generalize e.line? = l? at hrel ⊢
    generalize e'.line? = l?' at hrel ⊢
    cases hrel with
    | none => rfl
    | some hl => exact congrArg some hl
  rw [← e.atLine_line, ← e'.atLine_line, h.same, hline]

theorem Link.steady_counted (a a' : Nat) : (Link.counted a a').Steady := by
  rintro i i' ⟨j, rfl, rfl⟩
  exact ⟨j + 1, rfl, rfl⟩

section Notes

variable {K : Link}

/-- Notes of nodes that correspond are found at nodes that correspond. -/
theorem getElem?_note_eq (hK : K.OneToOne) {entries entries' : List (Nat × Address)}
    (h : List.Forall₂ (fun x y => K.node x.1 y.1 ∧ x.2 = y.2) entries entries')
    {t t' : Std.TreeMap Nat Address} (ht : ∀ i i', K.node i i' → t[i]? = t'[i']?) :
    ∀ i i', K.node i i' → (entries.foldl (fun t (id, a) => t.insert id a) t)[i]? =
      (entries'.foldl (fun t (id, a) => t.insert id a) t')[i']? := by
  induction h generalizing t t' with
  | nil => exact ht
  | @cons entry entry' _ _ hentry _ ih =>
    obtain ⟨id, a⟩ := entry
    obtain ⟨id', a'⟩ := entry'
    obtain ⟨hid, rfl⟩ := hentry
    refine ih fun i i' hi => ?_
    rw [Std.TreeMap.getElem?_insert, Std.TreeMap.getElem?_insert, ht i i' hi]
    have hiff := hK id id' i i' hid hi
    simp only [compare_eq_iff_eq, hiff]

end Notes

inductive Outcome.Twin (K : Link) : Outcome → Outcome → Prop where
  | done : Outcome.Twin K .done .done
  | rejected {ds ds'} : List.Forall₂ (Diagnostic.Twin K) ds ds' →
      Outcome.Twin K (.rejected ds) (.rejected ds')
  | failed {e e'} : e.Twin K e' → Outcome.Twin K (.failed e) (.failed e')
  | exhausted : Outcome.Twin K .exhausted .exhausted

inductive Answer.Twin (K : Link) : Answer → Answer → Prop where
  | noted : Answer.Twin K .noted .noted
  | outcome {o o'} : o.Twin K o' → Answer.Twin K (.outcome o) (.outcome o')
  | warnings {ds ds'} : List.Forall₂ (Diagnostic.Twin K) ds ds' →
      Answer.Twin K (.warnings ds) (.warnings ds')
  | output (text : String) : Answer.Twin K (.output text) (.output text)
  | value {v v'} : Option.Rel (Value.Twin K) v v' → Answer.Twin K (.value v) (.value v')

theorem Outcome.Twin.within {K K' : Link} {o o' : Outcome} (h : o.Twin K o') (hK : K.Within K') :
    o.Twin K' o' := by
  cases h with
  | done => exact .done
  | rejected hds => exact .rejected (hds.imp fun _ _ hd => hd.within hK)
  | failed he => exact .failed (he.within hK)
  | exhausted => exact .exhausted

theorem Answer.Twin.within {K K' : Link} {a a' : Answer} (h : a.Twin K a') (hK : K.Within K') :
    a.Twin K' a' := by
  cases h with
  | noted => exact .noted
  | outcome ho => exact .outcome (ho.within hK)
  | warnings hds => exact .warnings (hds.imp fun _ _ hd => hd.within hK)
  | output text => exact .output text
  | value hv => exact .value (rel_imp hv fun _ _ hv => hv.within hK)

/-- A host function that is given a name is blind. -/
def Request.Blind : Request → Prop
  | .defineNative _ _ body => body.Blind
  | _ => True

namespace Session

/-- No node has a note that has not been minted. -/
def Unnoted (s : Session) : Prop := ∀ id, s.nextId ≤ id → s.machine.addresses[id]? = none

structure Twin (K : Link) (s s' : Session) : Prop where
  machine : s.machine.Twin K s'.machine
  lint : s.lint = s'.lint
  warnings : List.Forall₂ (Diagnostic.Twin K) s.warnings s'.warnings
  oneToOne : K.OneToOne
  minted : ∀ i i', K.node i i' → i < s.nextId ∧ i' < s'.nextId
  unnoted : s.Unnoted
  unnoted' : s'.Unnoted

theorem unnoted_begun {s : Session} {source : String} {program : List Stmt} {r : Resolution}
    (hs : s.Unnoted) (ha : s.Accepted source program r) : (s.begun source r).Unnoted := by
  intro id hid
  have hid' : (readProgram source s.nextId).nextId ≤ id := hid
  have hother := (s.machine.addresses_note ha.fresh.nodup).1
  rw [← ha.addresses] at hother
  refine (hother id fun hmem => ?_).trans (hs id (Nat.le_trans (le_nextId source s.nextId) hid'))
  have hlt := (ha.fresh.range _ hmem).2
  omega

theorem unnoted_interpret {s : Session} (hs : s.Unnoted) (n : Nat) (program : List Stmt) :
    (s.interpret n program).2.Unnoted := by
  intro id hid
  rw [interpret_nextId] at hid
  rw [(retains_interpret s n program).addresses]
  exact hs id hid

variable {K : Link} {s s' : Session}

theorem twin_readProgram (source : String) (a a' : Nat) :
    ExceptRel (List.Forall₂ (Diagnostic.Twin (.counted a a'))) (TwinStatements (.counted a a'))
        (readProgram source a).result (readProgram source a').result ∧
      (Link.counted a a').node (readProgram source a).nextId (readProgram source a').nextId := by
  have htokens : List.Forall₂ (Token.Twin (.counted a a')) (tokens (scan source))
      (tokens (scan source)) := List.forall₂_same.mpr fun t _ => t.twin_self
  have hfaults : ∀ ds, List.Forall₂ (Diagnostic.Twin (.counted a a')) ds ds :=
    fun ds => List.forall₂_same.mpr fun d _ => ⟨rfl, rfl⟩
  obtain ⟨hresult, hnext⟩ := Grammar.parallel_read_program (Link.steady_counted a a') htokens
    ⟨0, rfl, rfl⟩
  rw [readProgram_nextId, readProgram_nextId, readProgram_result, readProgram_result]
  refine ⟨?_, hnext⟩
  generalize (Grammar.read Grammar.program (tokens (scan source)) a).result = r at hresult ⊢
  generalize (Grammar.read Grammar.program (tokens (scan source)) a').result = r' at hresult ⊢
  cases faults (scan source) with
  | nil => exact hresult
  | cons d ds =>
    cases hresult with
    | ok _ => exact .error (hfaults _)
    | error hds => exact .error (List.rel_append (hfaults _) hds)

/-- The same source is read alike, and gets the same verdict. -/
theorem twin_check (hlint : s.lint = s'.lint) (source : String) :
    ExceptRel (List.Forall₂ (Diagnostic.Twin (.counted s.nextId s'.nextId)))
      (fun x y => TwinStatements (.counted s.nextId s'.nextId) x.1 y.1 ∧
        Resolution.Twin (.counted s.nextId s'.nextId) x.2 y.2)
      (s.check source) (s'.check source) := by
  have hreading := (twin_readProgram source s.nextId s'.nextId).1
  unfold check
  generalize (readProgram source s.nextId).result = r at hreading ⊢
  generalize (readProgram source s'.nextId).result = r' at hreading ⊢
  cases hreading with
  | error hds => exact .error hds
  | @ok program program' hprogram =>
    have hresolve := twin_resolve s.lint hprogram
    dsimp only
    rw [← hlint]
    generalize resolve s.lint program = v at hresolve ⊢
    generalize resolve s.lint program' = v' at hresolve ⊢
    cases hresolve with
    | ok hr => exact .ok ⟨hprogram, hr⟩
    | error hds => exact .error hds

theorem twin_interpret (h : s.Twin K s') (n : Nat) {program program' : List Stmt}
    (hprogram : TwinStatements K program program') :
    Outcome.Twin K (s.interpret n program).1 (s'.interpret n program').1 ∧
      (s.interpret n program).2.Twin K (s'.interpret n program').2 := by
  have hunnoted := unnoted_interpret h.unnoted n program
  have hunnoted' := unnoted_interpret h.unnoted' n program'
  have hrun := Machine.agreeing_interpret n hprogram _ _ h.machine
  unfold interpret at hunnoted hunnoted' ⊢
  generalize Machine.interpret n program s.machine = r at hrun hunnoted ⊢
  generalize Machine.interpret n program' s'.machine = r' at hrun hunnoted' ⊢
  cases hrun with
  | ok _ hm =>
    exact ⟨.done, ⟨hm, h.lint, h.warnings, h.oneToOne, h.minted, hunnoted, hunnoted'⟩⟩
  | error he hm =>
    cases he with
    | error he =>
      exact ⟨.failed he, ⟨hm, h.lint, h.warnings, h.oneToOne, h.minted, hunnoted, hunnoted'⟩⟩
    | exhausted =>
      exact ⟨.exhausted, ⟨hm, h.lint, h.warnings, h.oneToOne, h.minted, hunnoted, hunnoted'⟩⟩

/-- The identities that corresponded, and those that reading the source has minted. -/
def mints (N : Nat → Nat → Prop) (s s' : Session) (source : String) : Nat → Nat → Prop :=
  fun i i' => N i i' ∨
    (Link.counted s.nextId s'.nextId).node i i' ∧ i < (readProgram source s.nextId).nextId

theorem oneToOne_mints (h : s.Twin (.ofNodes N) s') (source : String) :
    (Link.ofNodes (mints N s s' source)).OneToOne := by
  rintro i i' k k' (hi | ⟨⟨j, rfl, rfl⟩, -⟩) (hk | ⟨⟨l, rfl, rfl⟩, -⟩)
  · exact h.oneToOne i i' k k' hi hk
  · have hlt := h.minted i i' hi
    omega
  · have hlt := h.minted k k' hk
    omega
  · omega

theorem within_mints (source : String) :
    (Link.ofNodes N).Within (.ofNodes (mints N s s' source)) :=
  ⟨fun _ _ => .inl, fun _ _ => id⟩

theorem twin_begun (h : s.Twin (.ofNodes N) s') {source : String} {program program' : List Stmt}
    {r r' : Resolution} (ha : s.Accepted source program r) (ha' : s'.Accepted source program' r')
    (hprogram : TwinStatements (.counted s.nextId s'.nextId) program program')
    (hr : Resolution.Twin (.counted s.nextId s'.nextId) r r') :
    TwinStatements (.ofNodes (mints N s s' source)) program program' ∧
      (s.begun source r).Twin (.ofNodes (mints N s s' source)) (s'.begun source r') := by
  obtain ⟨k, hk, hk'⟩ := (twin_readProgram source s.nextId s'.nextId).2
  have hwithin : (Link.ofNodes N).Within (.ofNodes (mints N s s' source)) := within_mints source
  have hone := oneToOne_mints h source
  have hminted : ∀ i ∈ idsOfStatements program, i < (readProgram source s.nextId).nextId := by
    intro i hi
    rw [← map_id_nodesOfStatements []] at hi
    exact (ha.fresh.range i hi).2
  have hnodes : List.Forall₂ (mints N s s' source) (idsOfStatements program)
      (idsOfStatements program') := by
    refine ((List.forall₂_and_left _ _).mpr ⟨hminted, hprogram.paired⟩).imp fun i i' hi => ?_
    exact .inr ⟨hi.2, hi.1⟩
  refine ⟨hprogram.relink hnodes fun _ _ => id, ?_⟩
  have hentries : List.Forall₂ (fun x y => mints N s s' source x.1 y.1 ∧ x.2 = y.2) r.addresses
      r'.addresses := by
    refine ((List.forall₂_and_left _ _).mpr ⟨ha.range, hr.addresses⟩).imp fun x y hxy => ?_
    exact ⟨.inr ⟨hxy.2.1, hxy.1.2⟩, hxy.2.2⟩
  have hbefore : ∀ i i', mints N s s' source i i' →
      s.machine.addresses[i]? = s'.machine.addresses[i']? := by
    rintro i i' (hi | ⟨⟨j, rfl, rfl⟩, -⟩)
    · exact h.machine.addresses i i' hi
    · rw [h.unnoted _ (Nat.le_add_right _ _), h.unnoted' _ (Nat.le_add_right _ _)]
  refine ⟨h.machine.noting hwithin (getElem?_note_eq hone hentries hbefore), h.lint, ?_, hone, ?_,
    unnoted_begun h.unnoted ha, unnoted_begun h.unnoted' ha'⟩
  · exact List.rel_append (h.warnings.imp fun _ _ hd => hd.within hwithin)
      (hr.warnings.imp fun _ _ hd => ⟨hd.line, hd.fault⟩)
  · show ∀ i i', mints N s s' source i i' →
      i < (readProgram source s.nextId).nextId ∧ i' < (readProgram source s'.nextId).nextId
    rintro i i' (hi | ⟨⟨j, rfl, rfl⟩, hlt⟩)
    · have hold := h.minted i i' hi
      omega
    · omega

theorem twin_run (h : s.Twin (.ofNodes N) s') (n : Nat) (source : String) :
    ∃ N', (Link.ofNodes N).Within (.ofNodes N') ∧
      Outcome.Twin (.ofNodes N') (s.run n source).1 (s'.run n source).1 ∧
      (s.run n source).2.Twin (.ofNodes N') (s'.run n source).2 := by
  have hcheck := twin_check h.lint source
  rw [run_eq, run_eq]
  generalize hv : s.check source = v at hcheck ⊢
  generalize hv' : s'.check source = v' at hcheck ⊢
  cases hcheck with
  | error hds =>
    have hle := le_nextId source s.nextId
    have hle' := le_nextId source s'.nextId
    refine ⟨N, ⟨fun _ _ => id, fun _ _ => id⟩, .rejected (hds.imp fun _ _ hd => ⟨hd.line, hd.fault⟩),
      h.machine, h.lint, h.warnings, h.oneToOne, fun i i' hi => ?_, fun i hi => ?_, fun i hi => ?_⟩
    · have hlt := h.minted i i' hi
      exact ⟨Nat.lt_of_lt_of_le hlt.1 hle, Nat.lt_of_lt_of_le hlt.2 hle'⟩
    · exact h.unnoted i (Nat.le_trans hle hi)
    · exact h.unnoted' i (Nat.le_trans hle' hi)
  | @ok x x' hx =>
    obtain ⟨program, r⟩ := x
    obtain ⟨program', r'⟩ := x'
    obtain ⟨hprogram, hbegun⟩ := twin_begun h (accepted_of_check hv) (accepted_of_check hv') hx.1 hx.2
    exact ⟨_, within_mints source, twin_interpret hbegun n hprogram⟩

theorem twin_answer (h : s.Twin (.ofNodes N) s') {request : Request} (hrequest : request.Blind) :
    ∃ N', (Link.ofNodes N).Within (.ofNodes N') ∧
      Answer.Twin (.ofNodes N') (s.answer request).1 (s'.answer request).1 ∧
      (s.answer request).2.Twin (.ofNodes N') (s'.answer request).2 := by
  have hrefl : (Link.ofNodes N).Within (.ofNodes N) := ⟨fun _ _ => id, fun _ _ => id⟩
  cases request with
  | run n source =>
    obtain ⟨N', hwithin, ho, hs⟩ := twin_run h n source
    exact ⟨N', hwithin, .outcome ho, hs⟩
  | setEchoes echoes =>
    exact ⟨N, hrefl, .noted, { h with machine := { h.machine with echoes := rfl } }⟩
  | defineNative name arity body =>
    exact ⟨N, hrefl, .noted, { h with machine := h.machine.defineNative name arity hrequest }⟩
  | takeWarnings => exact ⟨N, hrefl, .warnings h.warnings, { h with warnings := .nil }⟩
  | takeOutput =>
    refine ⟨N, hrefl, ?_, { h with machine := { h.machine with output := rfl } }⟩
    show Answer.Twin _ (.output s.machine.output) (.output s'.machine.output)
    rw [h.machine.output]
    exact .output _
  | global name => exact ⟨N, hrefl, .value (h.machine.globals name), h⟩

/-- Sessions that are alike answer alike, and are alike in the end. -/
theorem twin_answers {requests : List Request} (h : s.Twin (.ofNodes N) s')
    (hrequests : ∀ request ∈ requests, request.Blind) :
    ∃ N', (Link.ofNodes N).Within (.ofNodes N') ∧
      List.Forall₂ (Answer.Twin (.ofNodes N')) (s.answers requests).1 (s'.answers requests).1 ∧
      (s.serve requests).Twin (.ofNodes N') (s'.serve requests) := by
  induction requests generalizing N s s' with
  | nil => exact ⟨N, ⟨fun _ _ => id, fun _ _ => id⟩, .nil, h⟩
  | cons request requests ih =>
    obtain ⟨N₁, hwithin₁, ha, h₁⟩ := twin_answer h (hrequests request (by simp))
    obtain ⟨N₂, hwithin₂, has, h₂⟩ := ih h₁ fun other hother => hrequests other (by simp [hother])
    have hwithin : (Link.ofNodes N).Within (.ofNodes N₂) :=
      ⟨fun i i' hi => hwithin₂.node i i' (hwithin₁.node i i' hi), fun _ _ => id⟩
    exact ⟨N₂, hwithin, .cons (ha.within hwithin₂) has, h₂⟩

theorem twin_new (lint : Lint) (clock : Clock) :
    (new lint clock).Twin (.ofNodes fun _ _ => False) (new lint clock) := by
  have hunnoted : (new lint clock).Unnoted := by
    intro id _
    show (∅ : Std.TreeMap Nat Address)[id]? = none
    simp
  have hempty : Machine.empty.Twin (.ofNodes fun _ _ => False) Machine.empty :=
    ⟨.empty, rfl, .empty, .empty, rfl, by simp [Machine.empty], rfl, fun _ _ => False.elim, rfl, rfl,
      rfl⟩
  have hclock : NativeBody.Blind fun turn _ => .ok (.number (clock turn)) :=
    fun _ _ _ _ _ => .ok (.number _)
  exact ⟨hempty.defineNative "clock" 0 hclock, rfl, .nil, fun _ _ _ _ => False.elim,
    fun _ _ => False.elim, hunnoted, hunnoted⟩

/-- A session that can be reached is alike with itself. -/
theorem twin_serve (lint : Lint) (clock : Clock) {requests : List Request}
    (hrequests : ∀ request ∈ requests, request.Blind) :
    ∃ N, ((new lint clock).serve requests).Twin (.ofNodes N) ((new lint clock).serve requests) := by
  obtain ⟨N, -, -, h⟩ := twin_answers (twin_new lint clock) hrequests
  exact ⟨N, h⟩

end Session

end Lox
