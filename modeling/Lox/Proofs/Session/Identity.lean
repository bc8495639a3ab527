import Lox.Proofs.Grammar.Minting
import Lox.Proofs.Machine.Held
import Lox.Proofs.Machine.Kept
import Lox.Proofs.Session.Rejection

namespace Lox

/-- What happens while a session is there: something is asked of it, or something is read elsewhere.
-/
inductive Event where
  | ask (request : Request)
  | parse (p : Parsing)

def Event.request? : Event → Option Request
  | ask request => some request
  | parse _ => none

namespace Session

/-- Identities have been taken elsewhere. -/
def pass (s : Session) (p : Parsing) : Session := { s with nextId := (p.read s.nextId).2 }

/-- The answers in the course of some events, and the session after them. -/
def react (s : Session) : List Event → List Answer × Session
  | [] => ([], s)
  | .ask request :: events =>
    let (a, s) := s.answer request
    let (as, s) := s.react events
    (a :: as, s)
  | .parse p :: events => (s.pass p).react events

/-- A new session, before which so many identities have been taken. -/
def startingAt (lint : Lint) (clock : Clock) (firstId : Nat) : Session :=
  { new lint clock with nextId := firstId }

variable {s s' s'' : Session} {N : Nat → Nat → Prop}

/-- The session `s` has become `s'`: what is noted of nodes that had been read is the same, and all
frames are still there. -/
structure Becomes (s s' : Session) : Prop where
  minted : s.nextId ≤ s'.nextId
  notes : ∀ id < s.nextId, s'.machine.addresses[id]? = s.machine.addresses[id]?
  frames : Frames.Kept s.machine.frames s'.machine.frames

theorem Becomes.refl (s : Session) : Becomes s s := ⟨Nat.le_refl _, fun _ _ => rfl, .refl _⟩

theorem Becomes.trans (h : Becomes s s') (h' : Becomes s' s'') : Becomes s s'' where
  minted := Nat.le_trans h.minted h'.minted
  notes id hid := (h'.notes id (Nat.lt_of_lt_of_le hid h.minted)).trans (h.notes id hid)
  frames := h.frames.trans h'.frames

theorem becomes_begun {source : String} {program : List Stmt} {r : Resolution}
    (h : s.check source = .ok (program, r)) : Becomes s (s.begun source r) := by
  have ha := accepted_of_check h
  refine ⟨le_nextId source s.nextId, fun id hid => ?_, .refl _⟩
  have hother := (s.machine.addresses_note ha.fresh.nodup).1
  rw [← ha.addresses] at hother
  refine hother id fun hmem => ?_
  have hge := (ha.fresh.range _ hmem).1
  omega

theorem becomes_interpret (s : Session) (n : Nat) (program : List Stmt) :
    Becomes s (s.interpret n program).2 := by
  have hkeeps := (retains_interpret s n program).keeps
  refine ⟨?_, fun id _ => ?_, hkeeps.frames⟩
  · rw [interpret_nextId]
  · rw [hkeeps.addresses]

theorem becomes_run (s : Session) (n : Nat) (source : String) : Becomes s (s.run n source).2 := by
  rw [run_eq]
  split
  next => exact ⟨le_nextId source s.nextId, fun _ _ => rfl, .refl _⟩
  next program r hcheck => exact (becomes_begun hcheck).trans (becomes_interpret _ n program)

theorem becomes_answer (s : Session) (request : Request) : Becomes s (s.answer request).2 := by
  cases request with
  | run n source => exact becomes_run s n source
  | _ => exact ⟨Nat.le_refl _, fun _ _ => rfl, .refl _⟩

theorem becomes_react (s : Session) (events : List Event) : Becomes s (s.react events).2 := by
  induction events generalizing s with
  | nil => exact .refl s
  | cons event events ih =>
    cases event with
    | parse p =>
      have hpass : Becomes s (s.pass p) :=
        ⟨(p.fresh_read s.nextId).1, fun _ _ => rfl, .refl _⟩
      exact hpass.trans (ih (s.pass p))
    | ask request => exact (becomes_answer s request).trans (ih (s.answer request).2)

/-- Identities may be passed over on both sides. -/
theorem Twin.passing (h : s.Twin (.ofNodes N) s') {k k' : Nat} (hk : s.nextId ≤ k)
    (hk' : s'.nextId ≤ k') : { s with nextId := k }.Twin (.ofNodes N) { s' with nextId := k' } where
  machine := h.machine
  lint := h.lint
  warnings := h.warnings
  oneToOne := h.oneToOne
  minted i i' hi :=
    ⟨Nat.lt_of_lt_of_le (h.minted i i' hi).1 hk, Nat.lt_of_lt_of_le (h.minted i i' hi).2 hk'⟩
  unnoted i hi := h.unnoted i (Nat.le_trans hk hi)
  unnoted' i hi := h.unnoted' i (Nat.le_trans hk' hi)

/-- Whatever is read elsewhere, on either side, the answers are alike. -/
theorem twin_react {events events' : List Event} (h : s.Twin (.ofNodes N) s')
    (hsame : events'.filterMap Event.request? = events.filterMap Event.request?)
    (hblind : ∀ request, .ask request ∈ events → request.Blind) :
    ∃ N', (Link.ofNodes N).Within (.ofNodes N') ∧
      List.Forall₂ (Answer.Twin (.ofNodes N')) (s.react events).1 (s'.react events').1 ∧
      (s.react events).2.Twin (.ofNodes N') (s'.react events').2 := by
  induction events generalizing N s s' events' with
  | nil =>
    induction events' generalizing s' with
    | nil => exact ⟨N, ⟨fun _ _ => id, fun _ _ => id⟩, .nil, h⟩
    | cons event' events' ih' =>
      cases event' with
      | ask request' => simp [Event.request?] at hsame
      | parse p =>
        exact ih' (h.passing (Nat.le_refl _) (p.fresh_read s'.nextId).1) hsame
  | cons event events ih =>
    have hblind' : ∀ request, .ask request ∈ events → request.Blind :=
      fun request hmem => hblind request (List.mem_cons_of_mem _ hmem)
    cases event with
    | parse p =>
      exact ih (h.passing (p.fresh_read s.nextId).1 (Nat.le_refl _)) hsame hblind'
    | ask request =>
      induction events' generalizing s' with
      | nil => simp [Event.request?] at hsame
      | cons event' events' ih' =>
        cases event' with
        | parse p =>
          exact ih' (h.passing (Nat.le_refl _) (p.fresh_read s'.nextId).1) hsame
        | ask request' =>
          obtain ⟨rfl, hsame'⟩ := List.cons.inj hsame
          obtain ⟨N₁, hwithin₁, ha, h₁⟩ := twin_answer h (hblind request' (by simp))
          obtain ⟨N₂, hwithin₂, has, h₂⟩ := ih h₁ hsame' hblind'
          have hwithin : (Link.ofNodes N).Within (.ofNodes N₂) :=
            ⟨fun i i' hi => hwithin₂.node i i' (hwithin₁.node i i' hi), fun _ _ => id⟩
          exact ⟨N₂, hwithin, .cons (ha.within hwithin₂) has, h₂⟩

theorem twin_startingAt (lint : Lint) (clock : Clock) (firstId firstId' : Nat) :
    (startingAt lint clock firstId).Twin (.ofNodes fun _ _ => False)
      (startingAt lint clock firstId') :=
  (twin_new lint clock).passing (Nat.zero_le _) (Nat.zero_le _)

/-- What a session holds has been read in it. -/
theorem lt_of_holds {f : Closure} {id : Nat} (h : s.Twin (.ofNodes N) s')
    (hf : s.machine.Holds f) (hid : id ∈ f.function.ids) : id < s.nextId := by
  obtain ⟨f', -, hclosure⟩ := hf.twin h.machine
  have hminted : List.Forall₂ (fun i i' => i < s.nextId ∧ N i i') f.function.ids f'.function.ids :=
    hclosure.function.paired.imp fun i i' hi => ⟨(h.minted i i' hi).1, hi⟩
  exact ((List.forall₂_and_left _ _).mp hminted).1 id hid

/-- What has run in a session is left alone by whatever comes later. -/
structure Unaffected (s : Session) : Prop where
  /-- What is noted of a node of a run stays noted. -/
  notes : ∀ n source program r, s.check source = .ok (program, r) →
    ∀ id ∈ program.flatMap Stmt.ids, ∀ events,
      ((s.run n source).2.react events).2.machine.addresses[id]? =
        (s.machine.noteResolution r).addresses[id]?
  /-- At every moment of a later run the nodes of a closure have the addresses that they have now,
  and from however far in these lead to the cells to which they lead now from around it. -/
  cells : ∀ f, s.machine.Holds f → ∀ id ∈ f.function.ids,
    ∀ events n source program r M, (s.react events).2.check source = .ok (program, r) →
      Moment.Reaches ⟨n, .interpret program, ((s.react events).2.begun source r).machine⟩ M →
      M.machine.addresses[id]? = s.machine.addresses[id]? ∧
        ∀ g, f.frame = some g → ∀ h depth, M.machine.frames.ancestor? h depth = some g →
          ∀ a cell, s.machine.frames.locate g a = .ok cell →
            M.machine.frames.locate h ⟨depth + a.depth, a.slot⟩ = .ok cell

theorem unaffected_of_twin (h : s.Twin (.ofNodes N) s') : s.Unaffected where
  notes n source program r hcheck id hid events := by
    have hfresh := (accepted_of_check hcheck).fresh
    rw [nodesOfProgram, map_id_nodesOfStatements, Grammar.idsOfStatements_eq_flatMap] at hfresh
    have hinterpret := becomes_interpret (s.begun source r) n program
    have hlater := hinterpret.trans (becomes_react ((s.begun source r).interpret n program).2 events)
    rw [run_of_accepted n hcheck]
    exact hlater.notes id (hfresh.range id hid).2
  cells f hf id hid events n source program r M hcheck hreaches := by
    have hbegun := (becomes_react s events).trans (becomes_begun hcheck)
    have hkeeps := hreaches.keeps
    refine ⟨?_, fun g hg h' depth hancestor a cell hcell => ?_⟩
    · rw [hkeeps.addresses]
      exact hbegun.notes id (lt_of_holds h hf hid)
    · exact Frames.locate_add hancestor ((hbegun.frames.trans hkeeps.frames).locate hcell)

end Session

/-- Trees that are read one after the other share no identity, whatever became of the readings in
between. So no run affects what has run before it, and neither the first identity nor what is read
elsewhere can be told from the answers of a session. -/
theorem identities_distinct (lint : Lint) (clock : Clock) (firstId : Nat) (events : List Event)
    (hblind : ∀ request, .ask request ∈ events → request.Blind) :
    (∀ first ps, (Parsing.readAll first ps).1.Nodup ∧
      ((Parsing.readAll first ps).2 - first ≤ UInt64.size →
        ((Parsing.readAll first ps).1.map UInt64.ofNat).Nodup)) ∧
    ((Session.startingAt lint clock firstId).react events).2.Unaffected ∧
    ∀ firstId' events',
      events'.filterMap Event.request? = events.filterMap Event.request? →
        List.Forall₂ Answer.Alike ((Session.startingAt lint clock firstId).react events).1
          ((Session.startingAt lint clock firstId').react events').1 := by
  refine ⟨fun first ps => ?_, ?_, fun firstId' events' hsame => ?_⟩
  · have hfresh := (Parsing.fresh_readAll ps first).2
    exact ⟨hfresh.nodup, hfresh.nodup_uint64⟩
  · obtain ⟨N, -, -, htwin⟩ := Session.twin_react
      (Session.twin_startingAt lint clock firstId firstId) rfl hblind
    exact Session.unaffected_of_twin htwin
  · obtain ⟨N, -, hanswers, -⟩ := Session.twin_react
      (Session.twin_startingAt lint clock firstId firstId') hsame hblind
    exact hanswers.imp fun _ _ ha => ha.alike

/-- A closure over a local, and another session that reads a faulty program between its calls. -/
theorem identities_distinct_counter :
    let events : List Event :=
      [.ask (.run 90 "var next; { var n = 0; next = fun () { n = n + 1; return n; }; }"),
        .parse (.programSource "a = b + ;"), .ask (.run 90 "next(); next();"), .ask .takeOutput]
    (∀ request, .ask request ∈ events → request.Blind) ∧
      ((Session.startingAt .deny (.ticking 0 1) 7).react events).2.Unaffected ∧
      List.Forall₂ Answer.Alike ((Session.startingAt .deny (.ticking 0 1) 7).react events).1
        ((Session.startingAt .deny (.ticking 0 1) 0).react
          (events.filter fun event => event.request?.isSome)).1 := by
  intro events
  have hblind : ∀ request, .ask request ∈ events → request.Blind := by
    simp only [events, List.mem_cons, List.not_mem_nil, or_false, Event.ask.injEq, reduceCtorEq,
      false_or]
    rintro request (rfl | rfl | rfl) <;> exact trivial
  obtain ⟨-, hunaffected, hanswers⟩ := identities_distinct .deny (.ticking 0 1) 7 events hblind
  exact ⟨hblind, hunaffected, hanswers 0 _ rfl⟩

end Lox
