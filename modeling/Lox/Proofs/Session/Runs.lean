import Lox.Proofs.Machine.Activation
import Lox.Proofs.Machine.History
import Lox.Proofs.Session.Accepted
import Lox.Proofs.Session.TopLevel

namespace Lox

/-- A host function that is given a name is honest. -/
def Request.Honest : Request → Prop
  | .defineNative _ _ body => body.Honest
  | _ => True

namespace Session

/-- What a request adds to what has been accepted and what has happened. -/
def remember (s : Session) (P : History) : Request → History
  | .run n source =>
    match s.check source with
    | .ok (program, r) =>
      P.extend (nodesOfProgram program) ⟨n, .interpret program, (s.begun source r).machine⟩
    | .error _ => P
  | _ => P

/-- What has been accepted and what has happened when some requests have been answered. -/
def history (s : Session) (P : History) : List Request → History
  | [] => P
  | request :: requests => (s.answer request).2.history (s.remember P request) requests

/-- An accepted program begins at the moment `R`, and the history has all that this leads to. -/
structure Runs (P : History) (R : Moment) : Prop where
  task : ∃ program, R.task = .interpret program
  regular : R.Regular
  ready : ∀ node, P.node node → node.Ready
  placed : ∀ node, P.node node → node.Regular
  meets : ∀ M, R.Reaches M → P.moment M ∧ M.Meets P

/-- A session between two requests. -/
structure Settled (P : History) (s : Session) : Prop where
  sound : ∃ W, Sound P W s.machine
  frame : s.machine.frame = none
  nodes : ∀ node, P.node node → node.id < s.nextId ∧ node.Ready ∧ node.Regular
  later : ∀ id, s.nextId ≤ id → s.machine.addresses[id]? = none
  moments : ∀ M, P.moment M → ∃ P' R, P'.Within P ∧ Runs P' R ∧ R.Reaches M

variable {P : History} {s : Session} {W : World} {m : Machine}

theorem sound_defineNative (h : Sound P W m) (name : String) (arity : Nat) {body : NativeBody}
    (hbody : body.Honest) : Sound P W (m.defineNative name arity body) := by
  have hgrown : Grown none W m W { m with natives := m.natives.push body } :=
    ⟨List.prefix_refl W, .refl _ _, fun _ => Array.mem_push_of_mem body, Nat.le_refl _⟩
  have hnatives : Sound P W { m with natives := m.natives.push body } := by
    refine ⟨h.table, h.length, h.frames, ?_, fun i other hother => ?_⟩
    · exact (h.stored.imp fun _ => hgrown.fits).congr rfl rfl rfl
    · rw [Array.getElem?_push] at hother
      split at hother
      · obtain rfl := Option.some.inj hother
        exact hbody
      · exact h.natives i other hother
  exact hnatives.defineGlobal name (v := .native ⟨m.natives.size, name, arity⟩) trivial

theorem sound_empty : Sound .empty [] Machine.empty where
  table _ h := h.elim
  length := rfl
  frames g frame M hg := by simp [Machine.empty, Frames.empty, Frames.get?] at hg
  stored := ⟨fun name v h => by simp [Machine.empty] at h,
    fun g frame hg => by simp [Machine.empty, Frames.empty, Frames.get?] at hg,
    fun i fields name v h => by simp [Machine.empty] at h⟩
  natives i body h := by simp [Machine.empty] at h

theorem settled_new (lint : Lint) (clock : Clock) : Settled .empty (new lint clock) where
  sound := ⟨[], sound_defineNative sound_empty "clock" 0 fun _ _ v hv => by
    obtain rfl := Except.ok.inj hv
    exact .inr fun _ _ _ => trivial⟩
  frame := rfl
  nodes _ h := h.elim
  later id _ := by
    show (∅ : Std.TreeMap Nat Address)[id]? = none
    simp
  moments _ h := h.elim

/-- What an accepted program notes, it notes of its own nodes. -/
theorem addresses_begun {source : String} {program : List Stmt} {r : Resolution}
    (ha : s.Accepted source program r) :
    (∀ id, id < s.nextId ∨ (readProgram source s.nextId).nextId ≤ id →
      (s.begun source r).machine.addresses[id]? = s.machine.addresses[id]?) ∧
    ∀ node ∈ nodesOfProgram program, s.machine.addresses[node.id]? = none →
      (s.begun source r).machine.addresses[node.id]? = node.address? := by
  obtain ⟨hother, hown⟩ := s.machine.addresses_note ha.fresh.nodup
  rw [← ha.addresses] at hother hown
  refine ⟨fun id hid => hother id fun hmem => ?_, hown⟩
  obtain ⟨hge, hlt⟩ := ha.fresh.range id hmem
  omega

/-- The notes of an accepted program are there when it begins to run. -/
theorem sound_begun {source : String} {program : List Stmt} {r : Resolution} {M : Moment}
    (hs : Settled P s) (h : Sound P W s.machine) (ha : s.Accepted source program r) :
    Sound (P.extend (nodesOfProgram program) M) W (s.begun source r).machine := by
  obtain ⟨hother, hown⟩ := addresses_begun ha
  have hcongr : ∀ node, P.node node →
      (s.begun source r).machine.addresses[node.id]? = node.address? := fun node hnode =>
    (hother node.id (.inl (hs.nodes node hnode).1)).trans (h.table node hnode)
  have hgrown : Grown none W s.machine W (s.begun source r).machine := .of_eq rfl rfl (Nat.le_refl _)
  have hsound : Sound P W (s.begun source r).machine :=
    ⟨hcongr, h.length, h.frames, (h.stored.imp fun _ => hgrown.fits).congr rfl rfl rfl, h.natives⟩
  refine hsound.within (P.within_extend _ M) fun node hnode => ?_
  rcases hnode with hnode | hnode
  · exact hcongr node hnode
  · have hid := (ha.fresh.range _ (List.mem_map_of_mem hnode)).1
    exact hown node hnode (hs.later _ hid)

/-- An accepted program runs in a settled session, and leaves a settled session behind. -/
theorem settled_interpret {source : String} {program : List Stmt} {r : Resolution} (n : Nat)
    (hs : Settled P s) (ha : s.Accepted source program r) :
    Settled (P.extend (nodesOfProgram program) ⟨n, .interpret program, (s.begun source r).machine⟩)
      ((s.begun source r).interpret n program).2 := by
  generalize hR : (⟨n, .interpret program, (s.begun source r).machine⟩ : Moment) = R
  obtain ⟨W, hsound⟩ := hs.sound
  have hwithin := P.within_extend (nodesOfProgram program) R
  have hframe : (s.begun source r).machine.frame = none := hs.frame
  have hknown : Known (P.extend (nodesOfProgram program) R) [] (nodesOfProgram program) :=
    ⟨fun _ => .inr, by simp⟩
  have hnodes : ∀ node, (P.extend (nodesOfProgram program) R).node node →
      node.Ready ∧ node.Regular := by
    rintro node (hnode | hnode)
    · exact (hs.nodes node hnode).2
    · exact ⟨ha.ready node hnode, ha.regular node hnode⟩
  have hretains := retains_interpret (s.begun source r) n program
  obtain ⟨hmeets, hends⟩ := safe_interpret n (sound_begun hs hsound ha) hframe ha.formed hknown
    fun M hM M' hreaches => by
      obtain rfl := List.mem_singleton.mp hM
      exact .inr (hR ▸ hreaches)
  rw [hR] at hmeets
  have hruns : Runs (P.extend (nodesOfProgram program) R) R := by
    refine ⟨⟨program, by rw [← hR]⟩, ?_, fun node hnode => (hnodes node hnode).1,
      fun node hnode => (hnodes node hnode).2, fun M hM => ⟨.inr hM, ?_⟩⟩
    · rw [← hR]
      exact ⟨ha.formed, ha.returnless⟩
    · exact hmeets R (List.mem_singleton_self R) M hM
  refine ⟨?_, hretains.frame.trans hframe, fun node hnode => ⟨?_, hnodes node hnode⟩,
    fun id hid => ?_, ?_⟩
  · rw [interpret_machine]
    unfold Ends at hends
    split at hends
    next heq =>
      obtain ⟨W', hk, -⟩ := hends
      rw [heq]
      exact ⟨W', hk.sound⟩
    next heq =>
      obtain ⟨W', hk⟩ := hends
      rw [heq]
      exact ⟨W', hk.sound⟩
  · rw [interpret_nextId]
    rcases hnode with hnode | hnode
    · exact Nat.lt_of_lt_of_le (hs.nodes node hnode).1 (le_nextId source s.nextId)
    · exact (ha.fresh.range _ (List.mem_map_of_mem hnode)).2
  · rw [interpret_nextId] at hid
    rw [hretains.addresses, (addresses_begun ha).1 id (.inr hid)]
    exact hs.later id (Nat.le_trans (le_nextId source s.nextId) hid)
  · rintro M (hM | hM)
    · obtain ⟨P', R', hP', hruns', hreaches⟩ := hs.moments M hM
      exact ⟨P', R', hP'.trans hwithin, hruns', hreaches⟩
    · exact ⟨_, R, .refl _, hruns, hM⟩

theorem settled_answer {request : Request} (h : Settled P s) (hrequest : request.Honest) :
    Settled (s.remember P request) (s.answer request).2 := by
  cases request with
  | run n source =>
    show Settled (s.remember P (.run n source)) (s.run n source).2
    rw [run_eq, remember]
    cases hcheck : s.check source with
    | error ds =>
      have hle := le_nextId source s.nextId
      refine ⟨h.sound, h.frame, fun node hnode => ?_, fun id hid => ?_, h.moments⟩
      · obtain ⟨hlt, hready⟩ := h.nodes node hnode
        exact ⟨Nat.lt_of_lt_of_le hlt hle, hready⟩
      · exact h.later id (Nat.le_trans hle hid)
    | ok accepted => exact settled_interpret n h (accepted_of_check hcheck)
  | setEchoes echoes =>
    obtain ⟨W, hsound⟩ := h.sound
    exact ⟨⟨W, hsound.congr rfl rfl rfl rfl rfl⟩, h.frame, h.nodes, h.later, h.moments⟩
  | defineNative name arity body =>
    obtain ⟨W, hsound⟩ := h.sound
    exact ⟨⟨W, sound_defineNative hsound name arity hrequest⟩, h.frame, h.nodes, h.later, h.moments⟩
  | takeWarnings => exact ⟨h.sound, h.frame, h.nodes, h.later, h.moments⟩
  | takeOutput =>
    obtain ⟨W, hsound⟩ := h.sound
    exact ⟨⟨W, hsound.congr rfl rfl rfl rfl rfl⟩, h.frame, h.nodes, h.later, h.moments⟩
  | global name => exact h

theorem settled_serve {requests : List Request} (h : Settled P s)
    (hrequests : ∀ request ∈ requests, request.Honest) :
    Settled (s.history P requests) (s.serve requests) := by
  induction requests generalizing s P with
  | nil => exact h
  | cons request requests ih =>
    exact ih (settled_answer h (hrequests request (by simp))) fun request' hmem =>
      hrequests request' (List.mem_cons_of_mem _ hmem)

/-- Whatever has happened has happened in the run of an accepted program. -/
theorem exists_runs (lint : Lint) (clock : Clock) {requests : List Request}
    (hrequests : ∀ request ∈ requests, request.Honest) {M : Moment}
    (hM : ((new lint clock).history .empty requests).moment M) :
    ∃ P R, P.Within ((new lint clock).history .empty requests) ∧ Runs P R ∧ R.Reaches M :=
  (settled_serve (settled_new lint clock) hrequests).moments M hM

end Session

end Lox
