import Lox.Proofs.Loop.Direct
import Lox.Proofs.Machine.World

namespace Lox

/-- The links from here outwards lead to the top. -/
inductive Frames.Rooted (s : Frames Value) : Option FrameRef → Prop where
  | top : Rooted s none
  | frame {f frame} : s.get? f = some frame → Rooted s frame.enclosing → Rooted s (some f)

/-- Every frame in which code can stand corresponds to itself, and there are no empty ones. -/
def Framing.unmoved (s : Frames Value) : Framing where
  pairs f k f' := s.Rooted (some f) ∧ k = .outside ∧ f' = f
  rounds _ _ := False

variable {P : History} {W : World} {s : Frames Value} {m : Machine} {L : Lexical} {A : Tables}
  {table : Std.TreeMap Nat Address}

theorem Stands.rooted {f? : Option FrameRef} (h : Stands P W s f? L) : s.Rooted f? := by
  induction h with
  | top => exact .top
  | frame hget _ _ _ _ _ ih => exact .frame hget ih

theorem Frames.Rooted.stands {f? : Option FrameRef} (h : s.Rooted f?) :
    (Framing.unmoved s).Stands .outside f? f? := by
  cases h with
  | top => exact .top
  | frame hget henclosing => exact .frame ⟨.frame hget henclosing, rfl, rfl⟩

theorem RowTwin.self {α : Type} {R : α → α → Prop} {a : Array α} (h : ∀ v ∈ a, R v v) :
    RowTwin R a a := by
  intro i
  cases hv : a[i]? with
  | none => exact .none
  | some v => exact .some (h v (Array.mem_of_getElem? hv))

theorem TableTwin.self {α : Type} {R : α → α → Prop} {t : Std.TreeMap String α}
    (h : ∀ (name : String) (v : α), t[name]? = some v → R v v) : TableTwin R t t := by
  intro name
  cases hv : t[name]? with
  | none => exact .none
  | some v => exact .some (h name v hv)

theorem Framing.fits_unmoved
    (h : ∀ g frame, s.get? g = some frame → ∀ v ∈ frame.cells, (unmoved s).Like A v v) :
    (unmoved s).Fits A s s where
  paired := by
    rintro f k f' ⟨hrooted, rfl, rfl⟩
    cases hrooted with
    | @frame _ g hget henclosing =>
      exact ⟨g, g, .outside, hget, hget, .self (h _ g hget), rfl, henclosing.stands⟩
  empty := nofun
  left := by
    rintro f k g j f' ⟨-, -, rfl⟩ ⟨-, -, rfl⟩
    rfl
  right := by
    rintro f k f' j g' ⟨-, -, rfl⟩ ⟨-, -, rfl⟩
    rfl
  apart := nofun

/-- The tables bind what has been accepted as it stands in the text. -/
structure Tables.Agree (A : Tables) (P : History) : Prop where
  left : ∀ node, P.node node → A.left[node.id]? = node.address?
  right : ∀ node, P.node node → A.right[node.id]? = node.address?

/-- What stands in accepted text is not moved. -/
theorem Function.Suits.moved {f : Function} (h : f.Suits P L) (hA : A.Agree P) :
    f.Moved A .outside f := by
  have hself : f.Twin .anyNodes f := f.twin_self.within ⟨fun _ _ _ => trivial, fun _ _ => id⟩
  exact hself.moved (.self L) h.proper h.formed
    (fun node hnode => hA.left node (h.known.accepted node hnode))
    fun node hnode => hA.right node (h.known.accepted node hnode)

theorem Closure.Callable.unmoved {f : Closure} (h : f.Callable P W s) (hA : A.Agree P) :
    f.Like ((Framing.unmoved s).Function A) f := by
  obtain ⟨⟨L, hstands, hsuits⟩, -⟩ := h
  exact Closure.like_self ⟨.outside, hstands.rooted.stands, hsuits.moved hA, fun _ => nofun⟩

theorem Closure.Unbound.unmoved {f : Closure} (h : f.Unbound P W s) (hA : A.Agree P) :
    f.Like ((Framing.unmoved s).Method A) f := by
  obtain ⟨⟨L, hstands, hsuits⟩, -⟩ := h
  exact Closure.like_self ⟨.outside, hstands.rooted.stands, hsuits.moved hA⟩

theorem Class.Fits.unmoved {c : Class} (h : c.Fits P W m) (hA : A.Agree P) :
    c.Like ((Framing.unmoved m.frames).Method A) c := by
  refine ⟨rfl, rfl, fun name => ?_⟩
  cases hf : c.method? name with
  | none => exact .none
  | some f => exact .some ((h.good name f hf).unmoved hA)

theorem Value.Fits.unmoved {v : Value} (h : v.Fits P W m) (hA : A.Agree P) :
    (Framing.unmoved m.frames).Like A v v := by
  cases v with
  | function i f => exact .function i (h.callable.unmoved hA)
  | «class» c => exact .class (Class.Fits.unmoved h hA)
  | «instance» i c => exact .instance i (h.1.unmoved hA)
  | _ => constructor

/-- Another table that agrees changes nothing for what a sound machine holds. -/
theorem Sound.matches_unmoved (h : Sound P W m) (hframe : m.frames.Rooted m.frame)
    (hnatives : ∀ body ∈ m.natives, body.Oblivious) (hA : Tables.Agree ⟨m.addresses, table⟩ P) :
    m.Matches ⟨m.addresses, table⟩ (Framing.unmoved m.frames) .outside
      { m with addresses := table } where
  globals := .self fun name v hv => (h.stored.globals name v hv).unmoved hA
  frame := hframe.stands
  frames := Framing.fits_unmoved fun g frame hg v hv => (h.stored.cells g frame hg v hv).unmoved hA
  instances := by
    refine .self fun fields hfields => .self fun name v hv => ?_
    obtain ⟨i, hi⟩ := Array.mem_iff_getElem?.mp hfields
    exact (h.stored.fields i fields name v hi hv).unmoved hA
  natives := rfl
  oblivious := hnatives
  turns := rfl
  addresses := rfl
  addresses' := rfl
  output := rfl
  echoes := rfl
  nextIdentity := rfl

end Lox
