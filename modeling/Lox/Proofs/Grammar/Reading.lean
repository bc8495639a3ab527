import Lox.Grammar.Statement

namespace Lox.Grammar

variable {α β : Type}

/-- The second list is what is left of the first behind some tokens. The end of input is not one
of them. -/
def Passes (ts ts' : List Token) : Prop :=
  ∃ passed, ts = passed ++ ts' ∧ ∀ t ∈ passed, t.kind ≠ .eof

theorem passes_refl (ts : List Token) : Passes ts ts := ⟨[], rfl, List.forall_mem_nil _⟩

theorem passes_one {t : Token} (h : t.kind ≠ .eof) (ts : List Token) : Passes (t :: ts) ts :=
  ⟨[t], rfl, List.forall_mem_singleton.mpr h⟩

theorem Passes.trans {ts ts' ts'' : List Token} (h : Passes ts ts') (h' : Passes ts' ts'') :
    Passes ts ts'' := by
  obtain ⟨passed, rfl, hpassed⟩ := h
  obtain ⟨passed', rfl, hpassed'⟩ := h'
  exact ⟨passed ++ passed', (List.append_assoc _ _ _).symm,
    List.forall_mem_append.mpr ⟨hpassed, hpassed'⟩⟩

theorem Passes.suffix {ts ts' : List Token} (h : Passes ts ts') : ts' <:+ ts := by
  obtain ⟨passed, rfl, -⟩ := h
  exact List.suffix_append passed ts'

/-- What any production may do to a cursor, whether or not it yields. -/
structure Cursor.Step (c c' : Cursor) : Prop where
  rest : Passes c.rest c'.rest
  loops : c'.loops = c.loops
  faults : c.faults <+: c'.faults
  nextId : c.nextId ≤ c'.nextId

namespace Cursor.Step

theorem refl (c : Cursor) : c.Step c := ⟨passes_refl _, rfl, List.prefix_rfl, Nat.le_refl _⟩

theorem trans {c₁ c₂ c₃ : Cursor} (h : c₁.Step c₂) (h' : c₂.Step c₃) : c₁.Step c₃ :=
  ⟨h.rest.trans h'.rest, h'.loops.trans h.loops, h.faults.trans h'.faults,
    Nat.le_trans h.nextId h'.nextId⟩

theorem length_le {c c' : Cursor} (h : c.Step c') : c'.rest.length ≤ c.rest.length :=
  h.rest.suffix.length_le

/-- Without faults at the end there were none before. -/
theorem clean {c c' : Cursor} (h : c.Step c') (hc : c'.faults = []) : c.faults = [] :=
  List.prefix_nil.mp (hc ▸ h.faults)

end Cursor.Step

/-- How a production may end that started at `c`. -/
def Ends (spent : Prop) (c : Cursor) (Q : α → Cursor → Prop) : EStateM.Result Halt Cursor α → Prop
  | .ok a c' => c.Step c' ∧ Q a c'
  | .error (.fault _) c' => c.Step c'
  | .error .exhausted _ => spent

/-- At the cursor `c` the production `p` only steps forward, `Q` holds of what it yields, and it
gives up for want of an allowance only if `spent`. -/
def Reads (spent : Prop) (p : Parse α) (c : Cursor) (Q : α → Cursor → Prop) : Prop :=
  Ends spent c Q (p c)

theorem bind_apply (p : Parse α) (k : α → Parse β) (c : Cursor) :
    (p >>= k) c = match p c with
      | .ok a c' => k a c'
      | .error e c' => .error e c' := by
  cases h : p c <;> simp [bind, EStateM.bind, h]

theorem map_apply (f : α → β) (p : Parse α) (c : Cursor) :
    (f <$> p) c = match p c with
      | .ok a c' => .ok (f a) c'
      | .error e c' => .error e c' := by
  cases h : p c <;> simp [Functor.map, EStateM.map, h]

theorem Reads.imp {spent spent' : Prop} {p : Parse α} {c : Cursor} {Q Q' : α → Cursor → Prop}
    (h : Reads spent p c Q) (hs : spent → spent') (hQ : ∀ a c', c.Step c' → Q a c' → Q' a c') :
    Reads spent' p c Q' := by
  unfold Reads at *
  match p c, h with
  | .ok a c', ⟨hstep, hq⟩ => exact ⟨hstep, hQ a c' hstep hq⟩
  | .error (.fault _) _, h => exact h
  | .error .exhausted _, h => exact hs h

theorem Reads.spend {spent spent' : Prop} {p : Parse α} {c : Cursor} {Q : α → Cursor → Prop}
    (h : Reads spent p c Q) (hs : spent → spent') : Reads spent' p c Q :=
  h.imp hs fun _ _ _ hq => hq

theorem Reads.bind {spent : Prop} {p : Parse α} {k : α → Parse β} {c : Cursor}
    {Q : α → Cursor → Prop} {R : β → Cursor → Prop} (h : Reads spent p c Q)
    (hk : ∀ a c', c.Step c' → Q a c' → Reads spent (k a) c' R) : Reads spent (p >>= k) c R := by
  unfold Reads at *
  rw [bind_apply]
  match p c, h with
  | .ok a c', ⟨hstep, hq⟩ =>
    have hr := hk a c' hstep hq
    match hka : k a c', hr with
    | .ok b c'', ⟨hstep', hr⟩ =>
      simp only [hka]
      exact ⟨hstep.trans hstep', hr⟩
    | .error (.fault _) c'', hr =>
      simp only [hka]
      exact hstep.trans hr
    | .error .exhausted _, hr =>
      simp only [hka]
      exact hr
  | .error (.fault _) _, h => exact h
  | .error .exhausted _, h => exact h

theorem Reads.pure {spent : Prop} {a : α} {c : Cursor} {Q : α → Cursor → Prop} (h : Q a c) :
    Reads spent (pure a) c Q := ⟨.refl c, h⟩

theorem Reads.map {spent : Prop} {f : α → β} {p : Parse α} {c : Cursor} {Q : β → Cursor → Prop}
    (h : Reads spent p c fun a c' => Q (f a) c') : Reads spent (f <$> p) c Q :=
  h.bind fun _ _ _ hq => Reads.pure hq

theorem reads_head {spent : Prop} {c : Cursor} :
    Reads spent head c fun t c' => t = c.head ∧ c = c' := ⟨.refl c, rfl, rfl⟩

theorem reads_kind {spent : Prop} {c : Cursor} :
    Reads spent kind c fun k c' => k = c.head.kind ∧ c = c' := ⟨.refl c, rfl, rfl⟩

theorem reads_get {spent : Prop} {c : Cursor} :
    Reads spent get c fun a c' => a = c ∧ c = c' := ⟨.refl c, rfl, rfl⟩

theorem reads_halt {spent : Prop} {line : Nat} {fault : GrammarFault} {c : Cursor}
    {Q : α → Cursor → Prop} : Reads spent (halt line fault) c Q := Cursor.Step.refl c

theorem reads_haltHere {spent : Prop} {fault : GrammarFault} {c : Cursor}
    {Q : α → Cursor → Prop} : Reads spent (haltHere fault) c Q := Cursor.Step.refl c

/-- The cursor behind the next token. -/
structure Cursor.Advance (c : Cursor) (t : Token) (c' : Cursor) : Prop where
  rest : c.rest = t :: c'.rest
  faults : c'.faults = c.faults
  nextId : c'.nextId = c.nextId

theorem Cursor.Advance.length_lt {c c' : Cursor} {t : Token} (h : c.Advance t c') :
    c'.rest.length < c.rest.length := by
  simp [h.rest]

theorem Cursor.head_mem {c : Cursor} {k : Kind} (h : c.head.kind = k) (hk : k ≠ .eof) :
    c.rest = c.head :: c.rest.tail := by
  cases hr : c.rest with
  | nil =>
    simp only [Cursor.head, hr] at h
    exact absurd h.symm hk
  | cons t ts => simp [Cursor.head, hr]

theorem reads_advance {spent : Prop} {c : Cursor} (hc : c.head.kind ≠ .eof) :
    Reads spent advance c fun _ c' => c.Advance c.head c' :=
  have hrest := Cursor.head_mem rfl hc
  have hpassed : Passes c.rest c.rest.tail := hrest ▸ passes_one hc _
  ⟨⟨hpassed, rfl, List.prefix_rfl, Nat.le_refl _⟩, hrest, rfl, rfl⟩

theorem reads_mint {spent : Prop} {c : Cursor} :
    Reads spent mint c fun id c' => id = c.nextId ∧ c'.rest = c.rest ∧ c'.faults = c.faults ∧
      c'.nextId = c.nextId + 1 :=
  ⟨⟨passes_refl _, rfl, List.prefix_rfl, Nat.le_succ _⟩, rfl, rfl, rfl, rfl⟩

theorem reads_record {spent : Prop} {c : Cursor} {line : Nat} {fault : GrammarFault} :
    Reads spent (record line fault) c fun _ c' => c'.rest = c.rest ∧ c'.faults ≠ [] :=
  ⟨⟨passes_refl _, rfl, List.prefix_append _ _, Nat.le_refl _⟩, rfl, by simp⟩

theorem reads_accept? {spent : Prop} {c : Cursor} {k : Kind} (hk : k ≠ .eof) :
    Reads spent (accept? k) c fun o c' => match o with
      | some t => t.kind = k ∧ c.Advance t c'
      | none => c.head.kind ≠ k ∧ c = c' := by
  unfold accept?
  refine reads_head.bind ?_
  rintro _ _ _ ⟨rfl, rfl⟩
  split
  next heq =>
    refine (reads_advance (heq ▸ hk)).bind fun _ _ _ ha => ?_
    exact Reads.pure (a := some c.head) ⟨heq, ha⟩
  next hne => exact Reads.pure (a := none) ⟨hne, rfl⟩

theorem reads_accept {spent : Prop} {c : Cursor} {k : Kind} (hk : k ≠ .eof) :
    Reads spent (accept k) c fun b c' => match b with
      | true => ∃ t, t.kind = k ∧ c.Advance t c'
      | false => c.head.kind ≠ k ∧ c = c' := by
  refine Reads.map ((reads_accept? hk).imp id fun o c' _ h => ?_)
  cases o with
  | some t => exact ⟨t, h⟩
  | none => exact h

theorem reads_expect {spent : Prop} {c : Cursor} {k : Kind} {item : String} (hk : k ≠ .eof) :
    Reads spent (expect k item) c fun t c' => t.kind = k ∧ c.Advance t c' := by
  refine (reads_accept? hk).bind fun o c' _ ho => ?_
  cases o with
  | none => exact reads_haltHere
  | some t => exact Reads.pure ho

theorem reads_withLoops {spent : Prop} {c : Cursor} {loops : Nat → Nat} {p : Parse α}
    {Q R : α → Cursor → Prop} (h : Reads spent p { c with loops := loops c.loops } Q)
    (hQ : ∀ a c', Q a c' → R a { c' with loops := c.loops }) :
    Reads spent (withLoops loops p) c R := by
  unfold Reads withLoops at *
  match p { c with loops := loops c.loops }, h with
  | .ok a c', ⟨hstep, hq⟩ => exact ⟨⟨hstep.rest, rfl, hstep.faults, hstep.nextId⟩, hQ a c' hq⟩
  | .error (.fault _) c', hstep => exact ⟨hstep.rest, rfl, hstep.faults, hstep.nextId⟩
  | .error .exhausted _, h => exact h

/-- The loop that is left is the one that was entered. -/
theorem reads_withinLoop {spent : Prop} {c : Cursor} {p : Parse α} {Q R : α → Cursor → Prop}
    (h : Reads spent p { c with loops := c.loops + 1 } Q)
    (hQ : ∀ a c', Q a c' → R a { c' with loops := c'.loops - 1 }) :
    Reads spent (withinLoop p) c R := by
  have hleft : ∀ {c' : Cursor}, Cursor.Step { c with loops := c.loops + 1 } c' →
      c.Step { c' with loops := c'.loops - 1 } :=
    fun hstep => ⟨hstep.rest, Nat.sub_eq_of_eq_add hstep.loops, hstep.faults, hstep.nextId⟩
  unfold Reads withinLoop at *
  match p { c with loops := c.loops + 1 }, h with
  | .ok a c', ⟨hstep, hq⟩ => exact ⟨hleft hstep, hQ a c' hq⟩
  | .error (.fault _) c', hstep => exact hleft hstep
  | .error .exhausted _, h => exact h

theorem reads_manyAlong {spent : Prop} {item : Nat → Parse (Option α)} {c₀ : Cursor}
    {S : Nat → Cursor → List α → Cursor → Prop}
    (hitem : ∀ i c, c₀.Step c → Reads spent (item i) c fun o c' => match o with
      | none => S i c [] c'
      | some a => c'.rest.length < c.rest.length ∧
          ∀ as c'', c'.Step c'' → S (i + 1) c' as c'' → S i c (a :: as) c'') :
    ∀ (ts : List Token) (i : Nat) (c : Cursor), c₀.Step c → c.rest.length ≤ ts.length →
      Reads spent (manyAlong item ts i) c (S i c) := by
  intro ts
  induction ts with
  | nil =>
    intro i c hc hlen
    refine (hitem i c hc).bind fun o c' _ ho => ?_
    cases o with
    | none => exact Reads.pure ho
    | some a =>
      have := ho.1
      simp only [List.length_nil, Nat.le_zero] at hlen
      omega
  | cons t ts ih =>
    intro i c hc hlen
    refine (hitem i c hc).bind fun o c' hstep ho => ?_
    cases o with
    | none => exact Reads.pure ho
    | some a =>
      have hshort := ho.1
      simp only [List.length_cons] at hlen
      refine (ih (i + 1) c' (hc.trans hstep) (by omega)).bind fun as c'' hstep' has => ?_
      exact Reads.pure (ho.2 as c'' hstep' has)

/-- Items that take a token each never run out of allowance. -/
theorem reads_many {spent : Prop} {item : Nat → Parse (Option α)} {i : Nat} {c₀ : Cursor}
    {S : Nat → Cursor → List α → Cursor → Prop}
    (hitem : ∀ i c, c₀.Step c → Reads spent (item i) c fun o c' => match o with
      | none => S i c [] c'
      | some a => c'.rest.length < c.rest.length ∧
          ∀ as c'', c'.Step c'' → S (i + 1) c' as c'' → S i c (a :: as) c'') :
    Reads spent (many item i) c₀ (S i c₀) := by
  refine reads_get.bind ?_
  rintro _ _ _ ⟨rfl, rfl⟩
  exact reads_manyAlong hitem _ i _ (.refl _) (Nat.le_refl _)

theorem reads_extendAlong {spent : Prop} {step : α → Parse (Option α)} {c₀ : Cursor}
    {S : α → Cursor → Prop}
    (hstep : ∀ a c, c₀.Step c → S a c → Reads spent (step a) c fun o c' => match o with
      | none => S a c'
      | some b => c'.rest.length < c.rest.length ∧ S b c') :
    ∀ (ts : List Token) (a : α) (c : Cursor), c₀.Step c → c.rest.length ≤ ts.length → S a c →
      Reads spent (extendAlong step ts a) c S := by
  intro ts
  induction ts with
  | nil =>
    intro a c hc hlen hs
    refine (hstep a c hc hs).bind fun o c' _ ho => ?_
    cases o with
    | none => exact Reads.pure ho
    | some b =>
      have := ho.1
      simp only [List.length_nil, Nat.le_zero] at hlen
      omega
  | cons t ts ih =>
    intro a c hc hlen hs
    refine (hstep a c hc hs).bind fun o c' hc' ho => ?_
    cases o with
    | none => exact Reads.pure ho
    | some b =>
      have hshort := ho.1
      simp only [List.length_cons] at hlen
      exact ih b c' (hc.trans hc') (by omega) ho.2

/-- Steps that take a token each never run out of allowance. -/
theorem reads_extend {spent : Prop} {step : α → Parse (Option α)} {a : α} {c₀ : Cursor}
    {S : α → Cursor → Prop}
    (hstep : ∀ a c, c₀.Step c → S a c → Reads spent (step a) c fun o c' => match o with
      | none => S a c'
      | some b => c'.rest.length < c.rest.length ∧ S b c') (hs : S a c₀) :
    Reads spent (extend step a) c₀ S := by
  refine reads_get.bind ?_
  rintro _ _ _ ⟨rfl, rfl⟩
  exact reads_extendAlong hstep _ a _ (.refl _) (Nat.le_refl _) hs

theorem passes_toBoundary (last : Kind) (ts : List Token) : Passes ts (toBoundary last ts) := by
  induction ts generalizing last with
  | nil => exact passes_refl _
  | cons t ts ih =>
    rw [toBoundary]
    split
    · exact passes_refl _
    next hboundary => exact (passes_one (fun heof => hboundary (.inl heof)) ts).trans (ih t.kind)

theorem passes_resume (ts : List Token) : Passes ts (resume ts) := by
  cases ts with
  | nil => exact passes_refl _
  | cons t ts =>
    rw [resume]
    split
    · exact passes_refl _
    next heof => exact (passes_one heof ts).trans (passes_toBoundary t.kind ts)

/-- Going on after a fault leaves a token behind, unless reading had not begun. -/
theorem resume_length_lt {c c' : Cursor} (h : Passes c.rest c'.rest) (hc : c.head.kind ≠ .eof) :
    (resume c'.rest).length < c.rest.length := by
  have hr := Cursor.head_mem rfl hc
  cases hr' : c'.rest with
  | nil =>
    rw [hr]
    simp [resume]
  | cons t ts =>
    have hsuffix := hr' ▸ h.suffix
    have hle := hsuffix.length_le
    rw [resume]
    split
    next heof =>
      refine Nat.lt_of_le_of_ne hle fun heq => hc ?_
      rw [Cursor.head, ← hsuffix.eq_of_length heq]
      exact heof
    next =>
      have := (passes_toBoundary t.kind ts).suffix.length_le
      simp only [List.length_cons] at hle
      omega

theorem reads_recover {spent : Prop} {c : Cursor} {p : Parse α} {Q : α → Cursor → Prop}
    (hc : c.head.kind ≠ .eof) (h : Reads spent p c Q) :
    Reads spent (recover p) c fun o c' => match o with
      | some a => Q a c'
      | none => c'.faults ≠ [] ∧ c'.rest.length < c.rest.length := by
  unfold Reads recover at *
  match p c, h with
  | .ok a c', ⟨hstep, hq⟩ => exact ⟨hstep, hq⟩
  | .error (.fault d) c', hstep =>
    refine ⟨⟨hstep.rest.trans (passes_resume _), hstep.loops,
      hstep.faults.trans (List.prefix_append _ _), hstep.nextId⟩, by simp, ?_⟩
    exact resume_length_lt hstep.rest hc
  | .error .exhausted _, h => exact h

end Lox.Grammar
