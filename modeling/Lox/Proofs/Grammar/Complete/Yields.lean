import Lox.Proofs.Grammar.Derivation
import Lox.Proofs.Grammar.Reading

namespace Lox.Grammar

variable {α β γ : Type} {loops : Nat} {ts ts' rest : List Token} {t : Token} {k : Kind}

/-- The kind of the token that comes next. -/
def nextKind (ts : List Token) : Kind := (ts.head?.getD endOfInput).kind

@[simp] theorem nextKind_cons (t : Token) (ts : List Token) : nextKind (t :: ts) = t.kind := rfl

@[simp] theorem nextKind_cons_append (t : Token) (ts rest : List Token) :
    nextKind (t :: ts ++ rest) = t.kind := rfl

/-- The production `p` passes the tokens of `ts` down to `rest` and records no fault, and `Q` holds
of what it yields. -/
def Yields (loops : Nat) (p : Parse α) (ts rest : List Token) (Q : α → Prop) : Prop :=
  ∀ faults id, ∃ a id', p ⟨ts, loops, faults, id⟩ = .ok a ⟨rest, loops, faults, id'⟩ ∧ Q a

namespace Yields

theorem imp {p : Parse α} {Q Q' : α → Prop} (h : Yields loops p ts rest Q)
    (hQ : ∀ a, Q a → Q' a) : Yields loops p ts rest Q' := by
  intro faults id
  obtain ⟨a, id', hp, hq⟩ := h faults id
  exact ⟨a, id', hp, hQ a hq⟩

theorem bind {p : Parse α} {next : α → Parse β} {Q : α → Prop} {R : β → Prop}
    (h : Yields loops p ts ts' Q) (hnext : ∀ a, Q a → Yields loops (next a) ts' rest R) :
    Yields loops (p >>= next) ts rest R := by
  intro faults id
  obtain ⟨a, id', hp, hq⟩ := h faults id
  obtain ⟨b, id'', hb, hr⟩ := hnext a hq faults id'
  exact ⟨b, id'', by rw [bind_apply, hp]; exact hb, hr⟩

theorem pure {a : α} {Q : α → Prop} (h : Q a) : Yields loops (pure a) ts ts Q :=
  fun _ id => ⟨a, id, rfl, h⟩

theorem map {p : Parse α} {f : α → β} {Q : β → Prop}
    (h : Yields loops p ts rest fun a => Q (f a)) : Yields loops (f <$> p) ts rest Q :=
  h.bind fun _ hq => .pure hq

end Yields

theorem yields_head : Yields loops head ts ts (· = ts.head?.getD endOfInput) :=
  fun _ id => ⟨_, id, rfl, rfl⟩

theorem yields_head_cons : Yields loops head (t :: ts) (t :: ts) (t = ·) :=
  fun _ id => ⟨_, id, rfl, rfl⟩

theorem yields_kind : Yields loops kind ts ts (· = nextKind ts) := fun _ id => ⟨_, id, rfl, rfl⟩

theorem yields_get : Yields loops get ts ts fun c => c.rest = ts ∧ c.loops = loops :=
  fun _ id => ⟨_, id, rfl, rfl, rfl⟩

theorem yields_advance : Yields loops advance (t :: ts) ts fun _ => True :=
  fun _ id => ⟨_, id, rfl, trivial⟩

theorem yields_mint : Yields loops mint ts ts fun _ => True := fun _ id => ⟨_, id + 1, rfl, trivial⟩

theorem yields_accept? (h : t.kind = k) : Yields loops (accept? k) (t :: ts) ts (· = some t) := by
  refine yields_head.bind ?_
  rintro _ rfl
  rw [if_pos h]
  exact yields_advance.bind fun _ _ => .pure rfl

theorem yields_accept?_none (h : nextKind ts ≠ k) :
    Yields loops (accept? k) ts ts (· = none) := by
  refine yields_head.bind ?_
  rintro _ rfl
  rw [if_neg (show ¬(ts.head?.getD endOfInput).kind = k from h)]
  exact .pure rfl

theorem yields_accept (h : t.kind = k) : Yields loops (accept k) (t :: ts) ts (· = true) :=
  (yields_accept? h).bind fun _ ho => .pure (by rw [ho]; rfl)

theorem yields_accept_false (h : nextKind ts ≠ k) :
    Yields loops (accept k) ts ts (· = false) :=
  (yields_accept?_none h).bind fun _ ho => .pure (by rw [ho]; rfl)

theorem yields_expect {item : String} (h : t.kind = k) :
    Yields loops (expect k item) (t :: ts) ts (· = t) :=
  (yields_accept? h).bind fun _ ho => by rw [ho]; exact .pure rfl

theorem yields_withLoops {p : Parse α} {inside : Nat → Nat} {Q : α → Prop}
    (h : Yields (inside loops) p ts rest Q) : Yields loops (withLoops inside p) ts rest Q := by
  intro faults id
  obtain ⟨a, id', hp, hq⟩ := h faults id
  exact ⟨a, id', by rw [withLoops, hp], hq⟩

theorem yields_withinLoop {p : Parse α} {Q : α → Prop} (h : Yields (loops + 1) p ts rest Q) :
    Yields loops (withinLoop p) ts rest Q := by
  intro faults id
  obtain ⟨a, id', hp, hq⟩ := h faults id
  exact ⟨a, id', by rw [withinLoop, hp]; rfl, hq⟩

theorem yields_recover {p : Parse α} {Q : α → Prop} (h : Yields loops p ts rest Q) :
    Yields loops (recover p) ts rest fun o => ∃ a, o = some a ∧ Q a := by
  intro faults id
  obtain ⟨a, id', hp, hq⟩ := h faults id
  exact ⟨some a, id', by rw [recover, hp], a, rfl, hq⟩

/-- Items one behind the other. -/
inductive Sequence (item : List Token → α → Prop) : List Token → List α → Prop where
  | nil : Sequence item [] []
  | cons {ts₁ ts₂ a as} : item ts₁ a → Sequence item ts₂ as →
      Sequence item (ts₁ ++ ts₂) (a :: as)

theorem Sequence.map {P : List Token → α → Prop} {P' : List Token → β → Prop} {f : α → β}
    {as : List α} {n : Nat} (h : Sequence P ts as) (hlen : ts.length ≤ n)
    (hP : ∀ ts a, ts.length ≤ n → P ts a → P' ts (f a)) : Sequence P' ts (as.map f) := by
  induction h with
  | nil => exact .nil
  | cons h _ ih =>
    rw [List.length_append] at hlen
    exact .cons (hP _ _ (by omega) h) (ih (by omega))

theorem Sequence.imp {P P' : List Token → α → Prop} {as : List α} (h : Sequence P ts as)
    (hP : ∀ ts a, P ts a → P' ts a) : Sequence P' ts as := by
  simpa using h.map (f := id) (Nat.le_refl _) fun ts a _ => hP ts a

/-- An item in front of any token that may follow, when there are fewer than `limit` before it. -/
def Item (loops limit : Nat) (item : Nat → Parse (Option β)) (Follow : Kind → Prop) (view : β → γ)
    (ts : List Token) (a : γ) : Prop :=
  (∃ t ts', ts = t :: ts' ∧ Follow t.kind) ∧ ∀ i rest, i < limit → Follow (nextKind rest) →
    Yields loops (item i) (ts ++ rest) rest fun o => ∃ b, o = some b ∧ view b = a

/-- Behind items that it accepts, the loop goes on as it would have begun there. -/
theorem manyAlong_behind {limit : Nat} {item : Nat → Parse (Option β)} {Follow : Kind → Prop}
    {view : β → γ} {as : List γ} (h : Sequence (Item loops limit item Follow view) ts as)
    (hfollow : Follow (nextKind rest)) :
    ∀ (allowance : List Token) (i : Nat), (ts ++ rest).length ≤ allowance.length →
      i + as.length ≤ limit → ∀ faults id, ∃ bs allowance' id', bs.map view = as ∧
        manyAlong item allowance i ⟨ts ++ rest, loops, faults, id⟩ =
          ((bs ++ ·) <$> manyAlong item allowance' (i + as.length)) ⟨rest, loops, faults, id'⟩ := by
  induction h with
  | nil =>
    intro allowance i _ _ faults id
    refine ⟨[], allowance, id, rfl, ?_⟩
    simp only [List.nil_append, List.length_nil, Nat.add_zero]
    exact (congrFun (id_map (manyAlong item allowance i)) _).symm
  | @cons ts₁ ts₂ a as hitem hrest ih =>
    intro allowance i hlen hlimit faults id
    obtain ⟨⟨t, ts', rfl, _⟩, hyields⟩ := hitem
    cases allowance with
    | nil => simp at hlen
    | cons u allowance =>
      have hnext : Follow (nextKind (ts₂ ++ rest)) := by
        cases hrest with
        | nil => exact hfollow
        | cons h _ =>
          obtain ⟨⟨u, us, rfl, hu⟩, _⟩ := h
          exact hu
      simp only [List.length_cons, List.append_assoc, List.length_append] at hlen hlimit
      obtain ⟨_, id₁, hfirst, b, rfl, rfl⟩ := hyields i _ (by omega) hnext faults id
      obtain ⟨bs, allowance', id₂, hbs, hothers⟩ :=
        ih allowance (i + 1) (by simp; omega) (by omega) faults id₁
      refine ⟨b :: bs, allowance', id₂, by rw [List.map_cons, hbs], ?_⟩
      rw [List.append_assoc, manyAlong, bind_apply, hfirst]
      dsimp only
      rw [bind_apply, hothers, map_apply, map_apply, List.length_cons, Nat.add_comm as.length,
        ← Nat.add_assoc]
      cases manyAlong item allowance' (i + 1 + as.length) ⟨rest, loops, faults, id₂⟩ <;> rfl

theorem yields_manyAlong {limit : Nat} {item : Nat → Parse (Option β)} {Follow : Kind → Prop}
    {view : β → γ} {as : List γ} (h : Sequence (Item loops limit item Follow view) ts as)
    (hfollow : Follow (nextKind rest)) (hstop : ∀ i, Yields loops (item i) rest rest (· = none))
    (allowance : List Token) (i : Nat) (hlen : (ts ++ rest).length ≤ allowance.length)
    (hlimit : i + as.length ≤ limit) :
    Yields loops (manyAlong item allowance i) (ts ++ rest) rest fun bs => bs.map view = as := by
  intro faults id
  obtain ⟨bs, allowance', id₁, hbs, heq⟩ :=
    manyAlong_behind h hfollow allowance i hlen hlimit faults id
  have hend : Yields loops (manyAlong item allowance' (i + as.length)) rest rest (· = []) := by
    cases allowance' with
    | nil | cons => exact (hstop _).bind fun _ ho => by rw [ho]; exact .pure rfl
  obtain ⟨_, id₂, hend, rfl⟩ := hend faults id₁
  refine ⟨bs, id₂, ?_, hbs⟩
  rw [heq, map_apply, hend]
  exact congrArg (EStateM.Result.ok · _) (List.append_nil bs)

theorem yields_many (limit : Nat) (Follow : Kind → Prop) (view : β → γ) {i : Nat}
    {item : Nat → Parse (Option β)} {as : List γ}
    (h : Sequence (Item loops limit item Follow view) ts as)
    (hfollow : Follow (nextKind rest)) (hstop : ∀ i, Yields loops (item i) rest rest (· = none))
    (hlimit : i + as.length ≤ limit) :
    Yields loops (many item i) (ts ++ rest) rest fun bs => bs.map view = as := by
  refine yields_get.bind fun c hc => ?_
  have hlen : (ts ++ rest).length ≤ c.rest.length := Nat.le_of_eq (congrArg List.length hc.1.symm)
  exact yields_manyAlong h hfollow hstop c.rest i hlen hlimit

theorem extendAlong_some {step : α → Parse (Option α)} {a b : α} {c c' : Cursor}
    (h : step a c = .ok (some b) c') (t : Token) (allowance : List Token) :
    extendAlong step (t :: allowance) a c = extendAlong step allowance b c' := by
  rw [extendAlong, bind_apply, h]

theorem extendAlong_none {step : α → Parse (Option α)} {a : α} {c c' : Cursor}
    (h : step a c = .ok none c') (allowance : List Token) :
    extendAlong step allowance a c = .ok a c' := by
  cases allowance <;> rw [extendAlong, bind_apply, h] <;> rfl

variable {item : Parse β} {view : β → γ}

theorem Separated.sequence {P : List Token → α → Prop} {as : List α} (h : Separated P ts as) :
    ∃ ts₁ ts₂ a as', ts = ts₁ ++ ts₂ ∧ as = a :: as' ∧ P ts₁ a ∧
      Sequence (fun ts a => ∃ comma ts', ts = comma :: ts' ∧ comma.kind = .comma ∧ P ts' a)
        ts₂ as' := by
  induction h with
  | @one ts a h => exact ⟨ts, [], a, [], by simp, rfl, h, .nil⟩
  | @more ts₁ _ a as comma h hcomma _ ih =>
    obtain ⟨ts₂, ts₃, b, bs, rfl, rfl, hb, hbs⟩ := ih
    refine ⟨ts₁, comma :: ts₂ ++ ts₃, a, b :: bs, by simp, rfl, h, ?_⟩
    exact .cons ⟨comma, ts₂, rfl, hcomma, hb⟩ hbs

/-- An item of a list in parentheses. -/
def Listed (loops : Nat) (item : Parse β) (view : β → γ) (ts : List Token) (a : γ) : Prop :=
  nextKind ts ≠ .rightParen ∧ ts ≠ [] ∧
    ∀ rest, (nextKind rest = .comma ∨ nextKind rest = .rightParen) →
      Yields loops item (ts ++ rest) rest fun b => view b = a

theorem yields_commaList (rest : List Token) {excess : GrammarFault} {as : List γ}
    (h : ts = [] ∧ as = [] ∨ Separated (Listed loops item view) ts as ∧ as.length ≤ maxArguments)
    (hrest : nextKind rest = .rightParen) :
    Yields loops (commaList excess item) (ts ++ rest) rest fun bs => bs.map view = as := by
  refine yields_kind.bind ?_
  rintro _ rfl
  obtain ⟨rfl, rfl⟩ | ⟨hsep, hlen⟩ := h
  · rw [List.nil_append, if_pos hrest]
    exact .pure rfl
  · obtain ⟨ts₁, ts₂, a, as', rfl, rfl, ⟨hfirst, hne, hyields⟩, hseq⟩ := hsep.sequence
    have hnext : nextKind (ts₁ ++ ts₂ ++ rest) ≠ .rightParen := by
      cases ts₁ with
      | nil => exact absurd rfl hne
      | cons t ts => exact hfirst
    have hfollow : nextKind (ts₂ ++ rest) = .comma ∨ nextKind (ts₂ ++ rest) = .rightParen := by
      cases hseq with
      | nil => exact .inr hrest
      | cons h _ =>
        obtain ⟨comma, ts', rfl, hcomma, -⟩ := h
        exact .inl hcomma
    rw [if_neg hnext, List.append_assoc]
    refine (hyields _ hfollow).bind fun b hb => ?_
    simp only [List.length_cons] at hlen
    refine (yields_many maxArguments (fun k => k = .comma ∨ k = .rightParen) view (hseq.imp ?_)
      (.inr hrest) ?_ (by omega)).bind fun bs hbs => .pure ?_
    · rintro _ a' ⟨comma, ts', rfl, hcomma, -, -, hyields'⟩
      refine ⟨⟨comma, ts', rfl, .inl hcomma⟩, fun i rest' hi hrest' => ?_⟩
      refine (yields_accept hcomma).bind ?_
      rintro _ rfl
      simp only [Bool.not_true, Bool.false_eq_true, ↓reduceIte, Nat.not_le.mpr hi]
      exact Yields.map ((hyields' _ hrest').imp fun b hb => ⟨b, rfl, hb⟩)
    · intro i
      refine (yields_accept_false (by rw [hrest]; simp)).bind ?_
      rintro _ rfl
      exact .pure rfl
    · rw [List.map_cons, hb, hbs]

end Lox.Grammar
