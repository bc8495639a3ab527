import Lox.Proofs.Grammar.Sound.Program

namespace Lox.Grammar

variable {α : Type} {nearest loop : Bool} {n : Nat}

/-- The tokens before the first end of input, or all if it is missing. -/
def untilEnd (ts : List Token) : List Token := ts.takeWhile fun t => t.kind ≠ .eof

theorem untilEnd_append {ts rest : List Token} (hts : ∀ t ∈ ts, t.kind ≠ .eof)
    (hrest : (rest.head?.getD endOfInput).kind = .eof) : untilEnd (ts ++ rest) = ts := by
  rw [untilEnd, List.takeWhile_append_of_pos fun t ht => decide_eq_true (hts t ht)]
  cases rest with
  | nil => simp
  | cons t rest =>
    simp only [List.head?_cons, Option.getD_some] at hrest
    simp [hrest]

theorem Separated.forall_mem {item : List Token → α → Prop} {P : Token → Prop} {ts : List Token}
    {as : List α} (h : Separated item ts as) (hcomma : ∀ t : Token, t.kind = .comma → P t)
    (hitem : ∀ ts a, item ts a → ∀ t ∈ ts, P t) : ∀ t ∈ ts, P t := by
  induction h with
  | one h => exact hitem _ _ h
  | more h hc _ ih =>
    intro t ht
    simp only [List.mem_append, List.mem_cons] at ht
    rcases ht with ht | rfl | ht
    · exact hitem _ _ h t ht
    · exact hcomma _ hc
    · exact ih t ht

theorem Parameters.not_eof {ts params : List Token} (h : Parameters ts params) :
    ∀ t ∈ ts, t.kind ≠ .eof := by
  cases h with
  | none => simp
  | some h _ => exact h.forall_mem (by simp +contextual) (by simp +contextual)

theorem Rank.isOperator_ne_eof {r : Rank} {k : Kind} (h : r.isOperator k) : k ≠ .eof := by
  rintro rfl
  cases r <;> exact absurd h (by decide)

theorem literal?_ne_eof {k : Kind} {value : Literal} (h : literal? k = some value) : k ≠ .eof := by
  rintro rfl
  exact absurd h (by simp [literal?])

/-- No derivation passes the end of input. -/
theorem Derives.not_eof {s : Symbol} {ts : List Token} {t : s.Tree}
    (h : Derives nearest loop s ts t) : ∀ t ∈ ts, t.kind ≠ .eof := by
  induction h with
  | operation _ hop _ _ ih₁ ih₂ =>
    have := Rank.isOperator_ne_eof hop
    simp_all [or_imp]
  | literal h =>
    have := literal?_ne_eof h
    simp_all
  | sign h _ ih => rcases h with h | h <;> simp_all
  | function _ hparams _ _ _ _ ih =>
    have := hparams.not_eof
    simp_all [or_imp]
  | _ => simp_all [or_imp]

theorem reads_program {loop : Bool} {c : Cursor} (hl : c.inLoop = loop) :
    Reads (n ≤ c.rest.length) (program (Inner.ofDepth n)) c fun ss c' =>
      Spans loop .declarations c ss c' ∧ c'.head.kind = .eof :=
  (reads_declarations (P := (· = .eof)) (Inner.sound n) hl rfl).bind fun _ _ _ h => Reads.pure h

theorem reads_wholeExpression {loop : Bool} {c : Cursor} (hl : c.inLoop = loop) :
    Reads (n ≤ c.rest.length) (wholeExpression (Inner.ofDepth n)) c fun e c' =>
      Spans loop (.expression .assignment) c e c' ∧ (c'.faults = [] → c'.head.kind = .eof) := by
  refine ((Inner.sound n).expression loop c hl).bind fun e c₁ _ ⟨he, _⟩ => ?_
  refine reads_head.bind ?_
  rintro _ _ _ ⟨rfl, rfl⟩
  split
  next hk =>
    refine reads_record.bind fun _ c₂ hs₂ ⟨_, hfaults⟩ => Reads.pure ⟨⟨?_, ?_⟩, ?_⟩
    · exact he.fresh.mono (Nat.le_refl _) hs₂.nextId
    · exact fun hclean => absurd hclean hfaults
    · exact fun hclean => absurd hclean hfaults
  next hk => exact Reads.pure ⟨he, fun _ => Decidable.not_not.mp hk⟩

/-- What is known of a reading whose trees `P` relates to the tokens before the end. -/
structure ReadingSpec (P : List Token → α → Prop) (ids : α → List Nat) (ts : List Token)
    (firstId : Nat) (reading : Reading α) : Prop where
  nextId : firstId ≤ reading.nextId
  tree : ∀ a, reading.result = .ok a →
    P (untilEnd ts) a ∧ Fresh firstId reading.nextId (ids a)
  faults : ∀ ds, reading.result = .error ds → ds ≠ []

/-- The allowance is never used up, so a reading without a tree has faults. -/
theorem read_spec {production : Inner → Parse α} {P : List Token → α → Prop}
    {ids : α → List Nat} (hP : ∀ ts a, P ts a → ∀ t ∈ ts, t.kind ≠ .eof) (ts : List Token)
    (firstId : Nat) (h : ∀ n, Reads (n ≤ ts.length) (production (Inner.ofDepth n))
      ⟨ts, 0, [], firstId⟩ fun a c' =>
        Stands ids P ⟨ts, 0, [], firstId⟩ a c' ∧ (c'.faults = [] → c'.head.kind = .eof)) :
    ReadingSpec P ids ts firstId (read production ts firstId) := by
  have h := h (ts.length + 1)
  unfold Reads at h
  unfold read
  match production (Inner.ofDepth (ts.length + 1)) ⟨ts, 0, [], firstId⟩, h with
  | .ok a c, ⟨hs, hstands, hlast⟩ =>
    refine ⟨hs.nextId, fun b hb => ?_, fun ds hds => ?_⟩
    · by_cases hf : c.faults = []
      · obtain rfl : a = b := by simpa [hf] using hb
        obtain ⟨ts', hts, hd⟩ := hstands.tokens hf
        refine ⟨?_, hstands.fresh⟩
        simp only at hts
        rwa [hts, untilEnd_append (hP _ _ hd) (hlast hf)]
      · simp [hf] at hb
    · by_cases hf : c.faults = []
      · simp [hf] at hds
      · obtain rfl : c.faults = ds := by simpa [hf] using hds
        exact hf
  | .error (.fault d) c, hs =>
    refine ⟨hs.nextId, by simp, fun ds hds => ?_⟩
    obtain rfl : c.faults ++ [d] = ds := by simpa using hds
    simp
  | .error .exhausted _, h => exact absurd h (Nat.not_succ_le_self _)

theorem read_program_spec (ts : List Token) (firstId : Nat) :
    ReadingSpec (Derives true false .declarations) (List.flatMap Stmt.ids) ts firstId
      (read program ts firstId) :=
  read_spec (fun _ _ hd => hd.not_eof) ts firstId fun _ =>
    (reads_program rfl).imp id fun _ _ _ h => ⟨h.1, fun _ => h.2⟩

theorem read_wholeExpression_spec (ts : List Token) (firstId : Nat) :
    ReadingSpec (Derives true false (.expression .assignment)) Expr.ids ts firstId
      (read wholeExpression ts firstId) :=
  read_spec (fun _ _ hd => hd.not_eof) ts firstId fun _ => reads_wholeExpression rfl

end Lox.Grammar
