import Lox.Proofs.Grammar.Nearest
import Lox.Proofs.Token.Cut
import Lox.Proofs.Tree.Forget
import Lox.Tree.Source

namespace Lox

/-- Does every word end where the text starts? -/
def endsEveryWord (rest : List Char) : Bool :=
  startsWithout (fun c => isNameChar c || c = '=' || c = '/') rest &&
    !(rest.head? = some '.' && !startsWithout Char.isDigit rest.tail)

theorem endsWord_of_endsEveryWord {rest : List Char} (h : endsEveryWord rest) (k : Kind) :
    endsWord rest k := by
  simp only [endsEveryWord, Bool.and_eq_true] at h
  obtain ⟨hstart, hpoint⟩ := h
  have hwithout : ∀ P : Char → Bool, (∀ c, P c → isNameChar c ∨ c = '=' ∨ c = '/') →
      startsWithout P rest := by
    intro P hP
    cases rest with
    | nil => rfl
    | cons c cs =>
      simp only [startsWithout, Bool.not_eq_true', Bool.or_eq_false_iff,
        decide_eq_false_iff_not] at hstart ⊢
      refine Bool.eq_false_iff.mpr fun hc => ?_
      rcases hP c hc with h | h | h
      · simp [h] at hstart
      · exact hstart.1.2 h
      · exact hstart.2 h
  have hname := hwithout isNameChar fun _ => .inl
  have hequal := hwithout (fun c => decide (c = '=')) (by simp)
  have hslash := hwithout (fun c => decide (c = '/')) (by simp)
  have hdigit := hwithout Char.isDigit fun c hc => .inl (isNameChar_of_isDigit hc)
  unfold endsWord
  split <;> first | rfl | assumption | simp [hdigit, hpoint]

/-- Every word ends where the text starts if it ends where what follows the text starts. -/
def Opens (text : List Char) : Prop := ∀ rest, endsEveryWord rest → endsEveryWord (text ++ rest)

theorem opens_nil : Opens [] := fun _ h => h

/-- Wherever the text stands, and whatever follows it that ends every word, it is cut into tokens
that `P` holds of. -/
def Printed (P : List Token → Prop) (text : List Char) : Prop :=
  ∀ line rest, endsEveryWord rest → ∃ ts line', P ts ∧
    items line (text ++ rest) = ts.map Except.ok ++ items line' rest

namespace Printed

variable {P Q : List Token → Prop} {a b : List Char}

theorem imp (h : Printed P a) (hQ : ∀ ts, P ts → Q ts) : Printed Q a := by
  intro line rest hrest
  obtain ⟨ts, line', hp, heq⟩ := h line rest hrest
  exact ⟨ts, line', hQ ts hp, heq⟩

theorem done (h : P []) : Printed P [] := fun line _ _ => ⟨[], line, h, rfl⟩

theorem append (h : Printed P a) (hb : Opens b)
    (hnext : ∀ ts, P ts → Printed (fun us => Q (ts ++ us)) b) : Printed Q (a ++ b) := by
  intro line rest hrest
  obtain ⟨ts, l, hp, hts⟩ := h line (b ++ rest) (hb rest hrest)
  obtain ⟨us, l', hq, hus⟩ := hnext ts hp l rest hrest
  exact ⟨ts ++ us, l', hq, by rw [List.append_assoc, hts, hus, List.map_append, List.append_assoc]⟩

theorem space (h : Printed P a) : Printed P (' ' :: a) := by
  intro line rest hrest
  obtain ⟨ts, line', hp, heq⟩ := h line rest hrest
  exact ⟨ts, line', hp, by rw [List.cons_append, items_space, heq]⟩

/-- A word of which it is known that it ends. -/
theorem endedWord {k : Kind} {w : List Char} (hw : IsWord k w)
    (hends : ∀ rest, endsEveryWord rest → endsWord (b ++ rest) k)
    (hnext : ∀ line, Printed (fun us => P (⟨k, String.ofList w, line⟩ :: us)) b) :
    Printed P (w ++ b) := by
  intro line rest hrest
  obtain ⟨l, hword⟩ := items_word hw (hends rest hrest) line
  obtain ⟨us, l', hp, hus⟩ := hnext l l rest hrest
  exact ⟨⟨k, String.ofList w, l⟩ :: us, l', hp, by rw [List.append_assoc, hword, hus]; rfl⟩

theorem word {k : Kind} {w : List Char} (hw : IsWord k w) (hb : Opens b)
    (hnext : ∀ line, Printed (fun us => P (⟨k, String.ofList w, line⟩ :: us)) b) :
    Printed P (w ++ b) :=
  endedWord hw (fun rest hrest => endsWord_of_endsEveryWord (hb rest hrest) k) hnext

/-- A token that was written before, and may now be on another line. -/
theorem token {t : Token} (ht : t.Written) (hb : Opens b)
    (hnext : ∀ line, Printed (fun us => P (⟨t.kind, t.lexeme, line⟩ :: us)) b) :
    Printed P (t.lexeme.toList ++ b) := by
  refine word ht hb fun line => ?_
  rw [String.ofList_toList]
  exact hnext line

/-- A parenthesis, a brace or another character that is a word by itself. -/
theorem mark {c : Char} {k : Kind} (hc : ∀ cs, Piece.next c cs = (.word k [c], cs))
    (hk : ∀ rest, endsWord rest k = true)
    (hnext : ∀ line, Printed (fun us => P (⟨k, String.ofList [c], line⟩ :: us)) b) :
    Printed P (c :: b) :=
  endedWord (isWord_mark hc) (fun _ _ => hk _) hnext

/-- A property behind its object. -/
theorem property {t : Token} (ht : t.Written) (hb : Opens b)
    (hnext : ∀ line line', Printed
      (fun us => P (⟨.dot, ".", line⟩ :: ⟨t.kind, t.lexeme, line'⟩ :: us)) b) :
    Printed P ('.' :: (t.lexeme.toList ++ b)) :=
  mark (fun _ => rfl) (fun _ => rfl) fun line => token ht hb fun line' => hnext line line'

theorem semicolon (h : ∀ line, P [⟨.semicolon, ";", line⟩]) : Printed P [';'] :=
  mark (fun _ => rfl) (fun _ => rfl) fun line => done (h line)

/-- Behind an equals sign comes a blank. -/
theorem equals (hnext : ∀ line, Printed (fun us => P (⟨.equal, "=", line⟩ :: us)) b) :
    Printed P ('=' :: ' ' :: b) :=
  word (w := ['=']) (isWord_short (fun _ => rfl) fun _ => id) (fun _ _ => rfl)
    fun line => space (hnext line)

/-- A text that is one word. -/
theorem single {k : Kind} {w : List Char} (hw : IsWord k w)
    (h : ∀ line, P [⟨k, String.ofList w, line⟩]) : Printed P w := by
  rw [← List.append_nil w]
  exact word hw opens_nil fun line => done (h line)

end Printed

/-- An equals sign at the start of a text is cut as one. -/
theorem items_equal (line : Nat) (cs : List Char) : ∃ t items', items line ('=' :: cs) =
    .ok t :: items' ∧ (t.kind = .equal ∨ t.kind = .equalEqual) := by
  rw [items, pieces_cons]
  show ∃ t items', itemsFrom line ((Piece.ofOperator '=' .equal .equalEqual cs).1 ::
    pieces (Piece.ofOperator '=' .equal .equalEqual cs).2) = _ ∧ _
  unfold Piece.ofOperator
  split
  · exact ⟨_, _, rfl, .inr rfl⟩
  · exact ⟨_, _, rfl, .inl rfl⟩

/-- A name is not taken for the places of a number in front of it. -/
theorem startsWithout_isDigit {w : List Char} (hw : IsWord .identifier w) (rest : List Char) :
    startsWithout Char.isDigit (w ++ rest) := by
  obtain ⟨c, cs, rfl, hnext⟩ := hw [] rfl
  cases h : startsWithout Char.isDigit (c :: cs ++ rest) with
  | true => rfl
  | false =>
    have hc : c.isDigit := by simpa [startsWithout] using h
    rw [next_of_isDigit _ hc, Piece.ofNumeral] at hnext
    revert hnext
    split <;> simp

theorem opens_property {w b : List Char} (hw : IsWord .identifier w) :
    Opens ('.' :: (w ++ b)) := by
  intro rest _
  have h : startsWithout Char.isDigit (w ++ b ++ rest) := by
    rw [List.append_assoc]
    exact startsWithout_isDigit hw (b ++ rest)
  show (true && !(true && !startsWithout Char.isDigit (w ++ b ++ rest))) = true
  rw [h]
  rfl

end Lox
