import Lox.Token.Scan
import Mathlib.Data.List.TakeWhile

namespace Lox

theorem numeral_spec (cs : List Char) : (numeral cs).1 = cs.takeWhile Char.isDigit ∧
    ∀ d ∈ (numeral cs).2.1, d.isDigit := by
  unfold numeral
  dsimp only
  split
  · split
    · exact ⟨rfl, by simp⟩
    · exact ⟨rfl, fun _ => List.mem_takeWhile_imp⟩
  · exact ⟨rfl, by simp⟩

theorem numeral_cons {c : Char} (hc : c.isDigit) (cs : List Char) :
    numeral (c :: cs) = (c :: (numeral cs).1, (numeral cs).2) := by
  unfold numeral
  rw [List.takeWhile_cons_of_pos hc, List.dropWhile_cons_of_pos hc]
  dsimp only
  split
  · split <;> rfl
  · rfl

/-- A numeral has places, or what follows its whole part is no point with a digit behind it. -/
theorem numeral_cases (cs : List Char) :
    (∃ rest, cs.dropWhile Char.isDigit = '.' :: rest ∧ rest.takeWhile Char.isDigit ≠ [] ∧
      numeral cs = (cs.takeWhile Char.isDigit, rest.takeWhile Char.isDigit,
        rest.dropWhile Char.isDigit)) ∨
    (∀ rest, cs.dropWhile Char.isDigit = '.' :: rest → rest.takeWhile Char.isDigit = []) ∧
      numeral cs = (cs.takeWhile Char.isDigit, [], cs.dropWhile Char.isDigit) := by
  unfold numeral
  dsimp only
  split
  next rest hrest =>
    split
    next hnone =>
      refine .inr ⟨fun rest' h => ?_, by rw [hrest]⟩
      obtain ⟨-, rfl⟩ := List.cons.inj (hrest.symm.trans h)
      exact hnone
    next hsome => exact .inl ⟨rest, hrest, hsome, rfl⟩
  next rest hne =>
    exact .inr ⟨fun rest' h => absurd h (hne rest'), rfl⟩

/-- The text of a numeral. -/
def numeralText (whole places : List Char) : List Char :=
  whole ++ if places = [] then [] else '.' :: places

theorem ofNumeral_eq (cs : List Char) : Piece.ofNumeral cs =
    (.word (.number (numeralValue (numeral cs).1 (numeral cs).2.1))
      (numeralText (numeral cs).1 (numeral cs).2.1), (numeral cs).2.2) := by
  unfold Piece.ofNumeral numeralText
  split
  next heq => simp [heq]
  next hne heq => rw [heq, if_neg fun h => hne h]

theorem mem_numeralText {whole places : List Char} {d : Char} (hw : ∀ d ∈ whole, d.isDigit)
    (hp : ∀ d ∈ places, d.isDigit) (h : d ∈ numeralText whole places) : d.isDigit ∨ d = '.' := by
  unfold numeralText at h
  rcases List.mem_append.mp h with h | h
  · exact .inl (hw d h)
  · split at h
    · cases h
    · rcases List.mem_cons.mp h with rfl | h
      · exact .inr rfl
      · exact .inl (hp d h)

theorem text_append_numeral (cs : List Char) :
    numeralText (numeral cs).1 (numeral cs).2.1 ++ (numeral cs).2.2 = cs := by
  have hcs := List.takeWhile_append_dropWhile (p := Char.isDigit) (l := cs)
  rcases numeral_cases cs with ⟨rest, hrest, hplaces, hnumeral⟩ | ⟨-, hnumeral⟩
  · rw [hrest, ← List.takeWhile_append_dropWhile (p := Char.isDigit) (l := rest)] at hcs
    rw [hnumeral, numeralText, if_neg hplaces, List.append_assoc]
    exact hcs
  · rw [hnumeral, numeralText, if_pos rfl, List.append_nil]
    exact hcs

end Lox
