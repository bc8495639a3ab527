import Lox.Proofs.Grammar.Complete.Whole
import Lox.Proofs.Grammar.Nearest

namespace Lox.Grammar

variable {ts : List Token} {firstId : Nat} {program' : List Stmt}

/-- A program that is read is derived, with the nearest `if` and so without regard to it. -/
theorem derives_of_read (h : (read program ts firstId).result = .ok program') :
    Derives true false .declarations (untilEnd ts) program' ∧
      Derives false false .declarations (untilEnd ts) program' := by
  have hd := ((read_program_spec ts firstId).tree program' h).1
  exact ⟨hd, hd.weaken (by simp) id⟩

/-- A tree is read wherever there is one at all. -/
theorem read_of_derives (h : Derives false false .declarations (untilEnd ts) program') :
    ∃ p, (read program ts firstId).result = .ok p := by
  obtain ⟨_, hd⟩ := h.hasNearest
  obtain ⟨p, hp, -⟩ := read_program_of_derives firstId hd
  exact ⟨p, hp⟩

/-- With the nearest `if` there is only one tree, up to the identities in it. -/
theorem derives_unique {p : List Stmt} (h : (read program ts firstId).result = .ok p)
    (hd : Derives true false .declarations (untilEnd ts) program') :
    program'.map (Stmt.forget id) = p.map (Stmt.forget id) := by
  obtain ⟨p', hp', heq⟩ := read_program_of_derives firstId hd
  obtain rfl : p' = p := Except.ok.inj (hp'.symm.trans h)
  exact heq.symm

/-- Reading yields a program if and only if the tokens before the end derive one. It is the tree of
every derivation in which each `else` belongs to the nearest `if`; without one there are faults. -/
theorem read_program_exact (ts : List Token) (firstId : Nat) :
    ((∃ p, (read program ts firstId).result = .ok p) ↔
        ∃ p, Derives false false .declarations (untilEnd ts) p) ∧
      (∀ p, (read program ts firstId).result = .ok p →
        Derives true false .declarations (untilEnd ts) p ∧
          ∀ p', Derives true false .declarations (untilEnd ts) p' →
            p'.map (Stmt.forget id) = p.map (Stmt.forget id)) ∧
      ∀ ds, (read program ts firstId).result = .error ds → ds ≠ [] := by
  refine ⟨⟨fun ⟨p, hp⟩ => ?_, fun ⟨p, hd⟩ => read_of_derives hd⟩, fun p hp => ?_, ?_⟩
  · exact ⟨p, (derives_of_read hp).2⟩
  · exact ⟨(derives_of_read hp).1, fun p' hd => derives_unique hp hd⟩
  · exact (read_program_spec ts firstId).faults

end Lox.Grammar
