import RowTyping.Proofs.Renumbering.Checkers

namespace RowTyping

def CheckedProgram.untraced (out : CheckedProgram) : CheckedProgram :=
  { out with trace := none }

theorem Answer.untraced_told (answer : Answer) (π : Renumbering) (trace trace' : Option CheckTrace) :
    (answer.told π trace).map CheckedProgram.untraced = (answer.told π trace').map CheckedProgram.untraced := by
  cases answer <;> rfl

namespace Checker

variable (checker : Checker)

def sameNumbers (trace : Bool) : Variant checker.registry where
  numbers := .identity
  ascends := Renumbering.ascends_identity
  defaults t _ := t.renumber_identity
  traced := trace

theorem checkProgram_traced (supply : Supply) (p : Program) (trace trace' : Bool) :
    ((checker.traced trace).checkProgram supply p).1.map CheckedProgram.untraced =
      ((checker.traced trace').checkProgram supply p).1.map CheckedProgram.untraced := by
  obtain ⟨answer, h⟩ := checker.exists_told supply p
  have hsupply : supply.Renders .identity supply := ⟨fun _ => rfl, fun _ => rfl⟩
  have hglobals : checker.globals.renumber .identity = checker.globals :=
    Env.renumber_of_fixed fun _ _ => Scheme.renumber_of_fixed fun v _ => v.renumber_identity
  obtain ⟨steps, hrun⟩ := h (checker.sameNumbers trace) supply hsupply hglobals
  obtain ⟨steps', hrun'⟩ := h (checker.sameNumbers trace') supply hsupply hglobals
  exact (congrArg _ hrun).trans ((answer.untraced_told .identity steps steps').trans (congrArg _ hrun').symm)

end Checker

end RowTyping
