import ChurchStore.Proofs.Iteration
import ChurchStore.Session

/-!
# Handles of another size

Evaluation never compares handles, and what a handle takes in a table matters only where a table is
reserved. So a store can be given another comparison of handles and another size of them, and
everything else that is done on it is the same.
-/

namespace ChurchStore

/-- The store `W`, whose handles are compared by `same` and take `bytes` bytes each in a table. -/
def Guise (W : Type) {H : Type} (_bytes : Nat) (_same : H → H → Bool) : Type := W

namespace Guise

variable {W H : Type} {bytes : Nat} {same : H → H → Bool}

instance [inst : Host W H] : Host (Guise W bytes same) H :=
  { (inst : Host W H) with
    handleBytes := bytes
    same := same }

variable [Host W H]

/-! The programs below are read off the operations that a guise leaves as they are. -/

theorem apply_eq : @Evaluator.apply (Guise W bytes same) H _ = @Evaluator.apply W H _ := by
  delta Evaluator.apply Evaluator.applyWithin
  rfl

theorem applyTwice_eq :
    @Evaluator.applyTwice (Guise W bytes same) H _ = @Evaluator.applyTwice W H _ := by
  delta Evaluator.applyTwice Evaluator.apply Evaluator.applyWithin
  rfl

theorem iterate_eq : @Evaluator.iterate (Guise W bytes same) H _ = @Evaluator.iterate W H _ := by
  delta Evaluator.iterate Evaluator.replace Evaluator.replace._f Evaluator.apply
    Evaluator.applyWithin
  rfl

theorem countFrom_eq :
    @Evaluator.countFrom (Guise W bytes same) H _ = @Evaluator.countFrom W H _ := by
  delta Evaluator.countFrom Evaluator.apply Evaluator.applyWithin
  rfl

theorem pow_eq : @Evaluator.pow (Guise W bytes same) H _ = @Evaluator.pow W H _ := by
  delta Evaluator.pow Evaluator.fold Evaluator.apply Evaluator.applyWithin
  rfl

theorem numeral_eq : @Evaluator.numeral (Guise W bytes same) H _ = @Evaluator.numeral W H _ := by
  delta Evaluator.numeral Evaluator.successors Evaluator.successors._f Evaluator.successor
    Evaluator.apply Evaluator.applyWithin
  rfl

theorem extendTable_eq :
    @Evaluator.extendTable (Guise W bytes same) H _ = @Evaluator.extendTable W H _ := by
  delta Evaluator.extendTable Evaluator.extendTable._f Evaluator.successor Evaluator.apply
    Evaluator.applyWithin
  rfl

theorem plus_eq : @Evaluator.plus (Guise W bytes same) H _ = @Evaluator.plus W H _ := by
  delta Evaluator.plus Evaluator.apply Evaluator.applyWithin
  rfl

theorem mul_eq : @Evaluator.mul (Guise W bytes same) H _ = @Evaluator.mul W H _ := by
  delta Evaluator.mul Evaluator.apply Evaluator.applyWithin
  rfl

theorem build_eq : @Term.build (Guise W bytes same) H _ = @Term.build W H _ := by
  delta Term.build Term.build._f Evaluator.numeral Evaluator.successors Evaluator.successors._f
    Evaluator.plus Evaluator.mul Evaluator.successor Evaluator.apply Evaluator.applyWithin
  rfl

end Guise

end ChurchStore
