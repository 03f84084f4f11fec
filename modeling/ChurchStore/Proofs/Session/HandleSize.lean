import ChurchStore.Proofs.Counted
import ChurchStore.Proofs.HandleSize
import ChurchStore.Proofs.Session.Run

/-!
# Runs with handles of another size

A session on a store that gives its handles another size goes as one on the store itself, as long as
the tables that are asked for in it are reserved in both or refused in both. So stores whose handles
differ in size can be compared along the same runs.
-/

namespace ChurchStore

open Session

variable {W H : Type} [Host W H] {bytes : Nat}

/-- The number of entries of the table that a command reserves. -/
def Session.Command.tableSize : Command → Nat
  | .numerals count _ => count
  | _ => 0

namespace Guise

theorem numerals_eq {same : H → H → Bool} {count : Nat}
    (h : count * bytes < reservationBound ↔ count * Backend.handleBytes W < reservationBound)
    (e : Evaluator H) :
    @Evaluator.numerals (Guise W bytes same) H _ e count = @Evaluator.numerals W H _ e count := by
  by_cases hfits : count * Backend.handleBytes W < reservationBound
  · have hguise : @Evaluator.numerals (Guise W bytes same) H _ e count =
        @Evaluator.extendTable (Guise W bytes same) H _ e count #[] := if_pos (h.2 hfits)
    rw [hguise, Evaluator.numerals, if_pos hfits]
    exact congrArg (fun run => run e count #[]) (extendTable_eq (W := W))
  · have hguise : @Evaluator.numerals (Guise W bytes same) H _ e count =
        (throw .capacityOverflow : Act W (Array H)) := if_neg (mt h.1 hfits)
    rw [hguise, Evaluator.numerals, if_neg hfits]

theorem perform_numerals_eq {count : Nat}
    (h : count * bytes < reservationBound ↔ count * Backend.handleBytes W < reservationBound)
    (number : Nat) (dest : Name) :
    @perform (Guise W bytes (Backend.same W)) H _ number (.numerals count dest) =
      @perform W H _ number (.numerals count dest) := by
  delta perform assignAll assign giveBack act
  exact congrArg (fun run => (do
    let e ← Session.evaluator number
    let table ← act (run e)
    assignAll dest table.toList
    return .count table.size : Play W H Answer)) (funext (numerals_eq h))

/-- Only the table of numerals depends on the size of handles. -/
theorem perform_eq {command : Command} (hc : command.isOperation = true)
    (h : command.tableSize * bytes < reservationBound ↔
      command.tableSize * Backend.handleBytes W < reservationBound) (number : Nat) :
    @perform (Guise W bytes (Backend.same W)) H _ number command =
      @perform W H _ number command := by
  -- Taken apart down to what the store itself does, both sides are the same program.
  cases command with
  | new | stats | extent | ledger | reset | demo => cases hc
  | numerals count dest => exact perform_numerals_eq h number dest
  | builtin | int | clone | drop | describe | same | close | toInt | kind =>
    delta perform store assign giveBack act
    rfl
  | apply | successor | plus | mul | fold | pow =>
    delta perform store assign giveBack act Evaluator.successor Evaluator.plus Evaluator.mul
      Evaluator.pow Evaluator.fold Evaluator.apply Evaluator.applyWithin
    rfl
  | numeral =>
    delta perform store assign giveBack act Evaluator.numeral Evaluator.successors
      Evaluator.successors._f Evaluator.successor Evaluator.apply Evaluator.applyWithin
    rfl
  | alloc =>
    delta perform store assign giveBack act capture
    rfl
  | resolve =>
    delta perform keepCaptures keep assign onRefusal holding giveBack act
    rfl

theorem step_eq {command : Command} (hc : command.isOperation = true)
    (h : command.tableSize * bytes < reservationBound ↔
      command.tableSize * Backend.handleBytes W < reservationBound) (s : Session W H) :
    (@step (Guise W bytes (Backend.same W)) H _ s 0 (some command)).2 =
      (@step W H _ s 0 (some command)).2 := by
  simp only [step, Option.elim_some]
  rw [perform_eq hc h]
  rfl

theorem after_eq {commands : List Command} (hc : ∀ command ∈ commands, command.isOperation = true)
    (h : ∀ command ∈ commands, command.tableSize * bytes < reservationBound ↔
      command.tableSize * Backend.handleBytes W < reservationBound) (s : Session W H) :
    @after (Guise W bytes (Backend.same W)) H _ s commands = @after W H _ s commands := by
  induction commands generalizing s with
  | nil => rfl
  | cons command commands ih =>
    rw [List.forall_mem_cons] at hc h
    have hstep := step_eq hc.1 h.1 s
    exact (congrArg (@after (Guise W bytes (Backend.same W)) H _ · commands) hstep).trans
      (ih hc.2 h.2 _)

end Guise

namespace Representation

/-- The laws of a store do not depend on the size of its handles. -/
def guise (R : Representation W) (bytes : Nat) :
    Representation (Guise W bytes (Backend.same W)) where
  toView := R.toView
  Sound := R.Sound
  look_of_mem := R.look_of_mem
  look_of_captured := R.look_of_captured
  epoch_of_look := R.epoch_of_look
  retain := R.retain
  release := R.release
  alloc_fits := R.alloc_fits
  alloc_oversize := R.alloc_oversize
  resolve_current := R.resolve_current
  resolve_stale := R.resolve_stale
  same_iff := R.same_iff
  describe := R.describe

theorem Counted.guise {R : Representation W} {cells : W → Cells} {ledger : W → Ledger}
    {handle : Nat → H} {position : H → Nat} (hR : R.Counted cells ledger handle position)
    (bytes : Nat) : (R.guise bytes).Counted cells ledger handle position where
  position_handle := hR.position_handle
  look_handle := hR.look_handle
  handle_position_of_look := hR.handle_position_of_look
  handle_position_of_mem := hR.handle_position_of_mem
  sound := hR.sound
  ledger_eq := hR.ledger_eq
  allocated_eq := hR.allocated_eq
  alloc_eq := hR.alloc_eq

end Representation

end ChurchStore
