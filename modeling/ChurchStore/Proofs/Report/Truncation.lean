import Mathlib.Tactic.Common
import ChurchStore.Report.Reporter

/-!
# Truncated reports

A sink that runs full holds a beginning of what a sink without a limit would hold. What an
operation of a reporter writes depends on the palette only, and writing it piece by piece, up to
the first piece that does not fit, is the same as writing it at once. So every operation is one
write, and a limited and an unlimited reporter can be followed side by side through any sequence of
operations.
-/

namespace ChurchStore.Report

/-! ## Sinks -/

namespace Sink

/-- A sink without a limit that has taken the given bytes. -/
def unlimited (taken : ByteArray) : Sink := { written := taken }

/-- A sink to which the given bytes were offered, and that took as many as its limit allows. -/
def capped (limit : Nat) (offered : ByteArray) : Sink :=
  { limit := some limit, written := offered.extract 0 limit }

/-- Nothing is offered, or all that was ever offered is within the limit. -/
def Fits (limit : Nat) (offered bytes : ByteArray) : Prop :=
  bytes.size = 0 ∨ (offered ++ bytes).size ≤ limit

instance (limit : Nat) (offered bytes : ByteArray) : Decidable (Fits limit offered bytes) :=
  inferInstanceAs (Decidable (_ ∨ _))

theorem fits_empty (limit : Nat) (offered : ByteArray) : Fits limit offered .empty := .inl rfl

theorem Fits.append {limit : Nat} {offered x y : ByteArray} (hx : Fits limit offered x)
    (hy : Fits limit (offered ++ x) y) : Fits limit offered (x ++ y) := by
  simp only [Fits, ByteArray.size_append] at *
  omega

theorem not_fits_append {limit : Nat} {offered x y : ByteArray} (h : ¬ Fits limit offered x) :
    ¬ Fits limit offered (x ++ y) := by
  simp only [Fits, ByteArray.size_append] at *
  omega

theorem not_fits_append_of_right {limit : Nat} {offered x y : ByteArray}
    (h : ¬ Fits limit (offered ++ x) y) : ¬ Fits limit offered (x ++ y) := by
  simp only [Fits, ByteArray.size_append] at *
  omega

theorem extract_eq_self {b : ByteArray} {n : Nat} (h : b.size ≤ n) : b.extract 0 n = b := by
  ext1
  simp [ByteArray.data_extract, ByteArray.size_data, h]

theorem extract_min_size (b : ByteArray) (n : Nat) :
    b.extract 0 (min n b.size) = b.extract 0 n := by
  rcases Nat.le_total b.size n with h | h
  · rw [Nat.min_eq_right h, extract_eq_self h, extract_eq_self (Nat.le_refl _)]
  · rw [Nat.min_eq_left h]

/-- A sink that has refused something takes nothing any more. -/
theorem capped_append {limit : Nat} {offered x : ByteArray} (h : ¬ Fits limit offered x)
    (y : ByteArray) : capped limit (offered ++ (x ++ y)) = capped limit (offered ++ x) := by
  have hfull : limit - (offered ++ x).size = 0 := by
    simp only [Fits, ByteArray.size_append] at *
    omega
  rw [← ByteArray.append_assoc, capped, ByteArray.extract_append, hfull]
  simp [capped]

theorem write_unlimited (taken bytes : ByteArray) :
    (unlimited taken).write bytes = (true, unlimited (taken ++ bytes)) := by
  simp [write, room, unlimited]

theorem write_empty (s : Sink) : s.write .empty = (true, s) := by
  obtain ⟨_ | limit, taken⟩ := s <;> simp [write, room]

/-- All bytes are taken if there are none or if they fit, and otherwise a beginning of them. -/
theorem write_capped (limit : Nat) (offered bytes : ByteArray) :
    (capped limit offered).write bytes =
      (decide (Fits limit offered bytes), capped limit (offered ++ bytes)) := by
  have hsize : limit - (offered.extract 0 limit).size = limit - offered.size := by
    rw [ByteArray.size_extract]
    omega
  have hroom : (min bytes.size (limit - offered.size) == bytes.size) =
      decide (Fits limit offered bytes) := by
    rw [Bool.eq_iff_iff, beq_iff_eq, decide_eq_true_iff, Fits, ByteArray.size_append]
    omega
  simp only [write, room, capped, hsize, hroom, ByteArray.extract_append, Nat.zero_sub]
  rw [Nat.min_comm, extract_min_size]

/-- Two pieces at once, or the second one only after all of the first one was taken. -/
theorem write_append (s : Sink) (x y : ByteArray) :
    s.write (x ++ y) = if (s.write x).1 then (s.write x).2.write y else s.write x := by
  obtain ⟨_ | limit, taken⟩ := s
  · simp [write, room, ByteArray.append_assoc, -ByteArray.size_append]
  obtain h | h := Nat.lt_or_ge (limit - taken.size) x.size |>.symm
  · -- the first piece fits
    have hx : min x.size (limit - taken.size) = x.size := Nat.min_eq_left h
    have hxy : min (x.size + y.size) (limit - taken.size) =
        x.size + min y.size (limit - (taken.size + x.size)) := by omega
    simp [write, room, hx, hxy, ByteArray.extract_append, ByteArray.append_assoc,
      extract_eq_self]
  · have hx : min x.size (limit - taken.size) ≠ x.size := by omega
    have hxy : min (x.size + y.size) (limit - taken.size) = min x.size (limit - taken.size) := by
      omega
    have hxy' : min x.size (limit - taken.size) ≠ x.size + y.size := by omega
    have hy : min x.size (limit - taken.size) - x.size = 0 := by omega
    simp [write, room, hx, hxy, hxy', hy, ByteArray.extract_append]

end Sink

/-! ## Lines -/

/-- The bytes of some lines. -/
def Line.bytes (palette : Palette) (ls : List Line) : ByteArray :=
  ls.foldr (fun l rest => (l.render palette).toUTF8 ++ rest) .empty

theorem Line.bytes_append (palette : Palette) (ls ms : List Line) :
    bytes palette (ls ++ ms) = bytes palette ls ++ bytes palette ms := by
  induction ls with
  | nil => simp [bytes]
  | cons l ls ih => simp_all [bytes, ByteArray.append_assoc]

/-- Even an empty line ends with a line feed. -/
theorem Line.bytes_size_eq_zero {palette : Palette} {ls : List Line} :
    (bytes palette ls).size = 0 ↔ ls = [] := by
  cases ls with
  | nil => simp [bytes]
  | cons l ls =>
    simp [bytes, render, String.toByteArray_append]

namespace Reporter

/-- A reporter to a sink that has taken nothing yet. -/
def fresh (palette : Palette) (limit : Option Nat) : Reporter :=
  { palette, sink := { limit } }

/-- A reporter to a sink without a limit. -/
def unlimited (palette : Palette) (taken : ByteArray) : Reporter := ⟨palette, .unlimited taken⟩

/-- A reporter to a limited sink that was offered the given bytes. -/
def capped (limit : Nat) (palette : Palette) (offered : ByteArray) : Reporter :=
  ⟨palette, .capped limit offered⟩

theorem fresh_none (palette : Palette) : fresh palette none = unlimited palette .empty := rfl

theorem fresh_some (palette : Palette) (limit : Nat) :
    fresh palette (some limit) = capped limit palette .empty := by
  have hempty : ByteArray.empty.extract 0 limit = .empty := Sink.extract_eq_self (Nat.zero_le _)
  simp only [fresh, capped, Sink.capped, hempty]

end Reporter

namespace Print

/-- Writes bytes that depend on the palette at once. -/
def emit (bytes : Palette → ByteArray) : Print Unit := fun r =>
  match r.sink.write (bytes r.palette) with
  | (true, sink) => .ok () { r with sink }
  | (false, sink) => .error .full { r with sink }

theorem emit_seq (f g : Palette → ByteArray) :
    (do emit f; emit g) = emit fun p => f p ++ g p := by
  funext r
  show EStateM.bind (emit f) (fun _ => emit g) r = _
  simp only [EStateM.bind, emit, Sink.write_append]
  obtain ⟨fits, sink⟩ := r.sink.write (f r.palette)
  cases fits <;> rfl

/-- Stopping at the first line that does not fit is the same as writing all lines at once. -/
theorem lines_eq (ls : List Line) : lines ls = emit fun p => Line.bytes p ls := by
  induction ls with
  | nil =>
    funext r
    simp only [lines, emit, Line.bytes, List.foldr_nil, Sink.write_empty]
    rfl
  | cons l ls ih =>
    have hcons : lines (l :: ls) = (do line l; lines ls) := rfl
    rw [hcons, ih]
    exact emit_seq (fun p => (l.render p).toUTF8) _

theorem lines_singleton (l : Line) : lines [l] = line l := by
  rw [lines_eq]
  simp only [Line.bytes, List.foldr_cons, List.foldr_nil, ByteArray.append_empty]
  rfl

theorem lines_unlimited (ls : List Line) (palette : Palette) (taken : ByteArray) :
    lines ls (.unlimited palette taken) =
      .ok () (.unlimited palette (taken ++ Line.bytes palette ls)) := by
  simp [lines_eq, emit, Reporter.unlimited, Sink.write_unlimited]

theorem lines_capped (ls : List Line) (limit : Nat) (palette : Palette) (offered : ByteArray) :
    lines ls (.capped limit palette offered) =
      if Sink.Fits limit offered (Line.bytes palette ls) then
        .ok () (.capped limit palette (offered ++ Line.bytes palette ls))
      else .error .full (.capped limit palette (offered ++ Line.bytes palette ls)) := by
  simp only [lines_eq, emit, Reporter.capped, Sink.write_capped]
  by_cases h : Sink.Fits limit offered (Line.bytes palette ls)
  · rw [decide_eq_true h, if_pos h]
  · rw [decide_eq_false h, if_neg h]

end Print

/-! ## Operations -/

/-- What a reporter can be asked for. -/
inductive Operation where
  | heading (text : String)
  | result (label value : String)
  | timing (ns : Nat)
  | stats (s : AllocStats)
  | flush
  deriving Repr

namespace Operation

def perform : Operation → Print Unit
  | heading text => Print.heading text
  | result label value => Print.result label value
  | timing ns => Print.timing ns
  | stats s => Print.stats s
  | flush => Print.flush

/-- The lines that an operation writes. -/
def lines : Operation → List Line
  | heading text => [.heading text]
  | result label value => [.result label value]
  | timing ns => [.timing ns]
  | stats s => Line.stats s
  | flush => []

theorem perform_eq (op : Operation) : op.perform = Print.lines op.lines := by
  cases op with
  | stats s => rfl
  | flush => rfl
  | _ => exact (Print.lines_singleton _).symm

theorem lines_eq_nil {op : Operation} : op.lines = [] ↔ op = flush := by
  cases op <;> simp [lines, Line.stats]

end Operation

/-- An operation cannot be written. -/
def Operation.Fails (op : Operation) (r : Reporter) : Prop := ∃ e r', op.perform r = .error e r'

/-- The reporter after an operation, whether it failed or not. -/
def left : EStateM.Result WriteError Reporter Unit → Reporter
  | .ok _ r => r
  | .error _ r => r

/-- The reporter after operations in turn, going on after errors. -/
def performed (ops : List Operation) (r : Reporter) : Reporter :=
  ops.foldl (fun r op => left (op.perform r)) r

theorem performed_unlimited (ops : List Operation) (palette : Palette) (taken : ByteArray) :
    performed ops (.unlimited palette taken) =
      .unlimited palette (taken ++ Line.bytes palette (ops.flatMap Operation.lines)) := by
  induction ops generalizing taken with
  | nil => simp [performed, Line.bytes]
  | cons op ops ih =>
    show performed ops (left (op.perform _)) = _
    rw [op.perform_eq, Print.lines_unlimited, left, ih, List.flatMap_cons, Line.bytes_append,
      ByteArray.append_assoc]

theorem performed_capped (ops : List Operation) (limit : Nat) (palette : Palette)
    (offered : ByteArray) :
    performed ops (.capped limit palette offered) =
      .capped limit palette (offered ++ Line.bytes palette (ops.flatMap Operation.lines)) := by
  induction ops generalizing offered with
  | nil => simp [performed, Line.bytes]
  | cons op ops ih =>
    have hleft : left (op.perform (.capped limit palette offered)) =
        .capped limit palette (offered ++ Line.bytes palette op.lines) := by
      rw [op.perform_eq, Print.lines_capped]
      split <;> rfl
    show performed ops (left (op.perform _)) = _
    rw [hleft, ih, List.flatMap_cons, Line.bytes_append, ByteArray.append_assoc]

theorem written_performed (ops : List Operation) (limit : Nat) (palette : Palette) :
    let whole := (performed ops (.fresh palette none)).sink.written
    (performed ops (.fresh palette (some limit))).sink.written =
      whole.extract 0 (min limit whole.size) := by
  rw [Reporter.fresh_none, Reporter.fresh_some, performed_unlimited, performed_capped]
  exact (Sink.extract_min_size _ _).symm

/-- An operation fails if it has something to write and its end is beyond the limit. -/
theorem fails_performed_iff (ops : List Operation) (op : Operation) (limit : Nat)
    (palette : Palette) :
    op.Fails (performed ops (.fresh palette (some limit))) ↔
      op ≠ .flush ∧ limit < (performed (ops ++ [op]) (.fresh palette none)).sink.written.size := by
  rw [Reporter.fresh_none, Reporter.fresh_some, performed_unlimited, performed_capped,
    ByteArray.empty_append, ByteArray.empty_append, List.flatMap_append, List.flatMap_singleton,
    Line.bytes_append, Operation.Fails, op.perform_eq, Print.lines_capped]
  generalize Line.bytes palette (ops.flatMap Operation.lines) = before
  have hflush : (Line.bytes palette op.lines).size = 0 ↔ op = .flush :=
    Line.bytes_size_eq_zero.trans Operation.lines_eq_nil
  by_cases hfits : Sink.Fits limit before (Line.bytes palette op.lines)
  · rw [if_pos hfits]
    rw [Sink.Fits, hflush] at hfits
    simp only [reduceCtorEq, exists_false, false_iff, not_and, Nat.not_lt]
    exact fun hne => hfits.resolve_left hne
  · rw [if_neg hfits]
    rw [Sink.Fits, hflush, not_or, Nat.not_le] at hfits
    exact iff_of_true ⟨_, _, rfl⟩ hfits

end ChurchStore.Report
