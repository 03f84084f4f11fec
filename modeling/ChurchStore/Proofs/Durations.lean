import ChurchStore.Proofs.Decimal
import ChurchStore.Text.Duration

/-!
# Durations in full

The line for a duration shows seconds, microseconds and nanoseconds in three fields. The fields are
described here on their own, without the numbers that fill them. Each duration has exactly one line
of this form from which it is read again, and every step towards the line stays within words of
128 bits if the duration is one.
-/

namespace ChurchStore.Text

/-! ## The fields of a line -/

/-- The fields of the line for a duration: a numeral for the seconds, six digits of microseconds
and three of nanoseconds. -/
@[ext]
structure TimeFields where
  seconds : String
  micros : String
  nanos : String
  seconds_numeral : IsNumeral seconds
  micros_column : IsColumn 6 micros
  nanos_column : IsColumn 3 nanos

namespace TimeFields

variable {f g : TimeFields}

def text (f : TimeFields) : String :=
  "nano_time = " ++ f.seconds ++ " sec " ++ f.micros ++ " " ++ f.nanos ++ " msec"

/-- The nanoseconds that the fields add up to. -/
def total (f : TimeFields) : Nat :=
  decimal f.seconds * 1000000000 + decimal f.micros * 1000 + decimal f.nanos

def ofNanos (ns : Nat) : TimeFields where
  seconds := toString (ns / nanosPerSecond)
  micros := zeroPadded 6 (ns % nanosPerSecond / 1000)
  nanos := zeroPadded 3 (ns % nanosPerSecond % 1000)
  seconds_numeral := isNumeral_toString _
  micros_column := isColumn_zeroPadded (by omega) (by unfold nanosPerSecond; omega)
  nanos_column := isColumn_zeroPadded (by omega) (by omega)

theorem text_ofNanos (ns : Nat) : (ofNanos ns).text = nanoTime ns := rfl

@[simp]
theorem total_ofNanos (ns : Nat) : (ofNanos ns).total = ns := by
  simp only [total, ofNanos, decimal_toString, decimal_zeroPadded, nanosPerSecond]
  omega

/-- Fields are the only ones that add up to their number. -/
theorem ofNanos_total (f : TimeFields) : ofNanos f.total = f := by
  have hmicros_lt := f.micros_column.decimal_lt
  have hnanos_lt := f.nanos_column.decimal_lt
  have hseconds : f.total / nanosPerSecond = decimal f.seconds := by
    unfold total nanosPerSecond
    omega
  have hrest : f.total % nanosPerSecond = decimal f.micros * 1000 + decimal f.nanos := by
    unfold total nanosPerSecond
    omega
  have hmicros : f.total % nanosPerSecond / 1000 = decimal f.micros := by omega
  have hnanos : f.total % nanosPerSecond % 1000 = decimal f.nanos := by omega
  ext1
  · simp only [ofNanos]
    rw [hseconds, f.seconds_numeral.toString_decimal]
  · simp only [ofNanos]
    rw [hmicros, f.micros_column.zeroPadded_decimal (by omega)]
  · simp only [ofNanos]
    rw [hnanos, f.nanos_column.zeroPadded_decimal (by omega)]

/-- A line is cut into its fields in one way only. -/
theorem eq_of_text_eq (h : f.text = g.text) : f = g := by
  -- `delta`, as the defining equation is checked by spelling out all the texts.
  delta text at h
  have hchars := congrArg String.toList h
  simp only [String.toList_append, List.append_assoc] at hchars
  obtain ⟨hseconds, hrest⟩ := append_blank_inj f.seconds_numeral.digits g.seconds_numeral.digits
    (List.append_cancel_left hchars)
  obtain ⟨hmicros, hrest⟩ := List.append_inj (List.append_cancel_left hrest)
    (f.micros_column.length_toList.trans g.micros_column.length_toList.symm)
  obtain ⟨hnanos, -⟩ := List.append_inj (List.append_cancel_left hrest)
    (f.nanos_column.length_toList.trans g.nanos_column.length_toList.symm)
  ext1
  · exact String.toList_inj.1 hseconds
  · exact String.toList_inj.1 hmicros
  · exact String.toList_inj.1 hnanos

/-- Fields make the line for a duration exactly if they add up to it. -/
theorem text_eq_nanoTime_iff (f : TimeFields) (ns : Nat) : f.text = nanoTime ns ↔ f.total = ns := by
  constructor
  · intro h
    rw [eq_of_text_eq (h.trans (text_ofNanos ns).symm), total_ofNanos]
  · intro h
    rw [← h, ← text_ofNanos, ofNanos_total]

end TimeFields

/-! ## In words of 128 bits -/

/-- The word for the result of a step, or none if the result lies below zero or beyond all words. -/
def wide? (z : Int) : Option (BitVec 128) :=
  if 0 ≤ z ∧ z.toNat < 2 ^ 128 then some (BitVec.ofNat 128 z.toNat) else none

/-- The seconds of a duration and the microseconds and nanoseconds beyond them, computed step by
step in words; none if a step leaves the words. -/
def wideFields? (ns : BitVec 128) : Option (BitVec 128 × BitVec 128 × BitVec 128) := do
  let seconds ← wide? (ns.toNat / nanosPerSecond)
  let whole ← wide? (seconds.toNat * nanosPerSecond)
  let rest ← wide? (ns.toNat - whole.toNat)
  let micros ← wide? (rest.toNat / 1000)
  let nanos ← wide? (rest.toNat % 1000)
  return (seconds, micros, nanos)

/-- The line for a duration that is computed in words. -/
def wideNanoTime? (ns : BitVec 128) : Option String := do
  let (seconds, micros, nanos) ← wideFields? ns
  return "nano_time = " ++ toString seconds.toNat ++ " sec " ++ zeroPadded 6 micros.toNat ++ " " ++
    zeroPadded 3 nanos.toNat ++ " msec"

theorem exists_wide? (z : Int) (n : Nat) (hz : z = n) (hn : n < 2 ^ 128) :
    ∃ w, wide? z = some w ∧ w.toNat = n := by
  have hrange : 0 ≤ z ∧ z.toNat < 2 ^ 128 := by omega
  refine ⟨BitVec.ofNat 128 z.toNat, if_pos hrange, ?_⟩
  rw [BitVec.toNat_ofNat, Nat.mod_eq_of_lt hrange.2, hz, Int.toNat_natCast]

/-- No step leaves the words. -/
theorem exists_wideFields? (ns : BitVec 128) :
    ∃ seconds micros nanos, wideFields? ns = some (seconds, micros, nanos) ∧
      seconds.toNat = ns.toNat / nanosPerSecond ∧
      micros.toNat = ns.toNat % nanosPerSecond / 1000 ∧
      nanos.toNat = ns.toNat % nanosPerSecond % 1000 := by
  have hns : ns.toNat < 2 ^ 128 := ns.isLt
  have hle : ns.toNat / nanosPerSecond ≤ ns.toNat := Nat.div_le_self ..
  have hsplit : ns.toNat / nanosPerSecond * nanosPerSecond + ns.toNat % nanosPerSecond = ns.toNat :=
    Nat.div_add_mod' ..
  obtain ⟨seconds, hseconds, hs⟩ := exists_wide? (ns.toNat / nanosPerSecond)
    (ns.toNat / nanosPerSecond) (by simp) (by omega)
  obtain ⟨whole, hwhole, hw⟩ := exists_wide? (seconds.toNat * nanosPerSecond)
    (ns.toNat / nanosPerSecond * nanosPerSecond) (by simp [hs]) (by omega)
  -- What is taken off is no more than what there is.
  obtain ⟨rest, hrest, hr⟩ := exists_wide? (ns.toNat - whole.toNat)
    (ns.toNat % nanosPerSecond) (by omega) (by omega)
  obtain ⟨micros, hmicros, hm⟩ := exists_wide? (rest.toNat / 1000)
    (ns.toNat % nanosPerSecond / 1000) (by omega) (by omega)
  obtain ⟨nanos, hnanos, hn⟩ := exists_wide? (rest.toNat % 1000)
    (ns.toNat % nanosPerSecond % 1000) (by omega) (by omega)
  refine ⟨seconds, micros, nanos, ?_, hs, hm, hn⟩
  -- Each step is replaced by its word before the next one: together they would be evaluated.
  rw [wideFields?, Option.bind_eq_bind, hseconds, Option.bind_some, hwhole, Option.bind_some, hrest,
    Option.bind_some, hmicros, Option.bind_some, hnanos, Option.bind_some, Option.pure_def]

/-- The line is the one for the duration. -/
theorem wideNanoTime?_eq (ns : BitVec 128) : wideNanoTime? ns = some (nanoTime ns.toNat) := by
  obtain ⟨seconds, micros, nanos, hfields, hs, hm, hn⟩ := exists_wideFields? ns
  simp only [wideNanoTime?, Option.bind_eq_bind, hfields, Option.bind_some, Option.pure_def]
  rw [hs, hm, hn]
  rfl

/-! ## Reading durations back -/

/-- The line for a duration is computed without leaving words of 128 bits. It consists of a numeral
for the seconds and of columns of six and three digits, and fields of this form stand in the line
exactly if they add up to the duration. Hence no two durations share a line. -/
theorem durations_read_back :
    (∀ ns : BitVec 128, wideNanoTime? ns = some (nanoTime ns.toNat)) ∧
      (∀ ns, ∃ f : TimeFields, f.text = nanoTime ns ∧ f.total = ns) ∧
      (∀ ns, ∀ f : TimeFields, f.text = nanoTime ns ↔ f.total = ns) ∧
      ∀ a b, nanoTime a = nanoTime b ↔ a = b := by
  refine ⟨wideNanoTime?_eq, ?_, ?_, ?_⟩
  · intro ns
    exact ⟨.ofNanos ns, TimeFields.text_ofNanos ns, TimeFields.total_ofNanos ns⟩
  · intro ns f
    exact f.text_eq_nanoTime_iff ns
  · intro a b
    rw [← TimeFields.text_ofNanos a, TimeFields.text_eq_nanoTime_iff, TimeFields.total_ofNanos]

/-- The longest duration that words hold. -/
example : nanoTime (2 ^ 128 - 1) =
    "nano_time = 340282366920938463463374607431 sec 768211 455 msec" := by
  decide +kernel

end ChurchStore.Text
