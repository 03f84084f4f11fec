import ChurchStore.Proofs.Decimal
import ChurchStore.Proofs.Report.Truncation

/-!
# Colours only decorate

Control sequences begin with an escape character, so what is left after deleting them can be told
piece by piece: text without that character stays, a sequence goes, and neither depends on what
follows. Each piece of a line is shown as its text between sequences, whatever the palette, so
deleting the sequences of a report leaves the report without styles.
-/

namespace ChurchStore.Report

/-! ## Control sequences -/

/-- The character with which control sequences begin. -/
def escape : Char := '\x1b'

/-- Text that begins no control sequence. -/
def Clear (s : String) : Prop := escape ∉ s.toList

instance (s : String) : Decidable (Clear s) := inferInstanceAs (Decidable (escape ∉ s.toList))

/-- Deletes control sequences, each from an escape character before a bracket to the first `m`. The
flag tells whether the text begins within a sequence. What never reaches an `m` is no sequence and
stays. -/
def dropSequences (within : Bool) : List Char → List Char
  | [] => []
  | c :: cs =>
    if within then dropSequences (c ≠ 'm') cs
    else if c = escape ∧ cs.head? = some '[' ∧ 'm' ∈ cs then dropSequences true cs
    else c :: dropSequences false cs

/-- The text without its control sequences. -/
def uncolored (s : String) : String := String.ofList (dropSequences false s.toList)

/-- A sequence is over at its first `m`. -/
theorem dropSequences_true_append {cs : List Char} (h : 'm' ∉ cs) (rest : List Char) :
    dropSequences true (cs ++ 'm' :: rest) = dropSequences false rest := by
  induction cs with
  | nil => simp [dropSequences]
  | cons c cs ih =>
    simp only [List.mem_cons, not_or] at h
    have hc : c ≠ 'm' := fun hcm => h.1 hcm.symm
    rw [List.cons_append, dropSequences, if_pos rfl, decide_eq_true hc]
    exact ih h.2

/-- Without its control sequences the first text is the second one, whatever follows. -/
def Shows (s t : String) : Prop :=
  ∀ rest, dropSequences false (s.toList ++ rest) = t.toList ++ dropSequences false rest

namespace Shows

variable {s t s' t' : String}

theorem append (h : Shows s t) (h' : Shows s' t') : Shows (s ++ s') (t ++ t') := by
  intro rest
  rw [String.toList_append, String.toList_append, List.append_assoc, List.append_assoc, h, h']

theorem empty : Shows "" "" := fun _ => rfl

theorem of_clear (h : Clear s) : Shows s s := by
  intro rest
  unfold Clear at h
  generalize s.toList = cs at h ⊢
  induction cs with
  | nil => rfl
  | cons c cs ih =>
    simp only [List.mem_cons, not_or] at h
    have hc : c ≠ escape := fun hce => h.1 hce.symm
    rw [List.cons_append, dropSequences, if_neg Bool.false_ne_true, if_neg fun hseq => hc hseq.1,
      ih h.2, List.cons_append]

theorem of_sequence {parameters : String} (h : 'm' ∉ parameters.toList) :
    Shows (Palette.sequence parameters) "" := by
  intro rest
  have hchars : (Palette.sequence parameters).toList ++ rest =
      escape :: (('[' :: parameters.toList) ++ 'm' :: rest) := by
    simp [Palette.sequence, escape]
  have hm : 'm' ∉ '[' :: parameters.toList := by simp [h]
  rw [hchars, dropSequences, if_neg Bool.false_ne_true, if_pos ⟨rfl, rfl, by simp⟩,
    dropSequences_true_append hm]
  rfl

theorem between {before after : String} (hb : Shows before "") (h : Shows s t)
    (ha : Shows after "") : Shows (before ++ s ++ after) t := by
  simpa using (hb.append h).append ha

theorem uncolored_eq (h : Shows s t) : uncolored s = t := by
  have hnil := h []
  rw [List.append_nil] at hnil
  rw [uncolored, hnil, dropSequences, List.append_nil, String.ofList_toList]

theorem join {α : Type} {f g : α → String} {as : List α} (h : ∀ a ∈ as, Shows (f a) (g a)) :
    Shows (String.join (as.map f)) (String.join (as.map g)) := by
  induction as with
  | nil => exact empty
  | cons a as ih =>
    rw [List.map_cons, List.map_cons, String.join_cons, String.join_cons]
    exact (h a (List.mem_cons_self ..)).append (ih fun b hb => h b (List.mem_cons_of_mem a hb))

end Shows

/-! ## Clear texts -/

namespace Clear

variable {s t : String}

theorem append (hs : Clear s) (ht : Clear t) : Clear (s ++ t) := by
  simp only [Clear, String.toList_append, List.mem_append, not_or] at *
  exact ⟨hs, ht⟩

theorem ofList {cs : List Char} (h : ∀ c ∈ cs, c ≠ escape) : Clear (String.ofList cs) := by
  intro hmem
  rw [String.toList_ofList] at hmem
  exact h _ hmem rfl

theorem of_isDecimal (h : Text.IsDecimal s) : Clear s := by
  intro hmem
  exact absurd (h escape hmem) (by decide)

theorem toString_nat (n : Nat) : Clear (toString n) := of_isDecimal (Text.isDecimal_toString n)

theorem toString_int (i : Int) : Clear (toString i) := by
  cases i with
  | ofNat n => exact toString_nat n
  | negSucc n => exact append (by decide) (toString_nat (n + 1))

theorem zeroPadded (width n : Nat) : Clear (Text.zeroPadded width n) :=
  of_isDecimal (Text.isDecimal_zeroPadded width n)

theorem blankPadded (width : Nat) (hs : Clear s) : Clear (Text.blankPadded width s) := by
  refine ofList fun c hc => ?_
  simp only [List.rightpad, List.mem_append, List.mem_replicate] at hc
  rcases hc with hc | ⟨-, rfl⟩
  · rintro rfl
    exact hs hc
  · decide

theorem nanoTime (ns : Nat) : Clear (Text.nanoTime ns) := by
  unfold Text.nanoTime
  have hseconds :=
    append (s := "nano_time = ") (by decide) (toString_nat (ns / Text.nanosPerSecond))
  have hmicros := zeroPadded 6 (ns % Text.nanosPerSecond / 1000)
  have hnanos := zeroPadded 3 (ns % Text.nanosPerSecond % 1000)
  exact ((((hseconds.append (by decide)).append hmicros).append (by decide)).append hnanos).append
    (by decide)

theorem kind_name (k : Kind) : Clear k.name := by
  cases k <;> decide

theorem join {ss : List String} (h : ∀ s ∈ ss, Clear s) : Clear (String.join ss) := by
  induction ss with
  | nil => decide
  | cons s ss ih =>
    rw [String.join_cons]
    exact (h s (List.mem_cons_self ..)).append (ih fun t ht => h t (List.mem_cons_of_mem s ht))

end Clear

/-! ## Pieces and lines -/

namespace Palette

theorem shows_color (p : Palette) (number : Nat) : Shows (p.color number) "" := by
  cases p with
  | plain => exact Shows.empty
  | colored =>
    refine .of_sequence fun hm => ?_
    rw [String.toList_append, List.mem_append] at hm
    rcases hm with hm | hm
    · revert hm
      decide
    · exact absurd (Text.isDecimal_toString number 'm' hm) (by decide)
  | monochrome => exact .of_sequence (by decide)

theorem shows_endColor (p : Palette) : Shows p.endColor "" := by
  cases p with
  | plain => exact Shows.empty
  | colored => exact .of_sequence (by decide)
  | monochrome => exact .of_sequence (by decide)

theorem shows_bold (p : Palette) : Shows p.bold "" := by
  cases p with
  | plain => exact Shows.empty
  | _ => exact .of_sequence (by decide)

theorem shows_endAll (p : Palette) : Shows p.endAll "" := by
  cases p with
  | plain => exact Shows.empty
  | _ => exact .of_sequence (by decide)

/-- A styled text is the text between control sequences. -/
theorem shows_styled (p : Palette) (style : Style) {text : String} (h : Clear text) :
    Shows (p.styled style text) text := by
  have htext := Shows.of_clear h
  cases style with
  | heading => exact p.shows_bold.between htext p.shows_endAll
  | label => exact (p.shows_color 14).between htext p.shows_endColor
  | value => exact ((p.shows_color 10).append p.shows_bold).between htext p.shows_endAll
  | timing => exact (p.shows_color 8).between htext p.shows_endColor

end Palette

theorem Piece.render_plain (piece : Piece) : piece.render .plain = piece.text := by
  obtain ⟨text, _ | style⟩ := piece
  · rfl
  · cases style <;> simp [Piece.render, Palette.styled, Palette.color, Palette.bold,
      Palette.endColor, Palette.endAll]

theorem Piece.shows {piece : Piece} (h : Clear piece.text) (p : Palette) :
    Shows (piece.render p) (piece.render .plain) := by
  rw [render_plain]
  obtain ⟨text, _ | style⟩ := piece
  · exact Shows.of_clear h
  · exact p.shows_styled style h

namespace Line

/-- A line whose texts begin no control sequence. -/
def Clear (l : Line) : Prop := ∀ piece ∈ l, Report.Clear piece.text

theorem Clear.shows {l : Line} (h : l.Clear) (p : Palette) :
    Shows (l.render p) (l.render .plain) :=
  (Shows.join fun piece hp => piece.shows (h piece hp) p).append (.of_clear (by decide))

theorem Clear.clear_render {l : Line} (h : l.Clear) : Report.Clear (l.render .plain) := by
  refine (Report.Clear.join fun s hs => ?_).append (by decide)
  obtain ⟨piece, hp, rfl⟩ := List.mem_map.1 hs
  rw [piece.render_plain]
  exact h piece hp

variable {text label value : String}

theorem clear_heading (h : Report.Clear text) : (heading text).Clear := by
  simpa [Clear, heading] using h

theorem clear_result (hl : Report.Clear label) (hv : Report.Clear value) :
    (result label value).Clear := by
  have hequals : Report.Clear " = " := by decide
  simpa [Clear, result] using ⟨hl, hequals, hv⟩

theorem clear_timing (ns : Nat) : (timing ns).Clear := by
  simpa [Clear, timing] using Report.Clear.nanoTime ns

theorem clear_plain (h : Report.Clear text) : (plain text).Clear := by
  simpa [Clear, plain] using h

/-- The table of counters is made of names and numbers. -/
theorem clear_stats (s : AllocStats) : ∀ l ∈ stats s, l.Clear := by
  have htwo {first second : String} (h : Report.Clear first) (h' : Report.Clear second)
      (n n' : Nat) : Report.Clear (first ++ toString n ++ second ++ toString n') :=
    ((h.append (.toString_nat n)).append h').append (.toString_nat n')
  have hif {b : Prop} [Decidable b] {l : Line} (h : l.Clear) :
      ∀ l' ∈ if b then [l] else [], l'.Clear := by
    split <;> simp [h]
  unfold stats
  rw [List.forall_mem_append, List.forall_mem_append, List.forall_mem_append, List.forall_mem_cons,
    List.forall_mem_map]
  refine ⟨⟨⟨⟨clear_heading (by decide), fun k _ => ?_⟩, ?_⟩, hif ?_⟩, hif ?_⟩
  · exact clear_plain ((Report.Clear.blankPadded 8 (.kind_name k)).append
      (htwo (by decide) (by decide) _ _))
  · simp only [List.mem_singleton, forall_eq]
    exact clear_plain (((htwo (by decide) (by decide) _ _).append (by decide)).append
      (.toString_nat _))
  · exact clear_plain (htwo (by decide) (by decide) _ _)
  · exact clear_plain (htwo (by decide) (by decide) _ _)

/-- The bytes of lines are those of one text. -/
theorem bytes_eq (p : Palette) (ls : List Line) :
    bytes p ls = (String.join (ls.map (render p))).toUTF8 := by
  induction ls with
  | nil => rfl
  | cons l ls ih =>
    have hcons : bytes p (l :: ls) = (l.render p).toUTF8 ++ bytes p ls := rfl
    rw [hcons, ih, List.map_cons, String.join_cons]
    exact String.toByteArray_append.symm

/-- The bytes of lines on a palette are those of one text, which without its control sequences is
the text of the same lines without styles. -/
theorem exists_text (p : Palette) {ls : List Line} (h : ∀ l ∈ ls, l.Clear) :
    ∃ text, bytes p ls = text.toUTF8 ∧ bytes .plain ls = (uncolored text).toUTF8 ∧
      Report.Clear (uncolored text) := by
  refine ⟨String.join (ls.map (render p)), bytes_eq p ls, ?_⟩
  have hshows := Shows.join fun l hl => (h l hl).shows p
  rw [hshows.uncolored_eq]
  refine ⟨bytes_eq .plain ls, .join fun s hs => ?_⟩
  obtain ⟨l, hl, rfl⟩ := List.mem_map.1 hs
  exact (h l hl).clear_render

end Line

/-! ## Operations -/

/-- An operation whose texts begin no control sequence. -/
def Operation.Clear : Operation → Prop
  | heading text => Report.Clear text
  | result label value => Report.Clear label ∧ Report.Clear value
  | timing _ | stats _ | flush => True

instance (op : Operation) : Decidable op.Clear :=
  match op with
  | .heading text => inferInstanceAs (Decidable (Report.Clear text))
  | .result label value => inferInstanceAs (Decidable (Report.Clear label ∧ Report.Clear value))
  | .timing _ | .stats _ | .flush => inferInstanceAs (Decidable True)

theorem Operation.Clear.lines {op : Operation} (h : op.Clear) : ∀ l ∈ op.lines, l.Clear := by
  cases op with
  | heading text => simpa [Operation.lines] using Line.clear_heading h
  | result label value => simpa [Operation.lines] using Line.clear_result h.1 h.2
  | timing ns => simpa [Operation.lines] using Line.clear_timing ns
  | stats s => exact Line.clear_stats s
  | flush => simp [Operation.lines]

theorem performed_colored {ops : List Operation} (h : ∀ op ∈ ops, op.Clear) (p : Palette) :
    ∃ text : String, (performed ops (.fresh p none)).sink.written = text.toUTF8 ∧
      (performed ops (.fresh .plain none)).sink.written = (uncolored text).toUTF8 ∧
      Clear (uncolored text) := by
  have hlines : ∀ l ∈ ops.flatMap Operation.lines, l.Clear := by
    intro l hl
    obtain ⟨op, hop, hl⟩ := List.mem_flatMap.1 hl
    exact (h op hop).lines l hl
  simp only [Reporter.fresh_none, performed_unlimited, ByteArray.empty_append]
  exact Line.exists_text p hlines

end ChurchStore.Report
