import ChurchStore.Proofs.Demo.Output
import ChurchStore.Proofs.Report.Coloring

/-!
# The text of a demo

What a whole demo leaves in a sink without a limit, in plain text: the heading, the lines of its
workload and the counters if they are asked for. It is the same on all stores, but for the name of
the store and the counters.
-/

namespace ChurchStore

open Report

/-- The text of a line, whatever the styles of its pieces. -/
def Report.Line.text (l : Line) : String := String.join (l.map (·.text))

/-- The bytes of lines of text. -/
def Report.page (texts : List String) : ByteArray := (String.join (texts.map (· ++ "\n"))).toUTF8

theorem Report.Line.bytes_plain (ls : List Line) :
    Line.bytes .plain ls = page (ls.map Line.text) := by
  have hrender (l : Line) : l.render .plain = l.text ++ "\n" := by
    rw [render, funext Piece.render_plain, text]
  rw [bytes_eq, page, List.map_map]
  congr 2
  exact List.map_congr_left fun l _ => hrender l

/-! ### Lines -/

theorem Report.Line.text_plain (t : String) : (Line.plain t).text = t := by
  rw [text, plain, List.map_cons, List.map_nil, String.join_cons, String.join_nil,
    String.append_empty]

theorem Report.Line.text_heading (t : String) : (heading t).text = t := by
  rw [text, heading, List.map_cons, List.map_nil, String.join_cons, String.join_nil,
    String.append_empty]

theorem Report.Line.text_result (label value : String) :
    (result label value).text = label ++ " = " ++ value := by
  simp only [text, result, List.map_cons, List.map_nil, String.join_cons, String.join_nil,
    String.append_empty, String.append_assoc]

theorem Report.Line.text_timing (ns : Nat) : (timing ns).text = Text.nanoTime ns := by
  simp only [text, timing, List.map_cons, List.map_nil, String.join_cons, String.join_nil,
    String.append_empty]

/-- The text of the table of counters: a heading, a row for each kind with the names in a column of
eight characters, the totals, and then the size of an arena that has blocks and of a pool that has
slots. -/
def Report.statsTexts (s : AllocStats) : List String :=
  ["MEMORY USAGE:",
    s!"Zero     alloc={(s.kind .zero).alloc}, free={(s.kind .zero).free}",
    s!"Zero.Z   alloc={(s.kind .zeroInner).alloc}, free={(s.kind .zeroInner).free}",
    s!"Succ     alloc={(s.kind .succ).alloc}, free={(s.kind .succ).free}",
    s!"Succ.S   alloc={(s.kind .succPartial).alloc}, free={(s.kind .succPartial).free}",
    s!"Succ.S.Z alloc={(s.kind .succInner).alloc}, free={(s.kind .succInner).free}",
    s!"Int      alloc={(s.kind .intLiteral).alloc}, free={(s.kind .intLiteral).free}",
    s!"Inc      alloc={(s.kind .inc).alloc}, free={(s.kind .inc).free}",
    s!"total    alloc={s.allocated}, free={s.freed}, live={s.live}"] ++
  (if s.blocks = 0 then [] else [s!"arena    blocks={s.blocks}, bytes={s.bytes}"]) ++
  (if s.slots = 0 then [] else [s!"pool     slots={s.slots}, reused={s.reused}"])

theorem Report.Line.map_text_stats (s : AllocStats) : (stats s).map text = statsTexts s := by
  have hnames : Kind.all.map (fun k => Text.blankPadded 8 k.name) =
      ["Zero    ", "Zero.Z  ", "Succ    ", "Succ.S  ", "Succ.S.Z", "Int     ", "Inc     "] := by
    decide +kernel
  have hoptional (n : Nat) (t : String) :
      (if n > 0 then [plain t] else []).map text = if n = 0 then [] else [t] := by
    split <;> split <;> first | omega | simp only [List.map_cons, List.map_nil, text_plain]
  simp only [Kind.all, List.map_cons, List.map_nil, List.cons.injEq, and_true] at hnames
  obtain ⟨hzero, hzeroInner, hsucc, hsuccPartial, hsuccInner, hint, hinc⟩ := hnames
  simp only [stats, List.map_append, hoptional, List.map_cons, text_heading, Kind.all,
    List.map_nil, text_plain, hzero, hzeroInner, hsucc, hsuccPartial, hsuccInner, hint, hinc]
  rfl

/-! ### A demo as lines -/

namespace Demo

variable {W H : Type} [Host W H]

/-- The line that tells the kind of the store. -/
def headingLine (W : Type) {H : Type} [Host W H] : Line :=
  .heading ("Lambda Calc Demo (backend: " ++ (Backend.kind W).name ++ ")")

/-- The lines of the counters, if they are asked for. -/
def closingLines (e : Evaluator H) (options : DemoOptions) (w : W) : List Line :=
  if options.stats then Line.stats (Backend.stats e.site w) else []

theorem run_fold {options : DemoOptions} (h : options.workload = .fold) (e : Evaluator H)
    (clock : Nat → Nat) : (run e options clock : Scene W Unit) = (do
      opening
      folds e options.numeralCount
      closing e options) := by
  unfold run
  rw [h]

theorem run_selfPower {options : DemoOptions} {k : Nat} (h : options.workload = .selfPower k)
    (e : Evaluator H) (clock : Nat → Nat) : (run e options clock : Scene W Unit) = (do
      opening
      selfPower e clock k options.repeatCount
      closing e options) := by
  unfold run
  rw [h]

theorem closing_unlimited (e : Evaluator H) (options : DemoOptions) (m : Machine W)
    (palette : Palette) (taken : ByteArray) :
    closing e options ⟨m, .unlimited palette taken⟩ =
      .ok () ⟨m, .unlimited palette
        (taken ++ Line.bytes palette (closingLines e options m.store))⟩ := by
  unfold closing closingLines
  split
  · simp only [Bind.bind, EStateM.bind, Scene.act, Act.read, Scene.print, Print.stats,
      Print.lines_unlimited]
    rfl
  · simp only [Line.bytes, List.foldr_nil, ByteArray.append_empty]
    rfl

variable {V G : Type} [Host V G] {S : Simulation W V} {lent : Multiset (H × G)} {m : Machine W}
  {n : Machine V} {body : Scene W Unit} {ls : List Line}

theorem opening_fresh (m : Machine W) (palette : Palette) :
    (opening : Scene W Unit) ⟨m, .fresh palette none⟩ =
      .ok () ⟨m, .unlimited palette (Line.bytes palette [headingLine W])⟩ := by
  rw [Reporter.fresh_none, ← ByteArray.empty_append (b := Line.bytes palette [headingLine W])]
  simp only [opening, Scene.print, Print.heading, ← Print.lines_singleton, Print.lines_unlimited]
  rfl

theorem ok_of_reports (hbody : S.Reports 0 lent body ls fun _ given => given = 0)
    (hmn : S.Holds lent m n) (e : Evaluator H) (options : DemoOptions) (palette : Palette) :
    ∃ stage : Stage W, (do opening; body; closing e options) ⟨m, .fresh palette none⟩ =
        .ok () stage ∧
      stage.reporter = .unlimited palette (Line.bytes palette
        (headingLine W :: ls ++ closingLines e options stage.machine.store)) := by
  obtain ⟨_, m', n', _, hrun, rfl, -⟩ := hbody m n palette (Line.bytes palette [headingLine W])
    (by rwa [Multiset.zero_add])
  refine ⟨⟨m', .unlimited palette (Line.bytes palette ([headingLine W] ++ ls ++
    closingLines e options m'.store))⟩, ?_, rfl⟩
  rw [Line.bytes_append, Line.bytes_append]
  simp only [Bind.bind, EStateM.bind, opening_fresh, hrun, closing_unlimited]

theorem error_of_breaks {f : Fault} (hbody : S.Breaks 0 lent body ls f) (hmn : S.Holds lent m n)
    (e : Evaluator H) (options : DemoOptions) (palette : Palette) :
    ∃ stage : Stage W, (do opening; body; closing e options) ⟨m, .fresh palette none⟩ =
        .error (.fault f) stage ∧
      stage.reporter = .unlimited palette (Line.bytes palette (headingLine W :: ls)) := by
  obtain ⟨m', hrun⟩ := hbody m n palette (Line.bytes palette [headingLine W])
    (by rwa [Multiset.zero_add])
  refine ⟨⟨m', .unlimited palette (Line.bytes palette ([headingLine W] ++ ls))⟩, ?_, rfl⟩
  rw [Line.bytes_append]
  simp only [Bind.bind, EStateM.bind, opening_fresh, hrun]

/-! ### In plain text -/

/-- The text of the heading. -/
def headingText (W : Type) {H : Type} [Host W H] : String :=
  "Lambda Calc Demo (backend: " ++ (Backend.kind W).name ++ ")"

/-- The text of the folding demo. -/
def foldTexts (count : Nat) : List String :=
  (List.range count).map (fun i => s!"(num#{i} inc 0) = {i}") ++
    ["N2^N3 = 8", "N3^N2 = 9", "N5^N2 = 25", "N2^N5 = 32", "N9+N5 = 14", "N9*N5 = 45"]

/-- The text of the attempts of a self power. -/
def attemptTexts (clock : Nat → Nat) (k repeatCount : Nat) : List String :=
  (List.range repeatCount).flatMap fun i =>
    [(if repeatCount > 1 then s!"Attempt #{i} " else "") ++ s!"N{k}^N{k} = {k ^ k}",
      Text.nanoTime (clock i)]

/-- The text of the counters of an evaluator's store, if they are asked for. -/
def closingTexts (e : Evaluator H) (options : DemoOptions) (w : W) : List String :=
  if options.stats then statsTexts (Backend.stats e.site w) else []

theorem text_headingLine : (headingLine W).text = headingText W := Line.text_heading _

theorem map_text_closingLines (e : Evaluator H) (options : DemoOptions) (w : W) :
    (closingLines e options w).map Line.text = closingTexts e options w := by
  unfold closingLines closingTexts
  split
  · exact Line.map_text_stats _
  · rfl

theorem map_text_foldLines (count : Nat) : (foldLines count).map Line.text = foldTexts count := by
  have hentry (i : Nat) :
      (Line.result s!"(num#{i} inc 0)" (toString i)).text = s!"(num#{i} inc 0) = {i}" := by
    have hsplit : " inc 0) = " = " inc 0)" ++ " = " := rfl
    rw [Line.text_result, hsplit]
    simp only [String.append_assoc]
    rfl
  rw [foldLines, foldTexts, List.map_append, List.map_map]
  congr 1
  exact List.map_congr_left fun i _ => hentry i

theorem map_text_attemptLines (clock : Nat → Nat) (k repeatCount : Nat) :
    (attemptLines clock k repeatCount repeatCount 0).map Line.text =
      attemptTexts clock k repeatCount := by
  rw [attemptLines, attemptTexts, List.map_flatMap, List.range_eq_range']
  refine List.flatMap_congr fun i _ => ?_
  have hlabel : attemptLabel k repeatCount i ++ " = " ++ toString (k ^ k) =
      (if repeatCount > 1 then s!"Attempt #{i} " else "") ++ s!"N{k}^N{k} = {k ^ k}" := by
    unfold attemptLabel
    split <;> simp only [String.append_assoc, String.empty_append] <;> rfl
  rw [List.map_cons, List.map_cons, List.map_nil, Line.text_result, Line.text_timing,
    hlabel]

/-- With every large enough bound on nesting the demo finishes, and has written the heading, the
given text and the counters if they are asked for. -/
def Writes (e : Evaluator H) (m : Machine W) (options : DemoOptions) (clock : Nat → Nat)
    (texts : List String) : Prop :=
  ∃ depth, ∀ d, depth ≤ d → ∃ stage : Stage W,
    run (e.nestedTo d) options clock ⟨m, .fresh .plain none⟩ = .ok () stage ∧
      stage.reporter.sink.written =
        page (headingText W :: texts ++ closingTexts e options stage.machine.store)

/-- With every large enough bound on nesting the demo stops because an integer has become too large,
and has written no more than the heading. -/
def Overflows (e : Evaluator H) (m : Machine W) (options : DemoOptions) (clock : Nat → Nat) :
    Prop :=
  ∃ depth, ∀ d, depth ≤ d → ∃ stage : Stage W,
    run (e.nestedTo d) options clock ⟨m, .fresh .plain none⟩ =
        .error (.fault (.violation (.integerOverflow .maxValue))) stage ∧
      stage.reporter.sink.written = page [headingText W]

end Demo

/-- What the demos of an evaluator write: the indices, powers, sums and products, whether the
operands are in the table or not; and the self power as often as asked with its times, if it fits
into an integer. -/
structure Evaluator.Demonstrates {W H : Type} [Host W H] (e : Evaluator H) (m : Machine W) :
    Prop where
  fold {options : DemoOptions} (clock : Nat → Nat) : options.workload = .fold →
    options.numeralCount * Backend.handleBytes W < reservationBound →
    Demo.Writes e m options clock (Demo.foldTexts options.numeralCount)
  selfPower {options : DemoOptions} {k : Nat} (clock : Nat → Nat) :
    options.workload = .selfPower k → ↑(k ^ k) ≤ Int64.maxValue.toInt →
    Demo.Writes e m options clock (Demo.attemptTexts clock k options.repeatCount)
  overflow {options : DemoOptions} {k : Nat} (clock : Nat → Nat) :
    options.workload = .selfPower k → Int64.maxValue.toInt < ↑(k ^ k) →
    1 ≤ options.repeatCount → Demo.Overflows e m options clock

namespace Representation

variable {W H : Type} [Host W H] {b : Nat} {R : Representation W} {hb : Backend.handleBytes W = b}
  {resets : List Nat} {e : Evaluator H} {d : Evaluator Tree} {held : Multiset (H × Tree)}
  {m : Machine W} {n : Machine (Grove b)}

theorem AtWork.reckons (h : R.AtWork hb resets e d held m n) (length : Nat) :
    ∃ depth, ∀ i, depth ≤ i → R.Reckons resets d length i := by
  obtain ⟨depth, hdepth⟩ := Filter.eventually_atTop.1
    (Bare.eventually_reckons ⟨.ofNat resets.length⟩ length)
  exact ⟨depth, fun i hi => ⟨h.fits, h.ready, hdepth i hi⟩⟩

theorem AtWork.demonstrates (h : R.AtWork hb resets e d held m n) : e.Demonstrates m := by
  have htexts {stage : Stage W} {options : DemoOptions} {ls : List Line}
      (hr : stage.reporter = .unlimited .plain (Line.bytes .plain
        (Demo.headingLine W :: ls ++ Demo.closingLines e options stage.machine.store))) :
      stage.reporter.sink.written = page (Demo.headingText W :: ls.map Line.text ++
        Demo.closingTexts e options stage.machine.store) := by
    rw [hr, Line.bytes_plain, List.map_append, List.map_cons, Demo.text_headingLine,
      Demo.map_text_closingLines]
    rfl
  constructor
  case fold =>
    intro options clock hfold hbytes
    have hcount : (options.numeralCount : Int) ≤ Int64.maxValue.toInt := by
      have hle := Nat.le_mul_of_pos_right options.numeralCount h.handleBytes_pos
      have hbound : (reservationBound : Int) = Int64.maxValue.toInt + 1 := by decide
      omega
    obtain ⟨depth, hdepth⟩ := h.reckons (max options.numeralCount 45)
    refine ⟨depth, fun i hi => ?_⟩
    obtain ⟨stage, hrun, hr⟩ := Demo.ok_of_reports ((hdepth i hi).reports_folds h.serves
      (Nat.le_max_left ..) (Nat.le_max_right ..) hbytes hcount) h.holds (e.nestedTo i) options
      .plain
    refine ⟨stage, ?_, ?_⟩
    · rw [Demo.run_fold hfold]
      exact hrun
    · rw [htexts hr, Demo.map_text_foldLines]
  case selfPower =>
    intro options k clock hpower hmax
    obtain ⟨depth, hdepth⟩ := h.reckons k
    refine ⟨depth, fun i hi => ?_⟩
    obtain ⟨stage, hrun, hr⟩ := Demo.ok_of_reports ((hdepth i hi).reports_selfPower h.serves
      clock k options.repeatCount (Nat.le_refl k) hmax) h.holds (e.nestedTo i) options .plain
    refine ⟨stage, ?_, ?_⟩
    · rw [Demo.run_selfPower hpower]
      exact hrun
    · rw [htexts hr, Demo.map_text_attemptLines]
  case overflow =>
    intro options k clock hpower hmax hrepeat
    obtain ⟨depth, hdepth⟩ := h.reckons k
    refine ⟨depth, fun i hi => ?_⟩
    obtain ⟨stage, hrun, hr⟩ := Demo.error_of_breaks ((hdepth i hi).breaks_selfPower h.serves
      clock k options.repeatCount (Nat.le_refl k) hmax hrepeat) h.holds (e.nestedTo i) options
      .plain
    refine ⟨stage, ?_, ?_⟩
    · rw [Demo.run_selfPower hpower]
      exact hrun
    · rw [hr, Line.bytes_plain, List.map_cons, List.map_nil, Demo.text_headingLine]
      rfl

end Representation

/-- After every run of operations on any of the stores, demos write what they should; an arena has
to have room for every closure, and may also have been reset less often than there are epochs. They
do so wherever evaluators go on alone, too, whatever sessions have done before. -/
theorem demos_write_results (filter : Log.Filter) (limits : Limits)
    (commands : List Session.Command) :
    (Closure.maxFootprint ≤ limits.blockCapacity →
        (∀ command ∈ commands, command.isOperation = true ∨ command.isReset = true) →
        commands.countP (·.isReset) < UInt32.size →
        ((Session.opened Arenas filter limits).after commands).Has Evaluator.Demonstrates) ∧
      ((∀ command ∈ commands, command.isOperation = true) →
        ((Session.opened SharedHeap filter limits).after commands).Has Evaluator.Demonstrates ∧
          ((Session.opened Pools filter limits).after commands).Has Evaluator.Demonstrates ∧
          Session.Resumed filter commands fun _ s => s.Has Evaluator.Demonstrates) := by
  obtain ⟨harena, hstores⟩ :=
    stores_have Evaluator.Demonstrates (fun h => h.demonstrates) filter limits commands
  refine ⟨harena, fun hc => ?_⟩
  obtain ⟨hheap, hpool⟩ := hstores hc
  exact ⟨hheap, hpool, resumed_hasHeld (fun _ e _ m => e.Demonstrates m)
    (fun _ h => h.demonstrates) hc⟩

/-- An arena that has been reset while a numeral was held, a pool on which `16 ^ 16` is too large,
and the second of two evaluators on the heap, of which the first one was given a handle and ended.
-/
theorem demos_write_results_reset :
    (∃ e, ((Session.opened Arenas .off { blockCapacity := 24 }).after
        [.numeral 2 "n", .reset]).seats[0]? = some ⟨e, true⟩ ∧
      Demo.Writes e ((Session.opened Arenas .off { blockCapacity := 24 }).after
        [.numeral 2 "n", .reset]).machine { numeralCount := 3, stats := true } (fun _ => 0)
        ["(num#0 inc 0) = 0", "(num#1 inc 0) = 1", "(num#2 inc 0) = 2", "N2^N3 = 8", "N3^N2 = 9",
          "N5^N2 = 25", "N2^N5 = 32", "N9+N5 = 14", "N9*N5 = 45"]) ∧
    ∃ e, ((Session.opened Pools .off {}).after [.int 5 "i"]).seats[0]? = some ⟨e, true⟩ ∧
      Demo.Writes e ((Session.opened Pools .off {}).after [.int 5 "i"]).machine
        { workload := .selfPower 15, repeatCount := 2 } (fun _ => 1500)
        ["Attempt #0 N15^N15 = 437893890380859375", "nano_time = 0 sec 000001 500 msec",
          "Attempt #1 N15^N15 = 437893890380859375", "nano_time = 0 sec 000001 500 msec"] ∧
      Demo.Overflows e ((Session.opened Pools .off {}).after [.int 5 "i"]).machine
        { workload := .selfPower 16 } (fun _ => 0) ∧
      let turns : List (Nat × Session.Command) := [(0, .new {}), (0, .new {}),
        (1, .numeral 2 "n"), (0, .successor "n" "p"), (0, .close)]
      let s : Session SharedHeap NodeRef := (Session.start .off).afterTurns turns
      ∃ d, s.seats[1]? = some ⟨d, true⟩ ∧
        ((Session.resume d s.machine).after [.int 5 "i"]).Has Evaluator.Demonstrates := by
  constructor
  · have hopen : (((Session.opened Arenas .off { blockCapacity := 24 }).after
        [.numeral 2 "n", .reset]).seats[0]?).map (·.isOpen) = some true := by
      decide +kernel
    obtain ⟨⟨e, o⟩, he, rfl⟩ := Option.map_eq_some_iff.1 hopen
    have h := (demos_write_results .off { blockCapacity := 24 } [.numeral 2 "n", .reset]).1
      (by decide) (by decide) (by decide) e he
    have htexts : Demo.foldTexts 3 = ["(num#0 inc 0) = 0", "(num#1 inc 0) = 1",
        "(num#2 inc 0) = 2", "N2^N3 = 8", "N3^N2 = 9", "N5^N2 = 25", "N2^N5 = 32", "N9+N5 = 14",
        "N9*N5 = 45"] := by
      decide +kernel
    rw [← htexts]
    exact ⟨e, he, h.fold _ rfl (by decide)⟩
  · have hopen : (((Session.opened Pools .off {}).after [.int 5 "i"]).seats[0]?).map
        (·.isOpen) = some true := by
      decide +kernel
    obtain ⟨⟨e, o⟩, he, rfl⟩ := Option.map_eq_some_iff.1 hopen
    obtain ⟨-, hpool, hresumed⟩ := (demos_write_results .off {} [.int 5 "i"]).2 (by decide)
    have h := hpool e he
    have htexts : Demo.attemptTexts (fun _ => 1500) 15 2 =
        ["Attempt #0 N15^N15 = 437893890380859375", "nano_time = 0 sec 000001 500 msec",
          "Attempt #1 N15^N15 = 437893890380859375", "nano_time = 0 sec 000001 500 msec"] := by
      decide +kernel
    rw [← htexts]
    refine ⟨e, he, h.selfPower _ rfl (by decide), h.overflow _ rfl (by decide) (by decide), ?_⟩
    intro turns s
    have hopen : s.seats[1]?.map (·.isOpen) = some true := by decide +kernel
    clear_value turns
    obtain ⟨⟨d, o⟩, hd, rfl⟩ := Option.map_eq_some_iff.1 hopen
    exact ⟨d, hd, (hresumed turns 1).2.1 d hd⟩

end ChurchStore
