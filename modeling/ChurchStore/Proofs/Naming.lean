import ChurchStore.Config
import Mathlib.Data.List.Forall2
import Mathlib.Tactic.Common

/-!
# Names of backends

A backend is asked for by one of its words, in which the case of ASCII letters does not matter, with
any white space around it. The words, the white space and the case of letters are spelled out here
on their own. Reading a name accepts exactly what they allow, and an error hands back the text as it
was given.
-/

namespace ChurchStore

namespace Text

/-! ## White space -/

/-- All code points with the property White_Space. -/
def whiteSpace : List Nat :=
  [0x9, 0xa, 0xb, 0xc, 0xd, 0x20, 0x85, 0xa0, 0x1680, 0x2000, 0x2001, 0x2002, 0x2003, 0x2004,
    0x2005, 0x2006, 0x2007, 0x2008, 0x2009, 0x200a, 0x2028, 0x2029, 0x202f, 0x205f, 0x3000]

/-- Nothing but white space. -/
def IsWhite (s : String) : Prop := ∀ c ∈ s.toList, c.toNat ∈ whiteSpace

instance (s : String) : Decidable (IsWhite s) :=
  List.decidableBAll (fun c : Char => c.toNat ∈ whiteSpace) s.toList

theorem isBlank_iff (c : Char) : isBlank c ↔ c.toNat ∈ whiteSpace := by
  simp [isBlank, blankRanges, whiteSpace]
  omega

theorem isWhite_iff (s : String) : IsWhite s ↔ ∀ c ∈ s.toList, isBlank c := by
  simp only [IsWhite, isBlank_iff]

theorem dropWhile_isBlank {cs : List Char} (h : ∀ c ∈ cs, isBlank c = false) :
    cs.dropWhile isBlank = cs := by
  cases cs with
  | nil => rfl
  | cons c cs => simp [h c (List.mem_cons_self ..)]

/-- White space around a text without any is dropped. -/
theorem trimBlank_append {u w v : List Char} (hu : ∀ c ∈ u, isBlank c) (hv : ∀ c ∈ v, isBlank c)
    (hw : ∀ c ∈ w, isBlank c = false) : trimBlank (u ++ w ++ v) = w := by
  have hback : (v.reverse ++ w.reverse).dropWhile isBlank = w.reverse := by
    rw [List.dropWhile_append_of_pos (by simpa using hv)]
    exact dropWhile_isBlank (by simpa using hw)
  cases w with
  | nil =>
    have hnone : (u ++ [] ++ v).dropWhile isBlank = [] := by
      have hall : ∀ c ∈ u ++ [] ++ v, isBlank c := by
        intro c hc
        simp only [List.append_nil, List.mem_append] at hc
        exact hc.elim (hu c) (hv c)
      simpa using @List.dropWhile_append_of_pos _ _ _ [] hall
    rw [trimBlank, hnone]
    rfl
  | cons c w =>
    have hfront : (u ++ c :: w ++ v).dropWhile isBlank = c :: w ++ v := by
      rw [List.append_assoc, List.dropWhile_append_of_pos hu, List.cons_append,
        List.dropWhile_cons_of_neg (by simp [hw c (List.mem_cons_self ..)])]
    rw [trimBlank, hfront, List.reverse_append, hback, List.reverse_reverse]

/-- What is dropped at the ends is white space. -/
theorem exists_eq_append_trimBlank (cs : List Char) :
    ∃ u v, cs = u ++ trimBlank cs ++ v ∧ (∀ c ∈ u, isBlank c) ∧ ∀ c ∈ v, isBlank c := by
  have hfront := List.takeWhile_append_dropWhile (p := isBlank) (l := cs)
  have hback := List.takeWhile_append_dropWhile (p := isBlank) (l := (cs.dropWhile isBlank).reverse)
  have hdropped (l : List Char) : ∀ c ∈ l.takeWhile isBlank, isBlank c :=
    List.all_eq_true.1 List.all_takeWhile
  refine ⟨cs.takeWhile isBlank, ((cs.dropWhile isBlank).reverse.takeWhile isBlank).reverse, ?_,
    hdropped cs, ?_⟩
  · rw [trimBlank, List.append_assoc, ← List.reverse_append, hback, List.reverse_reverse, hfront]
  · intro c hc
    exact hdropped _ c (List.mem_reverse.1 hc)

/-! ## The case of letters -/

/-- The same character, or the same ASCII letter in the other case. -/
def SameLetter (c d : Char) : Prop :=
  c = d ∨ ∃ i < 26,
    c.toNat = 0x41 + i ∧ d.toNat = 0x61 + i ∨ c.toNat = 0x61 + i ∧ d.toNat = 0x41 + i

/-- The same word but for the case of ASCII letters. -/
def SameWord (v w : String) : Prop := List.Forall₂ SameLetter v.toList w.toList

theorem toNat_toLower (c : Char) : c.toLower.toNat =
    if 0x41 ≤ c.toNat ∧ c.toNat ≤ 0x5a then c.toNat + 0x20 else c.toNat := by
  have hupper : (c.val ≥ 'A'.val ∧ c.val ≤ 'Z'.val) ↔ 0x41 ≤ c.toNat ∧ c.toNat ≤ 0x5a := by
    simp only [ge_iff_le, UInt32.le_iff_toNat_le]
    rfl
  unfold Char.toLower
  by_cases h : 0x41 ≤ c.toNat ∧ c.toNat ≤ 0x5a
  · rw [dif_pos (hupper.2 h), if_pos h]
    have hsum : (c.val + ('a'.val - 'A'.val)).toNat = (c.val.toNat + 0x20) % 2 ^ 32 :=
      UInt32.toNat_add ..
    have hval : c.val.toNat = c.toNat := rfl
    simp only [Char.toNat]
    omega
  · rw [dif_neg fun hc => h (hupper.1 hc), if_neg h]

/-- Lowering letters identifies no more than the two cases of each ASCII letter. -/
theorem toLower_eq_toLower_iff (c d : Char) : c.toLower = d.toLower ↔ SameLetter c d := by
  rw [← Char.toNat_inj, toNat_toLower, toNat_toLower, SameLetter, ← Char.toNat_inj]
  constructor
  · intro h
    by_cases hc : 0x41 ≤ c.toNat ∧ c.toNat ≤ 0x5a <;> by_cases hd : 0x41 ≤ d.toNat ∧ d.toNat ≤ 0x5a
    · simp only [hc, hd, and_self, if_true] at h
      omega
    · simp only [hc, hd, and_self, if_true, if_false] at h
      exact .inr ⟨c.toNat - 0x41, by omega, by omega⟩
    · simp only [hc, hd, and_self, if_true, if_false] at h
      exact .inr ⟨d.toNat - 0x41, by omega, by omega⟩
    · simp only [hc, hd, if_false] at h
      exact .inl h
  · rintro (h | ⟨i, hi, h | h⟩)
    · rw [h]
    · rw [if_pos (by omega), if_neg (by omega)]
      omega
    · rw [if_neg (by omega), if_pos (by omega)]
      omega

instance : DecidableRel SameLetter := fun c d =>
  decidable_of_iff _ (toLower_eq_toLower_iff c d)

instance (v w : String) : Decidable (SameWord v w) :=
  inferInstanceAs (Decidable (List.Forall₂ SameLetter v.toList w.toList))

/-- A text is read as a lower-case word exactly if it is that word but for the case of letters. -/
theorem map_toLower_eq_iff {cs ds : List Char} (hds : ∀ d ∈ ds, d.toLower = d) :
    cs.map Char.toLower = ds ↔ List.Forall₂ SameLetter cs ds := by
  induction cs generalizing ds with
  | nil => cases ds <;> simp
  | cons c cs ih =>
    cases ds with
    | nil => simp
    | cons d ds =>
      have hd : d.toLower = d := hds d (List.mem_cons_self ..)
      have hrest := ih fun e he => hds e (List.mem_cons_of_mem _ he)
      have hhead : c.toLower = d ↔ SameLetter c d := by
        rw [← toLower_eq_toLower_iff, hd]
      rw [List.map_cons, List.cons.injEq, List.forall₂_cons, hhead, hrest]

/-- White space has no case. -/
theorem SameLetter.eq_of_isBlank {c d : Char} (h : SameLetter c d) (hc : isBlank c) : d = c := by
  rw [isBlank_iff] at hc
  rcases h with rfl | ⟨i, hi, h | h⟩
  · rfl
  all_goals
    simp [whiteSpace] at hc
    omega

theorem isBlank_eq_false_of_forall₂ {cs ds : List Char} (h : List.Forall₂ SameLetter cs ds)
    (hds : ∀ d ∈ ds, isBlank d = false) : ∀ c ∈ cs, isBlank c = false := by
  induction h with
  | nil => simp
  | @cons c d cs ds hcd _ ih =>
    intro e he
    rcases List.mem_cons.1 he with rfl | he
    · by_contra hblank
      have hde := hcd.eq_of_isBlank (by simpa using hblank)
      exact hblank (hde ▸ hds d (List.mem_cons_self ..))
    · exact ih (fun x hx => hds x (List.mem_cons_of_mem _ hx)) e he

end Text

namespace BackendKind

/-! ## The words for each backend -/

/-- The words by which a backend can be asked for. -/
inductive Word : BackendKind → String → Prop
  | arena : Word .arena "arena"
  | refcounted : Word .refcounted "refcounted"
  | rc : Word .refcounted "rc"
  | pooled : Word .pooled "pooled"
  | pool : Word .pooled "pool"

variable {k : BackendKind} {s name : String}

theorem mem_all (k : BackendKind) : k ∈ all := by
  cases k <;> decide

theorem word_iff : k.Word name ↔ name ∈ k.spellings := by
  constructor
  · rintro (_ | _) <;> decide
  · cases k with
    | arena =>
      intro h
      rcases List.mem_singleton.1 h with rfl
      exact .arena
    | refcounted =>
      intro h
      rcases List.mem_pair.1 h with rfl | rfl
      · exact .refcounted
      · exact .rc
    | pooled =>
      intro h
      rcases List.mem_pair.1 h with rfl | rfl
      · exact .pooled
      · exact .pool

/-- A word asks for one backend only. -/
theorem Word.unique {j : BackendKind} (hk : k.Word name) (hj : j.Word name) : k = j := by
  rw [word_iff] at hj
  cases hk <;> cases j <;> simp [spellings] at hj ⊢

/-- The name that a backend is shown with can be read again. -/
theorem word_name (k : BackendKind) : k.Word k.name := by
  cases k <;> constructor

theorem Word.toLower_eq (h : k.Word name) : ∀ c ∈ name.toList, c.toLower = c := by
  cases h <;> simp

theorem Word.isBlank_eq_false (h : k.Word name) : ∀ c ∈ name.toList, Text.isBlank c = false := by
  cases h <;> simp <;> decide

/-! ## Reading a name -/

/-- A text that names a backend: one of its words in letters of either case, with any white space
on both sides. -/
def NamedBy (k : BackendKind) (s : String) : Prop :=
  ∃ u w v name, s = u ++ w ++ v ∧ Text.IsWhite u ∧ Text.IsWhite v ∧ k.Word name ∧
    Text.SameWord w name

/-- The lower-case word that a name is looked up by. -/
theorem ofString?_eq_some_iff :
    ofString? s = some k ↔
      k.Word (String.ofList ((Text.trimBlank s.toList).map Char.toLower)) := by
  rw [ofString?]
  constructor
  · intro h
    exact word_iff.2 (by simpa using List.find?_some h)
  · intro h
    have hfound : ∃ j ∈ all, j.spellings.contains
        (String.ofList ((Text.trimBlank s.toList).map Char.toLower)) :=
      ⟨k, mem_all k, by simpa using word_iff.1 h⟩
    obtain ⟨j, hj⟩ := Option.isSome_iff_exists.1 (List.find?_isSome.2 hfound)
    have hword : j.Word _ := word_iff.2 (by simpa using List.find?_some hj)
    rw [← hword.unique h]
    exact hj

theorem namedBy_iff :
    k.NamedBy s ↔ k.Word (String.ofList ((Text.trimBlank s.toList).map Char.toLower)) := by
  constructor
  · rintro ⟨u, w, v, name, rfl, hu, hv, hword, hsame⟩
    rw [Text.isWhite_iff] at hu hv
    have hinner := Text.isBlank_eq_false_of_forall₂ hsame hword.isBlank_eq_false
    rw [String.toList_append, String.toList_append, Text.trimBlank_append hu hv hinner,
      (Text.map_toLower_eq_iff hword.toLower_eq).2 hsame, String.ofList_toList]
    exact hword
  · intro h
    obtain ⟨u, v, hsplit, hu, hv⟩ := Text.exists_eq_append_trimBlank s.toList
    refine ⟨String.ofList u, String.ofList (Text.trimBlank s.toList), String.ofList v, _, ?_,
      (Text.isWhite_iff _).2 (by simpa using hu), (Text.isWhite_iff _).2 (by simpa using hv), h, ?_⟩
    · rw [← String.ofList_append, ← String.ofList_append, ← hsplit, String.ofList_toList]
    · have hlower := h.toLower_eq
      rw [String.toList_ofList] at hlower
      simpa [Text.SameWord] using (Text.map_toLower_eq_iff hlower).1 rfl

theorem ofString?_eq_some_iff_namedBy : ofString? s = some k ↔ k.NamedBy s :=
  ofString?_eq_some_iff.trans namedBy_iff.symm

theorem parse_eq_ok_iff : parse s = .ok k ↔ k.NamedBy s := by
  rw [← ofString?_eq_some_iff_namedBy, parse]
  cases ofString? s <;> simp

/-- A text that names no backend is handed back as it was given. -/
theorem parse_eq_error_iff (e : ConfigError) :
    parse s = .error e ↔ e = .unknownBackend s ∧ ∀ k : BackendKind, ¬ k.NamedBy s := by
  simp only [← ofString?_eq_some_iff_namedBy, parse]
  cases ofString? s with
  | none => simp [eq_comm]
  | some j => simp

/-- Reading a name accepts a text for a backend exactly if it is one of the backend's words, in
letters of either case, with white space on both sides. Any other text is an error that carries the
text itself. A backend is always found by the name that it is shown with. -/
theorem parse_grammar :
    (∀ s k, parse s = .ok k ↔ k.NamedBy s) ∧
      (∀ s e, parse s = .error e ↔ e = .unknownBackend s ∧ ∀ k : BackendKind, ¬ k.NamedBy s) ∧
      ∀ (k : BackendKind) (u w v : String), Text.IsWhite u → Text.IsWhite v →
        Text.SameWord w k.name → parse (u ++ w ++ v) = .ok k := by
  refine ⟨fun _ _ => parse_eq_ok_iff, fun _ => parse_eq_error_iff, ?_⟩
  intro k u w v hu hv hw
  exact parse_eq_ok_iff.2 ⟨u, w, v, k.name, rfl, hu, hv, word_name k, hw⟩

/-- White space may lie beyond ASCII, but it splits no word, and a letter is not replaced by one
that merely looks like it. -/
theorem parse_grammar_wide_spaces :
    Text.IsWhite "\u2003\u0085\t" ∧ Text.IsWhite "\u3000" ∧
      Text.SameWord "ReFcOuNtEd" BackendKind.refcounted.name ∧
      parse ("\u2003\u0085\t" ++ "ReFcOuNtEd" ++ "\u3000") = .ok .refcounted ∧
      parse "\u3000Po ol" = .error (.unknownBackend "\u3000Po ol") ∧
      ∀ k : BackendKind, ¬ k.NamedBy " \u0430rena" := by
  have hu : Text.IsWhite "\u2003\u0085\t" := by decide
  have hv : Text.IsWhite "\u3000" := by decide
  have hw : Text.SameWord "ReFcOuNtEd" BackendKind.refcounted.name := by decide
  have hcyrillic : parse " \u0430rena" = .error (.unknownBackend " \u0430rena") := by decide
  exact ⟨hu, hv, hw, parse_grammar.2.2 _ _ _ _ hu hv hw, by decide,
    ((parse_grammar.2.1 _ _).1 hcyrillic).2⟩

end BackendKind

end ChurchStore
