/-!
# Kinds of closure

The seven kinds of closure in their fixed order, and tables that hold one entry for each kind.
A table is read through `PerKind.get`: two tables with the same entries are equal, and setting
one entry leaves the others alone.
-/

namespace ChurchStore

/-- The seven kinds of closure (`Kind`). -/
inductive Kind where
  | zero
  | zeroInner
  | succ
  | succPartial
  | succInner
  | intLiteral
  | inc
  deriving DecidableEq, Repr, Inhabited

namespace Kind

/-- Every kind, in the order in which kinds are listed and numbered (`Kind`'s `ALL`). -/
def all : List Kind :=
  [.zero, .zeroInner, .succ, .succPartial, .succInner, .intLiteral, .inc]

/-- The name of a kind in reports and messages (`Kind`'s `name`). -/
def name : Kind → String
  | .zero => "Zero"
  | .zeroInner => "Zero.Z"
  | .succ => "Succ"
  | .succPartial => "Succ.S"
  | .succInner => "Succ.S.Z"
  | .intLiteral => "Int"
  | .inc => "Inc"

/-- The position of a kind in `Kind.all` (`Kind`'s `index`). -/
def index : Kind → Fin 7
  | .zero => 0
  | .zeroInner => 1
  | .succ => 2
  | .succPartial => 3
  | .succInner => 4
  | .intLiteral => 5
  | .inc => 6

theorem mem_all (k : Kind) : k ∈ all := by
  cases k <;> decide

theorem getElem_all_index (k : Kind) : all[k.index]? = some k := by
  cases k <;> rfl

theorem index_injective {k l : Kind} (h : k.index = l.index) : k = l :=
  Option.some.inj (by rw [← getElem_all_index k, ← getElem_all_index l, h])

end Kind

/-- A table with one entry for each kind of closure. -/
structure PerKind (α : Type) where
  entries : Vector α 7
  deriving DecidableEq, Repr

namespace PerKind

variable {α : Type}

/-- The table with the same entry everywhere. -/
def const (a : α) : PerKind α := ⟨Vector.replicate 7 a⟩

/-- The table whose entry for each kind is given by `f`. -/
def ofFn (f : Kind → α) : PerKind α :=
  ⟨#v[f .zero, f .zeroInner, f .succ, f .succPartial, f .succInner, f .intLiteral, f .inc]⟩

def get (t : PerKind α) (k : Kind) : α := t.entries[k.index]

def set (t : PerKind α) (k : Kind) (a : α) : PerKind α := ⟨t.entries.set k.index a⟩

/-- Applies `f` to the entry of `k`. -/
def modify (t : PerKind α) (k : Kind) (f : α → α) : PerKind α := t.set k (f (t.get k))

/-- The entries in the order of `Kind.all`. -/
def toList (t : PerKind α) : List α := Kind.all.map t.get

instance [Inhabited α] : Inhabited (PerKind α) := ⟨const default⟩

@[simp]
theorem get_const (a : α) (k : Kind) : (const a).get k = a := by
  simp [const, get]

@[simp]
theorem get_ofFn (f : Kind → α) (k : Kind) : (ofFn f).get k = f k := by
  cases k <;> rfl

@[simp]
theorem get_set_self (t : PerKind α) (k : Kind) (a : α) : (t.set k a).get k = a := by
  simp [set, get]

@[simp]
theorem get_set_of_ne (t : PerKind α) {k l : Kind} (a : α) (h : k ≠ l) :
    (t.set k a).get l = t.get l := by
  have hi : (k.index : Nat) ≠ l.index := fun e => h (Kind.index_injective (Fin.ext e))
  simp [set, get, Vector.getElem_set_ne, hi]

@[simp]
theorem get_modify_self (t : PerKind α) (k : Kind) (f : α → α) :
    (t.modify k f).get k = f (t.get k) :=
  get_set_self ..

@[simp]
theorem get_modify_of_ne (t : PerKind α) {k l : Kind} (f : α → α) (h : k ≠ l) :
    (t.modify k f).get l = t.get l :=
  get_set_of_ne _ _ h

/-- Tables with the same entries are equal. -/
@[ext]
theorem ext {t u : PerKind α} (h : ∀ k, t.get k = u.get k) : t = u := by
  obtain ⟨t⟩ := t
  obtain ⟨u⟩ := u
  congr 1
  ext i hi
  have key : ∀ i : Fin 7, ∃ k ∈ Kind.all, k.index = i := by decide
  obtain ⟨k, -, hk⟩ := key ⟨i, hi⟩
  have := h k
  simpa [get, hk] using this

/-- The sum of the entries of a table of counters. -/
def total (t : PerKind Nat) : Nat := t.toList.foldr (· + ·) 0

end PerKind

end ChurchStore
