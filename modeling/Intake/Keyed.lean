/-!
# Finite maps in order of first writing

`Keyed κ α` holds one value per key and remembers the order in which keys first appeared, so that
a table printed twice looks the same. `upsert` is the only way in: it creates the row of a key or
changes it in place. `get?_upsert` and `get?_erase` say all that later proofs need.
-/

namespace Intake

/-- A finite map, as pairs in the order in which the keys were first written. -/
structure Keyed (κ α : Type) where
  pairs : List (κ × α)
deriving DecidableEq, Repr

namespace Keyed

variable {κ α : Type}

/-- The map without keys. -/
def empty : Keyed κ α := ⟨[]⟩

instance : Inhabited (Keyed κ α) := ⟨empty⟩

/-- The values, in the order of their keys. -/
def values (m : Keyed κ α) : List α := m.pairs.map (·.2)

variable [DecidableEq κ]

/-- The first value paired with `k`. -/
def look (k : κ) : List (κ × α) → Option α
  | [] => none
  | (k', a) :: rest => if k' = k then some a else look k rest

/-- The value of a key. -/
def get? (m : Keyed κ α) (k : κ) : Option α := look k m.pairs

/-- Whether a key has a value. -/
def has (m : Keyed κ α) (k : κ) : Bool := (m.get? k).isSome

/-- Changes the first pair of `k`, or adds one at the end. -/
def put (k : κ) (f : Option α → α) : List (κ × α) → List (κ × α)
  | [] => [(k, f none)]
  | (k', a) :: rest => if k' = k then (k', f (some a)) :: rest else (k', a) :: put k f rest

/-- Gives `k` the value that `f` makes of its present one. -/
def upsert (m : Keyed κ α) (k : κ) (f : Option α → α) : Keyed κ α := ⟨put k f m.pairs⟩

/-- Gives `k` the value `a`. -/
def set (m : Keyed κ α) (k : κ) (a : α) : Keyed κ α := m.upsert k fun _ => a

/-- Forgets `k`. -/
def erase (m : Keyed κ α) (k : κ) : Keyed κ α := ⟨m.pairs.filter fun p => p.1 ≠ k⟩

@[simp] theorem get?_empty (k : κ) : (empty : Keyed κ α).get? k = none := rfl

theorem look_put (k k' : κ) (f : Option α → α) (l : List (κ × α)) :
    look k' (put k f l) = if k' = k then some (f (look k l)) else look k' l := by
  induction l with
  | nil =>
    by_cases h : k' = k
    · simp [put, look, h]
    · have h' : ¬k = k' := fun e => h e.symm
      simp [put, look, h, h']
  | cons p rest ih =>
    obtain ⟨q, a⟩ := p
    by_cases hq : q = k
    · subst hq
      by_cases h : k' = q
      · simp [put, look, h]
      · have h' : ¬q = k' := fun e => h e.symm
        simp [put, look, h, h']
    · by_cases h : k' = k
      · subst h; simp [put, look, hq, ih]
      · simp [put, look, hq, ih, h]

@[simp] theorem get?_upsert (m : Keyed κ α) (k k' : κ) (f : Option α → α) :
    (m.upsert k f).get? k' = if k' = k then some (f (m.get? k)) else m.get? k' :=
  look_put k k' f m.pairs

@[simp] theorem get?_set (m : Keyed κ α) (k k' : κ) (a : α) :
    (m.set k a).get? k' = if k' = k then some a else m.get? k' := by
  simp [set]

theorem look_filter_ne (k k' : κ) (l : List (κ × α)) :
    look k' (l.filter fun p => p.1 ≠ k) = if k' = k then none else look k' l := by
  induction l with
  | nil => simp [look]
  | cons p rest ih =>
    obtain ⟨q, a⟩ := p
    by_cases hq : q = k
    · subst hq
      by_cases h : k' = q
      · subst h; simpa using ih
      · have h' : ¬q = k' := fun e => h e.symm
        simpa [look, h, h'] using ih
    · by_cases h : k' = k
      · subst h; simpa [look, hq] using ih
      · simp only [decide_not, ne_eq] at ih
        simp [look, hq, h, ih]

@[simp] theorem get?_erase (m : Keyed κ α) (k k' : κ) :
    (m.erase k).get? k' = if k' = k then none else m.get? k' :=
  look_filter_ne k k' m.pairs

end Keyed

end Intake
