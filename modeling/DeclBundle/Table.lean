/-!
# Tables in order of insertion

A `Table` keeps its rows in the order in which their keys were first put in. Putting in a key again
changes the value and leaves the row where it is; `insertNew` leaves the first value as well.
`pushNew` is the same rule for lists that serve as sets.
-/

namespace DeclBundle

/-- Rows in the order in which their keys were first put in. -/
structure Table (κ : Type u) (ν : Type v) where
  rows : List (κ × ν) := []

namespace Table

variable {κ : Type u} {ν : Type v}

/-- The table without rows. -/
def empty : Table κ ν := {}

/-- The empty table is there for any types. -/
instance : Inhabited (Table κ ν) := ⟨empty⟩

/-- The keys in the order of insertion. -/
def keys (t : Table κ ν) : List κ := t.rows.map Prod.fst

/-- The values in the order of insertion. -/
def values (t : Table κ ν) : List ν := t.rows.map Prod.snd

/-- How many rows there are. -/
def size (t : Table κ ν) : Nat := t.rows.length

variable [DecidableEq κ]

/-- The value of the first row with key `k`. -/
def find? (k : κ) : List (κ × ν) → Option ν
  | [] => none
  | (k', v) :: rest => if k' = k then some v else find? k rest

/-- The value of a key. -/
def get? (t : Table κ ν) (k : κ) : Option ν := find? k t.rows

/-- The key has a row. -/
def contains (t : Table κ ν) (k : κ) : Bool := (t.get? k).isSome

/-- The rows with `v` in the row of `k`, which is appended when there is none. -/
def put (k : κ) (v : ν) : List (κ × ν) → List (κ × ν)
  | [] => [(k, v)]
  | (k', v') :: rest => if k' = k then (k', v) :: rest else (k', v') :: put k v rest

/-- Sets the value of a key, at the place that the key has or at the end. -/
def insert (t : Table κ ν) (k : κ) (v : ν) : Table κ ν := ⟨put k v t.rows⟩

/-- Sets the value under `k` unless there is one. -/
def insertNew (t : Table κ ν) (k : κ) (v : ν) : Table κ ν :=
  if t.contains k then t else ⟨t.rows ++ [(k, v)]⟩

@[simp] theorem find?_put (k k' : κ) (v : ν) :
    ∀ rows, find? k' (put k v rows) = if k = k' then some v else find? k' rows
  | [] => by simp [put, find?]
  | (a, b) :: rest => by
    have ih := find?_put k k' v rest
    by_cases hk : a = k
    · subst hk
      by_cases h' : a = k' <;> simp [put, find?, h']
    · by_cases h' : a = k'
      · subst h'
        simp [put, find?, hk, Ne.symm hk]
      · simp [put, find?, hk, h', ih]

theorem find?_append (k : κ) (v : List (κ × ν)) :
    ∀ rows, find? k (rows ++ v) = (find? k rows).or (find? k v)
  | [] => by simp [find?]
  | (a, b) :: rest => by
    by_cases h : a = k <;> simp [find?, h, find?_append k v rest]

@[simp] theorem get?_empty (k : κ) : (empty : Table κ ν).get? k = none := rfl

/-- What is read back after setting a value. -/
theorem get?_insert (t : Table κ ν) (k k' : κ) (v : ν) :
    (t.insert k v).get? k' = if k = k' then some v else t.get? k' := by
  simp [get?, insert]

/-- What is read back after offering a value. -/
theorem get?_insertNew (t : Table κ ν) (k k' : κ) (v : ν) :
    (t.insertNew k v).get? k' = if k = k' ∧ t.get? k = none then some v else t.get? k' := by
  unfold insertNew contains
  cases h : t.get? k with
  | some w => simp
  | none =>
    simp only [get?] at h ⊢
    by_cases hk : k = k'
    · subst hk
      simp [find?_append, h, find?]
    · simp [find?_append, find?, hk]

end Table

/-- The list with `x` at its end unless it is in it already. -/
def pushNew [DecidableEq α] (xs : List α) (x : α) : List α :=
  if x ∈ xs then xs else xs ++ [x]

/-- `xs` followed by those of `ys` that are new, each once. -/
def pushAllNew [DecidableEq α] (xs ys : List α) : List α :=
  ys.foldl pushNew xs

@[simp] theorem mem_pushNew [DecidableEq α] {xs : List α} {x y : α} :
    y ∈ pushNew xs x ↔ y ∈ xs ∨ y = x := by
  unfold pushNew
  split
  · constructor
    · exact Or.inl
    · rintro (h | rfl) <;> assumption
  · simp

@[simp] theorem mem_pushAllNew [DecidableEq α] {ys xs : List α} {y : α} :
    y ∈ pushAllNew xs ys ↔ y ∈ xs ∨ y ∈ ys := by
  unfold pushAllNew
  induction ys generalizing xs with
  | nil => simp
  | cons a ys ih => simp [ih, or_assoc]

theorem nodup_pushNew [DecidableEq α] {xs : List α} {x : α} (h : xs.Nodup) :
    (pushNew xs x).Nodup := by
  unfold pushNew
  split
  · exact h
  · rename_i hx
    refine List.nodup_append.2 ⟨h, by simp, ?_⟩
    intro a ha b hb
    simp only [List.mem_singleton] at hb
    rintro rfl
    exact hx (hb ▸ ha)

end DeclBundle
