namespace LogReplica

structure Table (κ ν : Type) where
  rows : List (κ × ν) := []

namespace Table

variable {κ ν β : Type} [DecidableEq κ]

def empty : Table κ ν := ⟨[]⟩

def size (t : Table κ ν) : Nat := t.rows.length

def find : List (κ × ν) → κ → Option ν
  | [], _ => none
  | (k, v) :: rest, key => if k = key then some v else find rest key

def get? (t : Table κ ν) (key : κ) : Option ν := find t.rows key

def put : List (κ × ν) → κ → ν → List (κ × ν)
  | [], key, value => [(key, value)]
  | (k, v) :: rest, key, value =>
    if k = key then (k, value) :: rest else (k, v) :: put rest key value

def insert (t : Table κ ν) (key : κ) (value : ν) : Table κ ν := ⟨put t.rows key value⟩

def erase (t : Table κ ν) (key : κ) : Table κ ν := ⟨t.rows.filter (fun row => row.1 ≠ key)⟩

def visitRows (f : ν → β × ν) : List (κ × ν) → κ → Option β × List (κ × ν)
  | [], _ => (none, [])
  | (k, v) :: rest, key =>
    if k = key then
      let (b, v) := f v
      (some b, (k, v) :: rest)
    else
      let (b, rest) := visitRows f rest key
      (b, (k, v) :: rest)

def visit (t : Table κ ν) (key : κ) (f : ν → β × ν) : Option β × Table κ ν :=
  let (b, rows) := visitRows f t.rows key
  (b, ⟨rows⟩)

theorem find_put (rows : List (κ × ν)) (key other : κ) (value : ν) :
    find (put rows key value) other = if key = other then some value else find rows other := by
  induction rows with
  | nil => rfl
  | cons row rest ih =>
    obtain ⟨k, v⟩ := row
    by_cases hk : k = key
    · subst hk; by_cases ho : k = other <;> simp [put, find, ho]
    · by_cases ho : k = other
      · subst ho; simp [put, find, hk, Ne.symm hk]
      · simp [put, find, hk, ho, ih]

theorem get?_insert (t : Table κ ν) (key other : κ) (value : ν) :
    (t.insert key value).get? other = if key = other then some value else t.get? other :=
  find_put t.rows key other value

theorem get?_erase (t : Table κ ν) (key other : κ) :
    (t.erase key).get? other = if key = other then none else t.get? other := by
  obtain ⟨rows⟩ := t
  simp only [erase, get?, ne_eq, decide_not]
  induction rows with
  | nil => simp [find]
  | cons row rest ih =>
    obtain ⟨k, v⟩ := row
    by_cases hk : k = key
    · subst hk; by_cases ho : k = other <;> simp_all [find]
    · by_cases ho : k = other
      · subst ho; simp [find, hk, Ne.symm hk]
      · simp [find, hk, ho, ih]

theorem find_visitRows (f : ν → β × ν) (rows : List (κ × ν)) (key other : κ) :
    find (visitRows f rows key).2 other =
      if key = other then (find rows key).map (fun v => (f v).2) else find rows other := by
  induction rows with
  | nil => simp [visitRows, find]
  | cons row rest ih =>
    obtain ⟨k, v⟩ := row
    by_cases hk : k = key
    · subst hk; by_cases ho : k = other <;> simp [visitRows, find, ho]
    · by_cases ho : k = other
      · subst ho; simp [visitRows, find, hk, Ne.symm hk]
      · simp [visitRows, find, hk, ho, ih]

theorem visitRows_fst (f : ν → β × ν) (rows : List (κ × ν)) (key : κ) :
    (visitRows f rows key).1 = (find rows key).map (fun v => (f v).1) := by
  induction rows with
  | nil => rfl
  | cons row rest ih =>
    obtain ⟨k, v⟩ := row
    by_cases hk : k = key <;> simp [visitRows, find, hk, ih]

theorem visit_fst (t : Table κ ν) (key : κ) (f : ν → β × ν) :
    (t.visit key f).1 = (t.get? key).map (fun v => (f v).1) :=
  visitRows_fst f t.rows key

theorem get?_visit (t : Table κ ν) (key other : κ) (f : ν → β × ν) :
    (t.visit key f).2.get? other =
      if key = other then (t.get? key).map (fun v => (f v).2) else t.get? other :=
  find_visitRows f t.rows key other

end Table

end LogReplica
