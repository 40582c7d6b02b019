-- A cursor over a row of items, for code that looks a few items ahead or
-- back. Displacements are signed 64-bit numbers, and so is the place that one
-- leads to: where the sum is no such number there is none.

namespace WordMachine

/-- Why a cursor does not answer. -/
inductive CursorError
  /-- The sum of the position and a displacement does not fit in 64 bits. -/
  | overflow
  deriving DecidableEq, Repr

/-- A row of items and a position in it, from before the first item to after
the last one. The size of the row is an unsigned 64-bit number. -/
structure Cursor (α : Type) where
  items : Array α
  position : Nat
  position_le : position ≤ items.size
  size_lt : items.size < UInt64.size

namespace Cursor

variable {α : Type}

/-- The cursor before the first item. -/
def ofArray (items : Array α) (h : items.size < UInt64.size) : Cursor α :=
  ⟨items, 0, Nat.zero_le _, h⟩

/-- Every item has been passed. -/
def isAtEnd (c : Cursor α) : Bool := c.items.size ≤ c.position

/-! ## Looking ahead and back -/

/-- The place that a displacement leads to. -/
def target (c : Cursor α) (k : Int64) : Except CursorError Int64 :=
  let sum := (Int64.ofNat c.position).toInt + k.toInt
  if h : Int64.minValue.toInt ≤ sum ∧ sum ≤ Int64.maxValue.toInt then
    .ok (.ofIntLE sum h.1 h.2)
  else
    .error .overflow

/-- It is the sum of the position and the displacement, as signed numbers. -/
theorem target_eq_ok_iff {c : Cursor α} {k place : Int64} :
    c.target k = .ok place ↔ place.toInt = (Int64.ofNat c.position).toInt + k.toInt := by
  unfold target
  simp only
  split
  · rw [Except.ok.injEq, ← Int64.toInt_inj, Int64.toInt_ofIntLE, eq_comm]
  · rename_i h
    have hlow := place.le_toInt
    have hhigh := place.toInt_lt
    rw [Int64.toInt_minValue, Int64.toInt_maxValue] at h
    constructor
    · intro he
      cases he
    · intro he
      omega

/-- The item at a displacement from the cursor. -/
def lookAt (c : Cursor α) (k : Int64) : Except CursorError (Option α) := do
  let place ← c.target k
  return if place < 0 then none else c.items[place.toUInt64.toNat]?

/-- The item after the cursor. -/
def peek (c : Cursor α) : Except CursorError (Option α) := c.lookAt 0

/-- The item before the cursor. -/
def previous (c : Cursor α) : Except CursorError (Option α) := c.lookAt (-1)

/-! ## Moving -/

/-- The position nearest to a place. -/
def clamped (c : Cursor α) (place : Int64) : Nat :=
  (min (max place 0) (Int64.ofNat c.items.size)).toUInt64.toNat

/-- A number of 64 bits that is not negative as a signed one is the same as a
signed one. -/
theorem toInt_ofNat_of_nonneg {n : Nat} (hn : n < UInt64.size) (h : 0 ≤ (Int64.ofNat n).toInt) :
    (Int64.ofNat n).toInt = n := by
  rw [Int64.toInt_ofNat'] at h ⊢
  simp only [Int.bmod_def, Int64.size, UInt64.size] at h hn ⊢
  omega

theorem toInt_min (a b : Int64) : (min a b).toInt = min a.toInt b.toInt := by
  show (if a ≤ b then a else b).toInt = _
  rw [Int.min_def]
  simp only [Int64.le_iff_toInt_le]
  split <;> rfl

theorem toInt_max (a b : Int64) : (max a b).toInt = max a.toInt b.toInt := by
  show (if a ≤ b then b else a).toInt = _
  rw [Int.max_def]
  simp only [Int64.le_iff_toInt_le]
  split <;> rfl

theorem toInt_clamped (c : Cursor α) (place : Int64) :
    (min (max place 0) (Int64.ofNat c.items.size)).toInt =
      min (max place.toInt 0) (Int64.ofNat c.items.size).toInt := by
  rw [toInt_min, toInt_max, Int64.toInt_zero]

/-- If the size of the row is a signed number, a place is clamped as a number. -/
theorem clamped_of_nonneg {c : Cursor α} (h : 0 ≤ (Int64.ofNat c.items.size).toInt)
    (place : Int64) : c.clamped place = (min (max place.toInt 0) c.items.size).toNat := by
  have hm := c.toInt_clamped place
  have hnonneg : 0 ≤ min (max place 0) (Int64.ofNat c.items.size) := by
    rw [Int64.le_iff_toInt_le, hm, Int64.toInt_zero]
    omega
  rw [clamped, Int64.toNat_toUInt64_of_le hnonneg, Int64.toNatClampNeg, hm,
    toInt_ofNat_of_nonneg c.size_lt h]

theorem clamped_le (c : Cursor α) (place : Int64) : c.clamped place ≤ c.items.size := by
  by_cases h : 0 ≤ (Int64.ofNat c.items.size).toInt
  · rw [clamped_of_nonneg h]
    omega
  · -- A size that is negative as a signed number is less than any place.
    have hmin : min (max place 0) (Int64.ofNat c.items.size) = Int64.ofNat c.items.size := by
      rw [← Int64.toInt_inj, toInt_clamped]
      omega
    rw [clamped, hmin, Int64.toUInt64_ofNat', UInt64.toNat_ofNat']
    exact Nat.mod_le _ _

/-- Moves the cursor, but not past either end. -/
def seek (c : Cursor α) (k : Int64) : Except CursorError (Cursor α) := do
  let place ← c.target k
  return { c with position := c.clamped place, position_le := c.clamped_le place }

/-- The item after the cursor, and the cursor behind it. -/
def next (c : Cursor α) : Option α × Cursor α :=
  if h : c.position < c.items.size then
    (some c.items[c.position], { c with position := c.position + 1, position_le := h })
  else
    (none, c)

/-- An item that is seen is there to be passed. -/
theorem position_lt_of_peek {c : Cursor α} {x : α} (h : c.peek = .ok (some x)) :
    c.position < c.items.size := by
  unfold peek lookAt at h
  cases ht : c.target 0 with
  | error e =>
    rw [ht] at h
    cases h
  | ok place =>
    rw [ht] at h
    have hitem : (if place < 0 then none else c.items[place.toUInt64.toNat]?) = some x :=
      Except.ok.inj h
    split at hitem
    · cases hitem
    · rename_i hneg
      have hzero := Int64.not_lt.1 hneg
      have hnonneg := Int64.le_iff_toInt_le.1 hzero
      rw [Int64.toNat_toUInt64_of_le hzero, Int64.toNatClampNeg] at hitem
      rw [target_eq_ok_iff.1 ht, Int64.toInt_zero, Int.add_zero] at hnonneg hitem
      rw [toInt_ofNat_of_nonneg (Nat.lt_of_le_of_lt c.position_le c.size_lt) hnonneg] at hitem
      exact (Array.getElem?_eq_some_iff.1 hitem).1

/-- The cursor behind the items from here on that pass a test, up to the first
that does not. -/
def skipWhile (c : Cursor α) (p : α → Bool) : Except CursorError (Cursor α) :=
  match h : c.peek with
  | .error e => .error e
  | .ok none => .ok c
  | .ok (some x) =>
    if p x then
      skipWhile { c with position := c.position + 1, position_le := position_lt_of_peek h } p
    else
      .ok c
termination_by c.items.size - c.position
decreasing_by
  have := position_lt_of_peek h
  omega

/-- The items that pass a test, up to the first that does not, and the cursor
behind them. -/
def takeWhile (c : Cursor α) (p : α → Bool) : Except CursorError (List α × Cursor α) := do
  let behind ← c.skipWhile p
  return ((c.items.extract c.position behind.position).toList, behind)

/-- The items after the cursor. -/
def rest (c : Cursor α) : List α := c.items.toList.drop c.position

end Cursor

end WordMachine
