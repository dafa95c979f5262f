import DampedLeastSquares.Fault

/-!
# Arrays of any rank

Callers may hand over numbers in nested rows. Such an array is its shape and its entries in
row-major order, and the two fit together: a rank-one array of shape `[n]` has `n` entries. What
the algorithms take is the list of entries; the shape decides only whether the array is accepted.
-/

namespace DampedLeastSquares

/-- The position that an index means on an axis: counted from the start, or, if it is negative, from
the end. -/
def position? (index : Int) (size : Nat) : Option Nat :=
  if 0 ≤ index ∧ index < size then some index.toNat
  else if -(size : Int) ≤ index ∧ index < 0 then some (index + size).toNat
  else none

theorem position?_lt {index : Int} {size i : Nat} (h : position? index size = some i) :
    i < size := by
  unfold position? at h
  split at h
  · rw [Option.some.injEq] at h
    omega
  · split at h
    · rw [Option.some.injEq] at h
      omega
    · contradiction

theorem position?_natCast {i size : Nat} (h : i < size) : position? (i : Int) size = some i := by
  rw [position?, if_pos ⟨Int.natCast_nonneg i, Int.ofNat_lt.mpr h⟩, Int.toNat_natCast]

/-- An index that counts no more than the size means a position, from either end. -/
theorem position?_of_inRange {index : Int} {size : Nat} (h : -(size : Int) ≤ index ∧ index < size) :
    position? index size = some (index % size).toNat := by
  rw [position?]
  by_cases hnonneg : 0 ≤ index
  · rw [if_pos ⟨hnonneg, h.2⟩, Int.emod_eq_of_lt hnonneg h.2]
  · have hneg : index < 0 := Int.not_le.mp hnonneg
    rw [if_neg fun hboth ↦ hnonneg hboth.1, if_pos ⟨h.1, hneg⟩, Int.emod_eq_add_self_emod,
      Int.emod_eq_of_lt (by omega) (by omega)]

theorem inRange_of_position? {index : Int} {size i : Nat} (h : position? index size = some i) :
    -(size : Int) ≤ index ∧ index < size := by
  unfold position? at h
  split at h
  · omega
  · split at h
    · omega
    · contradiction

/-- Why an index that means no position is refused: for the given reason, or because there is not
even a word for it. -/
def refuseIndex (index : Int) (reason : Fault) : Fault :=
  if WordFormat.int64.Holds index then reason
  else if WordFormat.uint64.Holds index then .indexTooWide
  else .noIndex

/-- The word for a number, if there is one. -/
def WordFormat.encode (f : WordFormat) (number : Int) : Except Fault Int :=
  if f.Holds number then .ok number
  else .error (if int64.Holds number then .beyondWords number f else .indexTooWide)

theorem WordFormat.encode_of_holds {f : WordFormat} {number : Int} (h : f.Holds number) :
    f.encode number = .ok number := if_pos h

/-- The number of entries that the extents of the axes ask for. -/
def Tensor.count : List Nat → Nat
  | [] => 1
  | n :: shape => n * Tensor.count shape

/-- A dense array: the extents of its axes, and its entries with the last axis running fastest. -/
structure Tensor (α : Type) where
  /-- The extent of each axis. A single value has no axes. -/
  shape : List Nat
  /-- The entries in row-major order. -/
  entries : List α
  /-- There are as many entries as the extents ask for. -/
  length_entries : entries.length = Tensor.count shape
  deriving DecidableEq, Repr

namespace Tensor

variable {α β : Type}

/-- The array of rank zero that holds one value. -/
def scalar (a : α) : Tensor α := ⟨[], [a], rfl⟩

/-- The array of rank one with the given entries. -/
def ofList (entries : List α) : Tensor α := ⟨[entries.length], entries, by simp [count]⟩

private theorem length_flatMap_entries (shape : List Nat) {rows : List (Tensor α)}
    (h : ∀ t ∈ rows, t.shape = shape) :
    (rows.flatMap entries).length = rows.length * count shape := by
  induction rows with
  | nil => simp
  | cons t ts ih =>
    rw [List.flatMap_cons, List.length_append, ih fun s hs ↦ h s (by simp [hs]),
      t.length_entries, h t (by simp), List.length_cons, Nat.succ_mul, Nat.add_comm]

/-- The array whose rows along a new first axis are `rows`, if they all have one shape. Without
rows its shape is `[0]`, since nothing tells what the rows would have looked like. -/
def ofRows? : List (Tensor α) → Option (Tensor α)
  | [] => some ⟨[0], [], rfl⟩
  | row :: rows =>
    if h : ∀ t ∈ rows, t.shape = row.shape then
      some ⟨(rows.length + 1) :: row.shape, (row :: rows).flatMap entries, by
        rw [count, length_flatMap_entries row.shape (by simpa using h),
          List.length_cons]⟩
    else none

/-- The leading axes that two shapes have in common. -/
def sharedAxes : List Nat → List Nat → List Nat
  | m :: s, n :: t => if m = n then m :: sharedAxes s t else []
  | _, _ => []

/-- The array whose rows are the given parts. If they are not all arrays of one shape, there is
none, but only the leading axes that all of them share. -/
def ofParts (parts : List (Except (List Nat) (Tensor α))) : Except (List Nat) (Tensor α) :=
  let rows := parts.filterMap Except.toOption
  match if rows.length = parts.length then ofRows? rows else none with
  | some t => .ok t
  | none =>
    let shapes := parts.map fun part ↦ match part with
      | .ok t => t.shape
      | .error shape => shape
    .error (parts.length :: (shapes.tail.foldl sharedAxes (shapes.headD [])))

/-- The greatest number of axes. -/
def mostAxes : Nat := 64

/-- Why there is no array, if its parts share no more than the given axes. -/
def refuseParts (shared : List Nat) : Fault :=
  if shared.length < mostAxes then .unevenRows shared else .tooManyAxes

/-- The number of axes. -/
def rank (t : Tensor α) : Nat := t.shape.length

/-- The number of entries. -/
def size (t : Tensor α) : Nat := t.entries.length

/-- The array with `f` applied to every entry. -/
def map (f : α → β) (t : Tensor α) : Tensor β :=
  ⟨t.shape, t.entries.map f, by rw [List.length_map, t.length_entries]⟩

/-- The entries of a rank-one array, and nothing for any other. -/
def toList? (t : Tensor α) : Option (List α) :=
  match t.shape with
  | [_] => some t.entries
  | _ => none

@[simp] theorem toList?_ofList (entries : List α) : (ofList entries).toList? = some entries := rfl

@[simp] theorem size_ofList (entries : List α) : (ofList entries).size = entries.length := rfl

/-- The rows of a list of entries that is cut into `n` pieces of `width` entries each. -/
def chunks (width : Nat) : Nat → List α → List (List α)
  | 0, _ => []
  | n + 1, entries => entries.take width :: chunks width n (entries.drop width)

/-- The rows of an array along its first axis, at most `most` of them from the given position on. An
array without axes has no rows. -/
def rowsFrom? (t : Tensor α) (start most : Nat) : Option (Tensor α) :=
  match h : t.shape with
  | [] => none
  | n :: shape =>
    some ⟨min most (n - start) :: shape,
      (t.entries.drop (start * count shape)).take (most * count shape), by
        rw [List.length_take, List.length_drop, t.length_entries, h, count, ← Nat.sub_mul, count,
          Nat.mul_min_mul_right]⟩

/-- The array with `f` applied to every entry of one row along its first axis. -/
def modifyRow (f : α → α) (i : Nat) (t : Tensor α) : Tensor α :=
  let width := count t.shape.tail
  ⟨t.shape, t.entries.mapIdx fun k a ↦ if k / width = i then f a else a, by
    rw [List.length_mapIdx, t.length_entries]⟩

private theorem length_flatMap_chunks {f : List α → List β} {width n : Nat}
    (h : ∀ row : List α, row.length = width → (f row).length = n) (rows : Nat)
    {entries : List α} (hlength : entries.length = rows * width) :
    ((chunks width rows entries).flatMap f).length = rows * n := by
  induction rows generalizing entries with
  | zero => simp [chunks]
  | succ rows ih =>
    rw [Nat.succ_mul] at hlength
    rw [chunks, List.flatMap_cons, List.length_append, h _ (by rw [List.length_take]; omega),
      ih (by rw [List.length_drop]; omega), Nat.succ_mul, Nat.add_comm]

/-- What an array has at a position on its second axis, counted from either end. Of a matrix it is a
column. -/
def column (t : Tensor α) (index : Int) : Except Fault (Tensor α) :=
  match h : t.shape with
  | rows :: width :: shape =>
    match hj : position? index width with
    | some j =>
      let column := fun (row : List α) ↦ (row.drop (j * count shape)).take (count shape)
      .ok ⟨rows :: shape, (chunks (width * count shape) rows t.entries).flatMap column, by
        refine length_flatMap_chunks (fun row hrow ↦ ?_) rows (by rw [t.length_entries, h]; rfl)
        have hle : (j + 1) * count shape ≤ width * count shape :=
          Nat.mul_le_mul_right _ (position?_lt hj)
        rw [Nat.succ_mul] at hle
        rw [List.length_take, List.length_drop, hrow]
        omega⟩
    | none => .error (refuseIndex index (.indexOutOfBounds index 1 width))
  | shape => .error (refuseIndex index (.tooManyIndices shape.length 2))

/-- Folds the nesting of an array: `leaf` at its entries, `node` at its rows. -/
def foldNested (leaf : α → β) (node : List β → β) : List Nat → List α → β
  | [], entries => (entries.head?.map leaf).getD (node [])
  | n :: shape, entries => node ((chunks (count shape) n entries).map (foldNested leaf node shape))

/-- Folds the nesting of the array itself. -/
def nest (leaf : α → β) (node : List β → β) (t : Tensor α) : β :=
  foldNested leaf node t.shape t.entries

end Tensor

end DampedLeastSquares
