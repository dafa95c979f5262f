/-!
# Values under labels

Cameras are told apart by integer labels. They are kept in the order in which the labels came up
first, since faults are found in that order; everything that has a fixed layout goes by ascending
labels instead. A value given for a label that is taken already replaces the value there.
-/

namespace DampedLeastSquares

/-- Values under distinct labels. -/
structure Labelled (α : Type) where
  /-- The labels with their values. -/
  entries : List (Int × α)
  /-- No label occurs twice. -/
  nodup : (entries.map Prod.fst).Nodup

namespace Labelled

variable {α β : Type}

/-- The entries with a value put under a label: in the place of the value there, or else at the
end. -/
def assign (label : Int) (a : α) : List (Int × α) → List (Int × α)
  | [] => [(label, a)]
  | (l, b) :: rest => if l = label then (label, a) :: rest else (l, b) :: assign label a rest

private theorem mem_labels_assign {label l : Int} {a : α} {entries : List (Int × α)} :
    l ∈ (assign label a entries).map Prod.fst ↔ l = label ∨ l ∈ entries.map Prod.fst := by
  induction entries with
  | nil => simp [assign]
  | cons e rest ih =>
    by_cases h : e.1 = label
    · simp [assign, h]
    · rw [assign, if_neg h, List.map_cons, List.mem_cons, ih, List.map_cons, List.mem_cons]
      constructor <;> rintro (h | h | h) <;> simp [h]

private theorem nodup_assign {label : Int} {a : α} {entries : List (Int × α)}
    (h : (entries.map Prod.fst).Nodup) : ((assign label a entries).map Prod.fst).Nodup := by
  induction entries with
  | nil => simp [assign]
  | cons e rest ih =>
    rw [List.map_cons, List.nodup_cons] at h
    by_cases he : e.1 = label
    · rw [assign, if_pos he, List.map_cons, List.nodup_cons]
      exact ⟨he ▸ h.1, h.2⟩
    · rw [assign, if_neg he, List.map_cons, List.nodup_cons, mem_labels_assign]
      exact ⟨not_or.mpr ⟨he, h.1⟩, ih h.2⟩

/-- No values. -/
def empty : Labelled α := ⟨[], List.nodup_nil⟩

/-- Puts a value under a label. -/
def insert (xs : Labelled α) (label : Int) (a : α) : Labelled α :=
  ⟨assign label a xs.entries, nodup_assign xs.nodup⟩

/-- The values put under their labels one after another. -/
def ofList (entries : List (Int × α)) : Labelled α :=
  entries.foldl (fun xs (label, a) ↦ xs.insert label a) empty

/-- The value under a label. -/
def get? (xs : Labelled α) (label : Int) : Option α := xs.entries.lookup label

/-- How many values there are. -/
def size (xs : Labelled α) : Nat := xs.entries.length

/-- Entries by ascending labels. -/
def sortByLabel (entries : List (Int × α)) : List (Int × α) :=
  entries.mergeSort fun a b ↦ decide (a.1 ≤ b.1)

/-- The entries by ascending labels. -/
def sorted (xs : Labelled α) : List (Int × α) := sortByLabel xs.entries

/-- The labels in ascending order. -/
def labels (xs : Labelled α) : List Int := xs.sorted.map Prod.fst

/-- The place of each label among the labels in ascending order. -/
def ranks (xs : Labelled α) : Labelled Nat :=
  ⟨xs.entries.map fun (label, _) ↦ (label, xs.labels.idxOf label), by
    simpa [List.map_map, Function.comp_def] using xs.nodup⟩

/-- The labels with other values, each made from the label and its value. -/
def map (f : Int → α → β) (xs : Labelled α) : Labelled β :=
  ⟨xs.entries.map fun (label, a) ↦ (label, f label a), by
    simpa [List.map_map, Function.comp_def] using xs.nodup⟩

@[simp] theorem size_map (f : Int → α → β) (xs : Labelled α) : (xs.map f).size = xs.size := by
  simp [size, map]

@[simp] theorem length_labels (xs : Labelled α) : xs.labels.length = xs.size := by
  simp [labels, sorted, sortByLabel, size]

end Labelled

end DampedLeastSquares
