import DampedLeastSquares.Proofs.Bundle.Store

/-!
# Residuals of bundles with the same rig

Restoring a vector replaces poses and points, and keeps the rig: labels, lenses and observations,
and how many points there are. Here it is shown that the rig is all that a bundle asks with. The
residuals for given parameters depend on nothing else, neither does the pattern of the Jacobian, and
a vector is cut in the same way. So bundles with the same rig have the same residuals at every
vector, as functions, faults included.

The cameras are gone through in the order in which they came up, and it decides which fault is found
first. This order is a part of the rig too, since the ranks of the labels are listed in it.
-/

namespace DampedLeastSquares

/-! ## Cameras under labels -/

namespace Labelled

variable {α : Type}

theorem map_fst_ranks (xs : Labelled α) :
    xs.ranks.entries.map Prod.fst = xs.entries.map Prod.fst := by
  rw [ranks, List.map_map]
  rfl

theorem map_entries_eq {β : Type} (f : α → β) (xs : Labelled α) :
    xs.entries.map (fun entry ↦ (entry.1, some (f entry.2)))
      = (xs.entries.map Prod.fst).map fun label ↦ (label, (xs.get? label).map f) := by
  rw [List.map_map]
  refine List.map_congr_left fun entry hentry ↦ ?_
  rw [Function.comp_apply, get?_of_mem hentry]
  rfl

end Labelled

namespace Bundle

variable {R : Type} {b b' : Bundle R}

/-! ## The rig decides -/

theorem SameRig.order (h : b.SameRig b') :
    b'.cameras.entries.map Prod.fst = b.cameras.entries.map Prod.fst := by
  rw [← Labelled.map_fst_ranks, h.ranks, Labelled.map_fst_ranks]

/-- Cameras of the same rig have the same inside. -/
theorem SameRig.lenses (h : b.SameRig b') :
    b'.cameras.entries.map (fun entry ↦ (entry.1, some entry.2.intrinsics))
      = b.cameras.entries.map fun entry ↦ (entry.1, some entry.2.intrinsics) := by
  rw [Labelled.map_entries_eq, Labelled.map_entries_eq, h.order]
  exact List.map_congr_left fun label _ ↦ by rw [h.intrinsics]

theorem SameRig.conditions (h : b.SameRig b') : b'.conditions = b.conditions := by
  rw [Bundle.conditions, h.observations, Bundle.conditions]

theorem SameRig.length_points (h : b.SameRig b') : b'.points.length = b.points.length := by
  have hdimension := h.dimension
  rw [Bundle.dimension, Bundle.dimension, h.size] at hdimension
  omega

/-- **The same columns are asked for.** -/
theorem SameRig.sparsity (h : b.SameRig b') : b'.sparsity = b.sparsity := by
  rw [Bundle.sparsity, Bundle.sparsity, h.ranks, h.observations, h.length_points]

variable [CircularScalar R]

/-- What a camera with the given inside adds to the images. The camera itself is not looked at. -/
theorem projectCamera_eq (h : b.SameRig b') (p : Parameters R) (label : Int) {c c' : Camera R}
    (hlens : c'.intrinsics = c.intrinsics) (images : List (Pixel R)) :
    b'.projectCamera p label c' images = b.projectCamera p label c images := by
  rw [projectCamera, projectCamera, h.labels, h.observations, hlens]

theorem SameRig.images (h : b.SameRig b') (p : Parameters R) : b'.images p = b.images p := by
  have hfold : ∀ {entries entries' : List (Int × Camera R)} (images : List (Pixel R)),
      entries'.map (fun entry ↦ (entry.1, some entry.2.intrinsics))
        = entries.map (fun entry ↦ (entry.1, some entry.2.intrinsics)) →
      entries'.foldlM (fun images entry ↦ b'.projectCamera p entry.1 entry.2 images) images
        = entries.foldlM (fun images entry ↦ b.projectCamera p entry.1 entry.2 images) images := by
    -- Of an entry only the label and the inside of the camera are read.
    intro entries
    induction entries with
    | nil =>
      intro entries' images heq
      rw [List.map_eq_nil_iff.mp heq]
      rfl
    | cons entry entries ih =>
      intro entries' images heq
      obtain ⟨entry', entries', rfl, hentry, hrest⟩ := List.map_eq_cons_iff.mp heq
      obtain ⟨hlabel, hlens⟩ := Prod.mk.inj hentry
      simp only [List.foldlM_cons]
      rw [hlabel, projectCamera_eq h p entry.1 (Option.some.inj hlens)]
      exact bind_congr fun images ↦ ih images hrest
  rw [Bundle.images, Bundle.images, h.observations]
  exact hfold _ h.lenses

/-- **The residuals for given parameters are the same.** -/
theorem SameRig.residualOf (h : b.SameRig b') : b'.residualOf = b.residualOf := by
  funext p
  rw [Bundle.residualOf, h.images, h.observations, Bundle.residualOf]

theorem SameRig.residual (h : b.SameRig b') : b'.residual = b.residual := by
  funext x
  rw [Bundle.residual, h.size, h.residualOf, Bundle.residual]

theorem SameRig.residualOfTensor (h : b.SameRig b') : b'.residualOfTensor = b.residualOfTensor := by
  funext x
  rw [Bundle.residualOfTensor, h.size, h.residualOf, Bundle.residualOfTensor]

end Bundle

end DampedLeastSquares
