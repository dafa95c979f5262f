import DampedLeastSquares.Proofs.Solve.Purity
import Mathlib.Data.List.Perm.Basic

/-!
# Workers side by side

The workers that fill a Jacobian run at the same time. They share the matrix, and which of them gets
on when is up to the host. Here a schedule is the list of the workers that get a turn, one after
another; a turn is the work on one column, from the call of the residual function to the writing of
the column. A worker that has failed or has no column left lets its turns pass. A schedule is
complete when that is all that any worker still does.

If the residual function is pure then the schedule shows in one thing only, the order of the calls.
The reason is what `Ran` says: the fault is the first in the order of the hands, whichever was found
first, and without a fault the matrix is filled with the columns of all slices, whose places are
distinct. Running the workers one after another is a way of running them, and `Ran` holds of it for
the same reason.
-/

namespace DampedLeastSquares.Jacobian

/-- A worker in the middle of its work. -/
structure Worker where
  /-- The slices that it has begun, in order. -/
  begun : List Slice := []
  /-- The slices that it has not begun. -/
  left : List Slice
  /-- The fault that stopped it at the slice that it has begun last. -/
  fault : Option Fault := none

/-- Whether a worker lets its turns pass. -/
def Worker.isDone (w : Worker) : Bool := w.fault.isSome || w.left.isEmpty

/-- The hand that a worker was dealt. -/
def Worker.work (w : Worker) : List Slice := w.begun ++ w.left

/-- How many turns a worker may still use. -/
def Worker.pending (w : Worker) : Nat := if w.fault.isSome then 0 else w.left.length

/-- Workers with the matrix that they share. -/
structure Pool (P R : Type) where
  /-- The workers in the order in which hands were dealt. -/
  workers : List Worker
  /-- The matrix as it is so far, by columns. -/
  matrix : List (List R)
  /-- The points at which the residual function has been called so far, in order. -/
  points : List P

variable {P R : Type} [Scalar R]

namespace Pool

/-- The workers before the first turn. A place without columns gets no worker. -/
def start (works : List (List Slice)) (matrix : List (List R)) : Pool P R :=
  ⟨(works.filter fun work ↦ !work.isEmpty).map fun work ↦ { left := work }, matrix, []⟩

/-- Whether all workers are done. -/
def isDone (pool : Pool P R) : Bool := pool.workers.all Worker.isDone

/-- What comes of the workers: the fault of the first of them that has failed, or the matrix. -/
def outcome (pool : Pool P R) : Except Fault (List (List R)) :=
  match pool.workers.findSome? Worker.fault with
  | some fault => .error fault
  | none => .ok pool.matrix

end Pool

section

variable (f : Nat → P → Except Fault (List R)) (move : Int → Except Fault P) (baseline : Tensor R)
  (h : R)

/-- One turn of the worker `k`. -/
def Pool.turn (pool : Pool P R) (k : Nat) : Pool P R :=
  match pool.workers[k]? with
  | some ⟨begun, s :: left, none⟩ =>
    let called := differentiate f move baseline h pool.points.length s
    let points := pool.points ++ called.points
    match called.outcome with
    | .ok column =>
      ⟨pool.workers.set k ⟨begun ++ [s], left, none⟩, pool.matrix.set s.column column, points⟩
    | .error fault => ⟨pool.workers.set k ⟨begun ++ [s], left, some fault⟩, pool.matrix, points⟩
  | _ => pool

/-- The turns of a schedule. -/
def Pool.run (pool : Pool P R) (schedule : List Nat) : Pool P R :=
  schedule.foldl (Pool.turn f move baseline h) pool

/-! ## What becomes of the slices -/

/-- The fault at a slice, if there is one. -/
def faultOf (s : Slice) : Option Fault :=
  match (differentiate f move baseline h 0 s).outcome with
  | .ok _ => none
  | .error fault => some fault

/-- The first fault in some work. -/
def firstFault (work : List Slice) : Option Fault := work.findSome? (faultOf f move baseline h)

/-- The matrix with the column of a slice, if it has one, in its place. -/
def place (matrix : List (List R)) (s : Slice) : List (List R) :=
  match (differentiate f move baseline h 0 s).outcome with
  | .ok column => matrix.set s.column column
  | .error _ => matrix

/-- The matrix with the columns of some work in their places. -/
def fill (matrix : List (List R)) (work : List Slice) : List (List R) :=
  work.foldl (place f move baseline h) matrix

/-- The points at which some work calls the residual function. -/
def pointsOf (work : List Slice) : List P :=
  work.flatMap fun s ↦ (differentiate f move baseline h 0 s).points

/-- What comes of all the work, whoever does it and when: the first fault, or the matrix filled in
some order. -/
structure Ran (work : List Slice) (matrix : List (List R)) (called : Called P (List (List R))) :
    Prop where
  /-- A fault is the first one. -/
  fault : ∀ fault, firstFault f move baseline h work = some fault →
    called.outcome = .error fault
  /-- Without a fault everything is done once. -/
  filled : firstFault f move baseline h work = none → ∃ log, log.Perm work ∧
    called.outcome = .ok (fill f move baseline h matrix log) ∧
    called.points = pointsOf f move baseline h log

end

section

variable {f : Nat → P → Except Fault (List R)} {move : Int → Except Fault P} {baseline : Tensor R}
  {h : R}

theorem firstFault_append (work more : List Slice) :
    firstFault f move baseline h (work ++ more)
      = (firstFault f move baseline h work).or (firstFault f move baseline h more) :=
  List.findSome?_append

theorem firstFault_flatten (works : List (List Slice)) :
    firstFault f move baseline h works.flatten
      = works.findSome? (firstFault f move baseline h) := by
  induction works with
  | nil => rfl
  | cons work works ih =>
    rw [List.flatten_cons, firstFault_append, ih, List.findSome?_cons]
    cases firstFault f move baseline h work <;> rfl

theorem firstFault_eq_none_iff {work : List Slice} :
    firstFault f move baseline h work = none ↔
      ∀ s ∈ work, ∃ column, (differentiate f move baseline h 0 s).outcome = .ok column := by
  rw [firstFault, List.findSome?_eq_none_iff]
  refine forall₂_congr fun s _ ↦ ?_
  rw [faultOf]
  cases (differentiate f move baseline h 0 s).outcome <;> simp

theorem length_fill (matrix : List (List R)) (work : List Slice) :
    (fill f move baseline h matrix work).length = matrix.length := by
  induction work generalizing matrix with
  | nil => rfl
  | cons s work ih =>
    rw [fill, List.foldl_cons]
    refine (ih _).trans ?_
    rw [place]
    split
    · exact List.length_set
    · rfl

theorem getElem?_fill_of_notMem {work : List Slice} {i : Nat} (hi : i ∉ work.map Slice.column)
    (matrix : List (List R)) : (fill f move baseline h matrix work)[i]? = matrix[i]? := by
  induction work generalizing matrix with
  | nil => rfl
  | cons s work ih =>
    rw [List.map_cons, List.mem_cons, not_or] at hi
    rw [fill, List.foldl_cons]
    refine (ih hi.2 _).trans ?_
    rw [place]
    split
    · exact List.getElem?_set_ne (Ne.symm hi.1)
    · rfl

/-- In work on distinct columns every slice leaves its column behind. -/
theorem getElem?_fill {work : List Slice} (hnodup : (work.map Slice.column).Nodup) {s : Slice}
    (hs : s ∈ work) {column : List R}
    (hcolumn : (differentiate f move baseline h 0 s).outcome = .ok column)
    {matrix : List (List R)} (hlt : s.column < matrix.length) :
    (fill f move baseline h matrix work)[s.column]? = some column := by
  induction work generalizing matrix with
  | nil => exact absurd hs List.not_mem_nil
  | cons t work ih =>
    rw [List.map_cons, List.nodup_cons] at hnodup
    rw [fill, List.foldl_cons]
    rcases List.mem_cons.mp hs with rfl | hs
    · -- Nothing after it is about the same column.
      refine (getElem?_fill_of_notMem hnodup.1 _).trans ?_
      simp only [place, hcolumn]
      exact List.getElem?_set_self hlt
    · have hlength : (place f move baseline h matrix t).length = matrix.length :=
        length_fill matrix [t]
      exact ih hnodup.2 hs (by rwa [hlength])

theorem fill_append (matrix : List (List R)) (work more : List Slice) :
    fill f move baseline h matrix (work ++ more)
      = fill f move baseline h (fill f move baseline h matrix work) more := List.foldl_append

theorem pointsOf_append (work more : List Slice) :
    pointsOf f move baseline h (work ++ more)
      = pointsOf f move baseline h work ++ pointsOf f move baseline h more := List.flatMap_append

/-! ## One worker after another -/

/-- All the work done in its own order, up to a fault. -/
structure RanInOrder (f : Nat → P → Except Fault (List R)) (move : Int → Except Fault P)
    (baseline : Tensor R) (h : R) (work : List Slice) (matrix : List (List R))
    (called : Called P (List (List R))) : Prop where
  /-- A fault is the first one. -/
  fault : ∀ fault, firstFault f move baseline h work = some fault →
    called.outcome = .error fault
  /-- Without a fault everything is done. -/
  filled : firstFault f move baseline h work = none →
    called = ⟨pointsOf f move baseline h work, .ok (fill f move baseline h matrix work)⟩

theorem RanInOrder.ran {work : List Slice} {matrix : List (List R)}
    {called : Called P (List (List R))} (hran : RanInOrder f move baseline h work matrix called) :
    Ran f move baseline h work matrix called where
  fault := hran.fault
  filled hnone := by
    rw [hran.filled hnone]
    exact ⟨work, .refl work, rfl, rfl⟩

section

variable (hf : ∀ n x, f n x = f 0 x)

include hf

theorem ranInOrder_runWorker (work : List Slice) (calls : Nat) (matrix : List (List R)) :
    RanInOrder f move baseline h work matrix
      (runWorker f move baseline h work calls matrix) := by
  induction work generalizing calls matrix with
  | nil => exact ⟨nofun, fun _ ↦ rfl⟩
  | cons s work ih =>
    have hcons : firstFault f move baseline h (s :: work)
        = (faultOf f move baseline h s).or (firstFault f move baseline h work) := by
      rw [firstFault, List.findSome?_cons]
      cases faultOf f move baseline h s <;> rfl
    rw [runWorker, differentiate_of_pure hf move baseline h calls 0 s]
    rcases hs : differentiate f move baseline h 0 s with ⟨points, outcome⟩
    cases outcome with
    | error fault =>
      simp only [faultOf, hs, Option.some_or] at hcons
      refine ⟨fun fault' hfault ↦ ?_, fun hnone ↦ ?_⟩
      · rw [Option.some.inj (hcons.symm.trans hfault)]
      · exact absurd (hcons.symm.trans hnone) (Option.some_ne_none fault)
    | ok column =>
      obtain ⟨hfault, hfilled⟩ := ih (calls + points.length) (matrix.set s.column column)
      simp only [faultOf, hs, Option.none_or] at hcons
      rw [← hcons] at hfault hfilled
      refine ⟨hfault, fun hnone ↦ ?_⟩
      simp only [hfilled hnone]
      simp only [pointsOf, fill, place, List.flatMap_cons, List.foldl_cons, hs]

theorem ranInOrder_runWorkers (works : List (List Slice)) (calls : Nat)
    (matrix : List (List R)) :
    RanInOrder f move baseline h works.flatten matrix
      (runWorkers f move baseline h works calls matrix) := by
  induction works generalizing calls matrix with
  | nil => exact ⟨nofun, fun _ ↦ rfl⟩
  | cons work works ih =>
    have hwork : RanInOrder f move baseline h work matrix
        (runWorker f move baseline h work calls matrix) := ranInOrder_runWorker hf work calls matrix
    rw [List.flatten_cons, runWorkers]
    cases hfirst : firstFault f move baseline h work with
    | some fault =>
      -- The later workers run all the same, but their outcome no longer counts.
      have hall : firstFault f move baseline h (work ++ works.flatten) = some fault := by
        rw [firstFault_append, hfirst, Option.some_or]
      refine ⟨fun fault' hfault' ↦ ?_, fun hnone ↦ ?_⟩
      · obtain rfl := Option.some.inj (hall.symm.trans hfault')
        simp only [hwork.fault fault hfirst]
      · exact absurd (hall.symm.trans hnone) (Option.some_ne_none fault)
    | none =>
      have hall : firstFault f move baseline h (work ++ works.flatten)
          = firstFault f move baseline h works.flatten := by
        rw [firstFault_append, hfirst, Option.none_or]
      rw [hwork.filled hfirst]
      obtain ⟨hfault, hfilled⟩ := ih (calls + (pointsOf f move baseline h work).length)
        (fill f move baseline h matrix work)
      rw [← hall] at hfault hfilled
      refine ⟨hfault, fun hnone ↦ ?_⟩
      simp only [hfilled hnone]
      rw [pointsOf_append, fill_append]

end

/-! ## Workers in turns -/

section

variable {works : List (List Slice)} {blank : List (List R)} {pool : Pool P R}

/-- What is true of workers at any time: no work is lost, a worker has a fault if it has met one,
and matrix and calls are those of all slices begun so far, in some order. -/
structure Pool.Sound (f : Nat → P → Except Fault (List R)) (move : Int → Except Fault P)
    (baseline : Tensor R) (h : R) (works : List (List Slice)) (blank : List (List R))
    (pool : Pool P R) : Prop where
  /-- Each worker still has its hand. -/
  works : pool.workers.map Worker.work = works
  /-- A worker has the first fault of what it has begun. -/
  fault : ∀ w ∈ pool.workers, w.fault = firstFault f move baseline h w.begun
  /-- What has been begun shows in the matrix and in the calls. -/
  log : ∃ log, log.Perm (pool.workers.flatMap Worker.begun) ∧
    pool.matrix = fill f move baseline h blank log ∧ pool.points = pointsOf f move baseline h log

theorem Worker.eq_of_isDone_eq_false {w : Worker} (hw : w.isDone = false) :
    ∃ s left, w = ⟨w.begun, s :: left, none⟩ := by
  obtain ⟨begun, _ | ⟨s, left⟩, _ | fault⟩ := w
  · exact nomatch hw
  · exact nomatch hw
  · exact ⟨s, left, rfl⟩
  · exact nomatch hw

theorem Worker.isDone_iff {w : Worker} : w.isDone = true ↔ w.pending = 0 := by
  rw [isDone, pending, Bool.or_eq_true]
  cases w.fault <;> simp

namespace Pool

theorem turn_eq (hf : ∀ n x, f n x = f 0 x) {k : Nat} {begun left : List Slice} {s : Slice}
    (hk : pool.workers[k]? = some ⟨begun, s :: left, none⟩) :
    pool.turn f move baseline h k
      = ⟨pool.workers.set k ⟨begun ++ [s], left, faultOf f move baseline h s⟩,
        fill f move baseline h pool.matrix [s], pool.points ++ pointsOf f move baseline h [s]⟩ := by
  simp only [turn, hk, differentiate_of_pure hf move baseline h pool.points.length 0 s]
  rcases hs : differentiate f move baseline h 0 s with ⟨points, outcome⟩
  cases outcome <;>
    simp only [faultOf, fill, place, pointsOf, hs, List.foldl_cons, List.foldl_nil,
      List.flatMap_singleton]

theorem turn_of_isDone {k : Nat} {w : Worker} (hk : pool.workers[k]? = some w)
    (hdone : w.isDone = true) : pool.turn f move baseline h k = pool := by
  obtain ⟨begun, left, fault⟩ := w
  rw [turn, hk]
  split
  next hopen =>
    obtain ⟨rfl, rfl, rfl⟩ := Worker.mk.inj (Option.some.inj hopen)
    exact nomatch hdone
  · rfl

theorem turn_of_none {k : Nat} (hk : pool.workers[k]? = none) :
    pool.turn f move baseline h k = pool := by
  rw [turn, hk]

theorem sound_start (works : List (List Slice)) (blank : List (List R)) :
    (start works blank : Pool P R).Sound f move baseline h
      (works.filter fun work ↦ !work.isEmpty) blank := by
  refine ⟨?_, ?_, [], ?_, rfl, rfl⟩
  · rw [start, List.map_map]
    exact List.map_id _
  · intro w hw
    obtain ⟨work, -, rfl⟩ := List.mem_map.mp hw
    rfl
  · rw [start, List.flatMap_map, List.flatMap_eq_nil_iff.mpr fun _ _ ↦ rfl]

/-- **A turn keeps workers sound.** -/
theorem Sound.turn (hf : ∀ n x, f n x = f 0 x) (hpool : pool.Sound f move baseline h works blank)
    (k : Nat) : (pool.turn f move baseline h k).Sound f move baseline h works blank := by
  cases hk : pool.workers[k]? with
  | none => rwa [turn_of_none hk]
  | some w =>
    cases hdone : w.isDone with
    | true => rwa [turn_of_isDone hk hdone]
    | false =>
      obtain ⟨s, left, hw⟩ := Worker.eq_of_isDone_eq_false hdone
      rw [hw] at hk
      rw [turn_eq hf hk]
      obtain ⟨log, hlog, hmatrix, hpoints⟩ := hpool.log
      obtain ⟨hlt, hget⟩ := List.getElem?_eq_some_iff.mp hk
      -- Only the worker whose turn it is changes. The others stand before and behind it.
      have hbefore : pool.workers
          = pool.workers.take k ++ ⟨w.begun, s :: left, none⟩ :: pool.workers.drop (k + 1) := by
        rw [← hget, List.getElem_cons_drop, List.take_append_drop]
      have hafter : pool.workers.set k ⟨w.begun ++ [s], left, faultOf f move baseline h s⟩
          = pool.workers.take k ++ ⟨w.begun ++ [s], left, faultOf f move baseline h s⟩ ::
            pool.workers.drop (k + 1) := by
        rw [List.set_eq_take_append_cons_drop, if_pos hlt]
      refine ⟨?_, ?_, log ++ [s], ?_, ?_, ?_⟩
      · -- Beginning a slice moves it within the hand.
        have hwork : (⟨w.begun ++ [s], left, faultOf f move baseline h s⟩ : Worker).work
            = (⟨w.begun, s :: left, none⟩ : Worker).work := List.append_assoc _ _ _
        rw [← hpool.works, hafter, List.map_append, List.map_cons, hwork]
        conv_rhs => rw [hbefore, List.map_append, List.map_cons]
      · intro v hv
        rcases List.mem_or_eq_of_mem_set hv with hv | rfl
        · exact hpool.fault v hv
        · have hnone := hpool.fault _ (List.mem_of_getElem? hk)
          rw [firstFault_append, ← hnone, Option.none_or, firstFault, List.findSome?_singleton]
      · rw [hafter, List.flatMap_append, List.flatMap_cons]
        refine (hlog.append_right [s]).trans ?_
        conv_lhs => rw [hbefore, List.flatMap_append, List.flatMap_cons]
        simp only [List.append_assoc]
        exact List.perm_append_comm.append_left _ |>.append_left _
      · rw [hmatrix, ← fill_append]
      · rw [hpoints, ← pointsOf_append]

theorem Sound.run (hf : ∀ n x, f n x = f 0 x) (hpool : pool.Sound f move baseline h works blank)
    (schedule : List Nat) :
    (pool.run f move baseline h schedule).Sound f move baseline h works blank := by
  induction schedule generalizing pool with
  | nil => exact hpool
  | cons k schedule ih => exact ih (hpool.turn hf k)

/-- When all workers are done, all the work is done, or its first fault is that of the first worker
with one. -/
theorem Sound.ran (hpool : pool.Sound f move baseline h works blank) (hdone : pool.isDone = true) :
    Ran f move baseline h works.flatten blank ⟨pool.points, pool.outcome⟩ := by
  -- A worker that is done has either failed, and then what it has not begun does not matter, or
  -- begun its whole hand.
  have hworker : ∀ w ∈ pool.workers, w.fault = firstFault f move baseline h w.work ∧
      (w.fault = none → w.begun = w.work) := by
    intro w hw
    rw [Worker.work, firstFault_append, ← hpool.fault w hw]
    have hw := List.all_eq_true.mp hdone w hw
    obtain ⟨begun, left, _ | fault⟩ := w
    · have hleft : left = [] := List.isEmpty_iff.mp hw
      rw [hleft, List.append_nil]
      exact ⟨rfl, fun _ ↦ rfl⟩
    · exact ⟨rfl, nofun⟩
  have hfirst : pool.workers.findSome? Worker.fault
      = firstFault f move baseline h works.flatten := by
    have hmap : pool.workers.map Worker.fault
        = (pool.workers.map Worker.work).map (firstFault f move baseline h) := by
      rw [List.map_map]
      exact List.map_congr_left fun w hw ↦ (hworker w hw).1
    rw [firstFault_flatten, ← hpool.works, ← Function.id_comp Worker.fault, ← List.findSome?_map,
      hmap, List.findSome?_map, Function.id_comp]
  refine ⟨fun fault hfault ↦ ?_, fun hnone ↦ ?_⟩
  · simp only [outcome, hfirst, hfault]
  · obtain ⟨log, hlog, hmatrix, hpoints⟩ := hpool.log
    refine ⟨log, ?_, ?_, hpoints⟩
    · rw [← hpool.works, ← List.flatMap_def]
      refine hlog.trans (.of_eq (List.flatMap_congr fun w hw ↦ (hworker w hw).2 ?_))
      exact List.findSome?_eq_none_iff.mp (hfirst.trans hnone) w hw
    · simp only [outcome, hfirst, hnone, hmatrix]

/-- **However workers take turns, once they are done they have done their work.** -/
theorem ran_run (hf : ∀ n x, f n x = f 0 x) (works : List (List Slice)) (blank : List (List R))
    {schedule : List Nat}
    (hdone : ((start works blank : Pool P R).run f move baseline h schedule).isDone = true) :
    Ran f move baseline h works.flatten blank
      ⟨((start works blank : Pool P R).run f move baseline h schedule).points,
        ((start works blank : Pool P R).run f move baseline h schedule).outcome⟩ := by
  have hran := ((sound_start works blank).run hf schedule).ran hdone
  rwa [List.flatten_filter_not_isEmpty] at hran

/-! ### Enough turns -/

theorem exists_pending_of_turn (hf : ∀ n x, f n x = f 0 x) {i k : Nat} {v : Worker}
    (hv : (pool.turn f move baseline h k).workers[i]? = some v) :
    ∃ w, pool.workers[i]? = some w ∧ v.pending ≤ w.pending - if k = i then 1 else 0 := by
  cases hk : pool.workers[k]? with
  | none =>
    rw [turn_of_none hk] at hv
    have hki : k ≠ i := by
      rintro rfl
      exact nomatch hk.symm.trans hv
    exact ⟨v, hv, by simp [hki]⟩
  | some w =>
    cases hdone : w.isDone with
    | true =>
      rw [turn_of_isDone hk hdone] at hv
      refine ⟨v, hv, ?_⟩
      by_cases hki : k = i
      · subst hki
        obtain rfl := Option.some.inj (hk.symm.trans hv)
        rw [Worker.isDone_iff.mp hdone]
        exact Nat.zero_le _
      · simp [hki]
    | false =>
      obtain ⟨s, left, hw⟩ := Worker.eq_of_isDone_eq_false hdone
      rw [turn_eq hf (hw ▸ hk)] at hv
      by_cases hki : k = i
      · -- A fault leaves nothing pending, and otherwise there is one slice less.
        subst hki
        rw [List.getElem?_set_self (List.getElem?_eq_some_iff.mp hk).1, Option.some.injEq] at hv
        refine ⟨w, hk, ?_⟩
        rw [← hv, hw, if_pos rfl, Worker.pending]
        split
        · exact Nat.zero_le _
        · exact Nat.le_refl _
      · rw [List.getElem?_set_ne hki] at hv
        exact ⟨v, hv, by simp [hki]⟩

theorem exists_pending_of_run (hf : ∀ n x, f n x = f 0 x) {i : Nat} {v : Worker}
    {schedule : List Nat} (hv : (pool.run f move baseline h schedule).workers[i]? = some v) :
    ∃ w, pool.workers[i]? = some w ∧ v.pending ≤ w.pending - schedule.count i := by
  induction schedule generalizing pool with
  | nil => exact ⟨v, hv, Nat.le_refl _⟩
  | cons k schedule ih =>
    obtain ⟨u, hu, hvu⟩ := ih hv
    obtain ⟨w, hw, huw⟩ := exists_pending_of_turn hf hu
    refine ⟨w, hw, ?_⟩
    rw [List.count_cons]
    simp only [beq_iff_eq]
    omega

theorem isDone_run (hf : ∀ n x, f n x = f 0 x) {schedule : List Nat}
    (hturns : ∀ i w, pool.workers[i]? = some w → w.pending ≤ schedule.count i) :
    (pool.run f move baseline h schedule).isDone = true := by
  refine List.all_eq_true.mpr fun v hv ↦ Worker.isDone_iff.mpr ?_
  obtain ⟨i, hi⟩ := List.mem_iff_getElem?.mp hv
  obtain ⟨w, hw, hle⟩ := exists_pending_of_run hf hi
  rw [Nat.sub_eq_zero_of_le (hturns i w hw)] at hle
  exact Nat.le_zero.mp hle

theorem isDone_run_start (hf : ∀ n x, f n x = f 0 x) {works : List (List Slice)}
    {blank : List (List R)} {schedule : List Nat}
    (hturns : ∀ i work, (works.filter fun work ↦ !work.isEmpty)[i]? = some work →
      work.length ≤ schedule.count i) :
    ((start works blank : Pool P R).run f move baseline h schedule).isDone = true := by
  refine isDone_run hf fun i w hw ↦ ?_
  rw [start, List.getElem?_map] at hw
  obtain ⟨work, hwork, rfl⟩ := Option.map_eq_some_iff.mp hw
  exact hturns i work hwork

end Pool

end

end

end DampedLeastSquares.Jacobian
