import Mathlib.Data.List.Nodup
import Mathlib.Data.List.Perm.Basic

/-! A condition variable that wakes one sleeper for each new item. A task that was woken
runs later, and sleeps again if another task took the item before it. -/

namespace ChipSystemSim

/-- The tasks at a condition: those that sleep, oldest first, and those that were woken
and have not run since. -/
structure Waiters (ι : Type*) where
  sleeping : List ι := []
  woken : List ι := []

namespace Waiters

variable {ι : Type*}

def notify (w : Waiters ι) : Waiters ι :=
  match w.sleeping with
  | [] => w
  | i :: rest => ⟨rest, w.woken ++ [i]⟩

/-- All tasks at the condition. -/
def tasks (w : Waiters ι) : List ι := w.sleeping ++ w.woken

/-- While a task sleeps there is a woken one for each item. -/
def Covers (w : Waiters ι) (items : Nat) : Prop := w.sleeping ≠ [] → items ≤ w.woken.length

theorem notify_perm (w : Waiters ι) : w.notify.tasks.Perm w.tasks := by
  unfold notify tasks
  cases hsleeping : w.sleeping with
  | nil => simp [hsleeping]
  | cons i rest =>
    rw [← List.append_assoc]
    exact List.perm_append_singleton i (rest ++ w.woken)

theorem covers_notify {w : Waiters ι} {items : Nat} (h : w.Covers items) :
    w.notify.Covers (items + 1) := by
  unfold notify Covers at *
  cases hsleeping : w.sleeping with
  | nil => simp [hsleeping]
  | cons i rest =>
    intro _
    have hitems := h (by simp [hsleeping])
    simp only [List.length_append, List.length_singleton]
    omega

theorem Covers.exists_woken {w : Waiters ι} {items : Nat} (h : w.Covers items) (hitems : 0 < items)
    (hsleeping : w.sleeping ≠ []) : ∃ i, i ∈ w.woken :=
  List.exists_mem_of_length_pos (Nat.lt_of_lt_of_le hitems (h hsleeping))

variable [DecidableEq ι]

def leave (w : Waiters ι) (i : ι) : Waiters ι := ⟨w.sleeping, w.woken.erase i⟩

def sleep (w : Waiters ι) (i : ι) : Waiters ι := ⟨w.sleeping ++ [i], w.woken.erase i⟩

theorem covers_leave {w : Waiters ι} {items : Nat} (h : w.Covers (items + 1)) (i : ι) :
    (w.leave i).Covers items := by
  intro hsleeping
  have hitems := h hsleeping
  have herased := List.le_length_erase (a := i) (l := w.woken)
  simp only [leave]
  omega

theorem covers_sleep (w : Waiters ι) (i : ι) : (w.sleep i).Covers 0 := fun _ => Nat.zero_le _

theorem leave_tasks (w : Waiters ι) {i : ι} (hawake : i ∉ w.sleeping) :
    (w.leave i).tasks = w.tasks.erase i := by
  rw [leave, tasks, tasks, List.erase_append_right _ hawake]

theorem mem_leave {w : Waiters ι} (hdistinct : w.tasks.Nodup) {i j : ι} (hawake : i ∉ w.sleeping) :
    j ∈ (w.leave i).tasks ↔ j ≠ i ∧ j ∈ w.tasks := by
  rw [leave_tasks w hawake, hdistinct.mem_erase_iff]

theorem nodup_leave {w : Waiters ι} (hdistinct : w.tasks.Nodup) {i : ι} (hawake : i ∉ w.sleeping) :
    (w.leave i).tasks.Nodup := by
  rw [leave_tasks w hawake]
  exact hdistinct.erase i

theorem sleep_perm (w : Waiters ι) (i : ι) : (w.sleep i).tasks.Perm (i :: (w.leave i).tasks) := by
  simp only [sleep, leave, tasks, List.append_assoc, List.singleton_append]
  exact List.perm_middle

theorem nodup_sleep {w : Waiters ι} (hdistinct : w.tasks.Nodup) {i : ι} (hawake : i ∉ w.sleeping) :
    (w.sleep i).tasks.Nodup := by
  rw [(sleep_perm w i).nodup_iff, List.nodup_cons]
  exact ⟨fun hi => ((mem_leave hdistinct hawake).mp hi).1 rfl, nodup_leave hdistinct hawake⟩

theorem mem_sleep {w : Waiters ι} (hdistinct : w.tasks.Nodup) {i j : ι} (hawake : i ∉ w.sleeping) :
    j ∈ (w.sleep i).tasks ↔ j = i ∨ j ∈ w.tasks := by
  rw [(sleep_perm w i).mem_iff, List.mem_cons, mem_leave hdistinct hawake]
  tauto

end Waiters

end ChipSystemSim
