/-
# Fair locks

A mutex or a read-write lock that serves its callers in the order in which they came
(`FairLock`): a caller joins the queue, and only the first of the queue is granted the lock, when
its mode goes with those of the holders.  So a writer in the queue keeps later readers waiting.  A
mutex is a lock that is only taken exclusively.

What a caller relies on is a field of the structure: who holds the lock exclusively holds it alone
(`FairLock.owner_unique`).  A caller that waits is blocked by a holder or by one before it
(`FairLock.Blocks`).
-/

import Mathlib.Data.List.Nodup
import Mathlib.Tactic.Common

/-- How a lock is taken. -/
inductive LockMode where
  | shared
  | exclusive
  deriving DecidableEq

/-- The holders of a lock, and those that wait for it, the first one first. -/
structure FairLock (ι : Type*) where
  holders : List (ι × LockMode)
  waiters : List (ι × LockMode)
  /-- Who holds it exclusively holds it alone. -/
  alone : ∀ h ∈ holders, h.2 = .exclusive → holders = [h]

namespace FairLock

variable {ι : Type*}

/-- A lock that nobody has asked for. -/
def free : FairLock ι where
  holders := []
  waiters := []
  alone := fun _ h => absurd h List.not_mem_nil

variable (l : FairLock ι)

variable {l : FairLock ι}

theorem owner_unique {i j : ι} {m : LockMode} (hi : (i, .exclusive) ∈ l.holders)
    (hj : (j, m) ∈ l.holders) : j = i := by
  rw [l.alone _ hi rfl] at hj
  exact (Prod.mk.inj (List.mem_singleton.mp hj)).1

/-- A mode goes with the modes of the holders. -/
def admits : LockMode → Bool
  | .shared => l.holders.all fun h => h.2 = .shared
  | .exclusive => l.holders.isEmpty

/-- A caller joins the queue. -/
def request (i : ι) (m : LockMode) : FairLock ι :=
  { l with waiters := l.waiters ++ [(i, m)] }

/-- With one that is admitted, an exclusive holder is still alone. -/
theorem alone_cons {w : ι × LockMode} (hadmits : l.admits w.2 = true) :
    ∀ h ∈ w :: l.holders, h.2 = .exclusive → w :: l.holders = [h] := by
  intro h hmem hexclusive
  rcases List.mem_cons.mp hmem with rfl | hold
  · rw [hexclusive] at hadmits
    rw [List.isEmpty_iff.mp hadmits]
  · cases hmode : w.2 with
    | shared =>
      rw [hmode] at hadmits
      have hshared := List.all_eq_true.mp hadmits h hold
      rw [hexclusive] at hshared
      cases hshared
    | exclusive =>
      rw [hmode] at hadmits
      rw [List.isEmpty_iff.mp hadmits] at hold
      cases hold

/-- The first of the queue is granted the lock, when it is admitted. -/
def grant : Option (FairLock ι) :=
  match l.waiters with
  | [] => none
  | w :: rest =>
    if h : l.admits w.2 = true then
      some { holders := w :: l.holders, waiters := rest, alone := alone_cons h }
    else none

theorem grant_eq_some {l' : FairLock ι} (h : l.grant = some l') :
    ∃ w, l.waiters = w :: l'.waiters ∧ l.admits w.2 = true ∧ l'.holders = w :: l.holders := by
  rw [grant] at h
  split at h
  · cases h
  · rename_i w rest hwaiters
    split_ifs at h with hadmits
    obtain rfl := Option.some.inj h
    exact ⟨w, hwaiters, hadmits, rfl⟩

/-- The first of the queue is granted the lock when its mode goes with those of the holders. -/
theorem grant_of_admits {w : ι × LockMode} {rest : List (ι × LockMode)}
    (hwaiters : l.waiters = w :: rest) (hadmits : l.admits w.2 = true) :
    ∃ l', l.grant = some l' ∧ l'.holders = w :: l.holders ∧ l'.waiters = rest := by
  have hgrant : l.grant =
      some { holders := w :: l.holders, waiters := rest, alone := alone_cons hadmits } := by
    rw [grant]
    split
    · rename_i hnil
      rw [hnil] at hwaiters
      cases hwaiters
    · rename_i w' rest' hcons
      obtain ⟨rfl, rfl⟩ := List.cons.inj (hcons.symm.trans hwaiters)
      rw [dif_pos hadmits]
  exact ⟨_, hgrant, rfl, rfl⟩

/-- The first of the queue of a lock that nobody holds is granted it. -/
theorem grant_of_free {w : ι × LockMode} {rest : List (ι × LockMode)}
    (hholders : l.holders = []) (hwaiters : l.waiters = w :: rest) :
    ∃ l', l.grant = some l' ∧ l'.holders = [w] ∧ l'.waiters = rest := by
  have hadmits : l.admits w.2 = true := by
    rw [admits.eq_def, hholders]
    cases w.2 <;> rfl
  obtain ⟨l', hgrant, hholds, hrest⟩ := grant_of_admits hwaiters hadmits
  rw [hholders] at hholds
  exact ⟨l', hgrant, hholds, hrest⟩

/-- `j` keeps the waiting `i` from the lock: it holds it in a mode that does not go with the one
`i` asks for, or it came before `i`. -/
def Blocks (j i : ι) : Prop :=
  ∃ front m back, l.waiters = front ++ (i, m) :: back ∧
    ((∃ held, (j, held) ∈ l.holders ∧ (held = .exclusive ∨ m = .exclusive)) ∨
      ∃ asked, (j, asked) ∈ front)

variable [DecidableEq ι]

/-- A holder gives the lock back. -/
def release (i : ι) : FairLock ι :=
  { l with
    holders := l.holders.filter fun h => h.1 ≠ i
    alone := by
      intro h hmem hexclusive
      obtain ⟨hold, hne⟩ := List.mem_filter.mp hmem
      rw [l.alone h hold hexclusive]
      refine List.filter_eq_self.mpr fun a ha => ?_
      rw [List.mem_singleton.mp ha]
      exact hne }

/-- A caller leaves the queue. -/
def cancel (i : ι) : FairLock ι :=
  { l with waiters := l.waiters.filter fun w => w.1 ≠ i }

theorem mem_holders_release {i : ι} {h : ι × LockMode} :
    h ∈ (l.release i).holders ↔ h ∈ l.holders ∧ h.1 ≠ i := by
  rw [release, List.mem_filter, decide_eq_true_eq]

theorem mem_waiters_cancel {i : ι} {w : ι × LockMode} :
    w ∈ (l.cancel i).waiters ↔ w ∈ l.waiters ∧ w.1 ≠ i := by
  rw [cancel, List.mem_filter, decide_eq_true_eq]

theorem holders_release {i : ι} (h : (i, .exclusive) ∈ l.holders) :
    (l.release i).holders = [] := by
  refine List.eq_nil_iff_forall_not_mem.mpr fun a ha => ?_
  obtain ⟨hold, hne⟩ := mem_holders_release.mp ha
  exact hne (owner_unique h hold)

end FairLock
