/-
# Lines of tasks before a fair mutex

A fair mutex, seen from a pool of tasks.  The mutex is the line of the tasks that asked for it:
the first of the line owns it, and goes in when it runs again; the others wait in the order in
which they came.  Where a task is follows from the task itself, by a function `place`.

* `ServiceLine.Linked` — the line is made of the tasks that say that they are in it, each once, and
  a task that is inside is the first;
* `Linked.unique` — one task is inside;
* `Linked.move`, `Linked.add`, `Linked.arrive` — the line when a task goes on, and when one comes;
* `Ordered` — an order on the tasks that the line respects, and its three rules.
-/

import HelmSsh.Pool
import Mathlib.Data.List.Nodup
import Mathlib.Tactic.Common

/-- Where a task is, seen from the mutex. -/
inductive LinePlace where
  | outside
  | waiting
  | inside
  deriving DecidableEq

namespace ServiceLine

variable {τ : Type*} {place : τ → LinePlace} {line : List ℕ} {tasks : List τ} {t u : τ} {i j : ℕ}

/-- The line is that of the tasks. -/
structure Linked (place : τ → LinePlace) (line : List ℕ) (tasks : List τ) : Prop where
  mem : ∀ (i : ℕ) (t : τ), tasks[i]? = some t → (i ∈ line ↔ place t ≠ .outside)
  bound : ∀ i ∈ line, i < tasks.length
  first : ∀ (i : ℕ) (t : τ), tasks[i]? = some t → place t = .inside → line.head? = some i
  nodup : line.Nodup

theorem linked_nil : Linked place [] [] where
  mem := fun _ _ h => by cases h
  bound := fun _ h => absurd h List.not_mem_nil
  first := fun _ _ h => by cases h
  nodup := List.nodup_nil

/-- **One task is inside.** -/
theorem Linked.unique (h : Linked place line tasks) (ht : tasks[i]? = some t)
    (hu : tasks[j]? = some u) (hinside : place t = .inside) (hinside' : place u = .inside) :
    j = i := by
  have hi := h.first i t ht hinside
  have hj := h.first j u hu hinside'
  rw [hi] at hj
  exact (Option.some.inj hj).symm

theorem Linked.outside_of_first (h : Linked place line tasks) (hfirst : line.head? = some i)
    (hu : tasks[j]? = some u) (hne : j ≠ i) : place u ≠ .inside := by
  intro hinside
  have hj := h.first j u hu hinside
  rw [hfirst] at hj
  exact hne (Option.some.inj hj).symm

/-- A task goes on where it is, or goes in as the first of the line. -/
theorem Linked.stay (h : Linked place line tasks) (ht : tasks[i]? = some t)
    (hplace : place u ≠ .outside ↔ place t ≠ .outside)
    (hfirst : place u = .inside → line.head? = some i) :
    Linked place line (tasks.set i u) := by
  refine ⟨fun j v hv => ?_, fun j hj => ?_, fun j v hv hinside => ?_, h.nodup⟩
  · rcases Pool.getElem?_set hv with ⟨rfl, rfl⟩ | ⟨-, hold⟩
    · exact (h.mem j t ht).trans hplace.symm
    · exact h.mem j v hold
  · rw [List.length_set]
    exact h.bound j hj
  · rcases Pool.getElem?_set hv with ⟨rfl, rfl⟩ | ⟨-, hold⟩
    · exact hfirst hinside
    · exact h.first j v hold hinside

theorem Linked.join (h : Linked place line tasks) (ht : tasks[i]? = some t)
    (houtside : place t = .outside) (hwaiting : place u = .waiting) :
    Linked place (line ++ [i]) (tasks.set i u) := by
  have hnew : i ∉ line := fun hmem => (h.mem i t ht).mp hmem houtside
  refine ⟨fun j v hv => ?_, fun j hj => ?_, fun j v hv hinside => ?_, ?_⟩
  · rw [List.mem_append, List.mem_singleton]
    rcases Pool.getElem?_set hv with ⟨rfl, rfl⟩ | ⟨hne, hold⟩
    · rw [hwaiting]
      exact ⟨fun _ => nofun, fun _ => .inr rfl⟩
    · rw [or_iff_left hne]
      exact h.mem j v hold
  · rw [List.length_set]
    rcases List.mem_append.mp hj with hold | hlast
    · exact h.bound j hold
    · obtain rfl := List.mem_singleton.mp hlast
      exact (List.getElem?_eq_some_iff.mp ht).1
  · rcases Pool.getElem?_set hv with ⟨rfl, rfl⟩ | ⟨-, hold⟩
    · rw [hwaiting] at hinside
      cases hinside
    · rw [List.head?_append_of_ne_nil]
      · exact h.first j v hold hinside
      · exact List.ne_nil_of_mem ((h.mem j v hold).mpr (by rw [hinside]; nofun))
  · rw [List.nodup_append]
    refine ⟨h.nodup, List.nodup_singleton i, fun a ha b hb heq => ?_⟩
    obtain rfl := List.mem_singleton.mp hb
    exact hnew (heq ▸ ha)

/-- The task that is inside leaves, and the next one is the first. -/
theorem Linked.leave (h : Linked place line tasks) (ht : tasks[i]? = some t)
    (hinside : place t = .inside) (houtside : place u = .outside) :
    Linked place line.tail (tasks.set i u) := by
  have hfirst := h.first i t ht hinside
  obtain ⟨rest, rfl⟩ : ∃ rest, line = i :: rest := by
    cases line with
    | nil => cases hfirst
    | cons a rest =>
      obtain rfl := Option.some.inj hfirst
      exact ⟨rest, rfl⟩
  obtain ⟨hnew, hrest⟩ := List.nodup_cons.mp h.nodup
  refine ⟨fun j v hv => ?_, fun j hj => ?_, fun j v hv hin => ?_, hrest⟩
  · rcases Pool.getElem?_set hv with ⟨rfl, rfl⟩ | ⟨hne, hold⟩
    · exact iff_of_false hnew fun hplace => hplace houtside
    · rw [← h.mem j v hold, List.mem_cons]
      exact (or_iff_right hne).symm
  · rw [List.length_set]
    exact h.bound j (List.mem_cons_of_mem i hj)
  · rcases Pool.getElem?_set hv with ⟨rfl, rfl⟩ | ⟨hne, hold⟩
    · rw [houtside] at hin
      cases hin
    · exact absurd hin (h.outside_of_first hfirst hold hne)

theorem Linked.add (h : Linked place line tasks) (houtside : place t = .outside) :
    Linked place line (tasks ++ [t]) := by
  refine ⟨fun j v hv => ?_, fun j hj => ?_, fun j v hv hinside => ?_, h.nodup⟩
  · rcases Pool.getElem?_add hv with ⟨rfl, rfl⟩ | hold
    · have hnew : tasks.length ∉ line := fun hmem => Nat.lt_irrefl _ (h.bound _ hmem)
      exact iff_of_false hnew fun hplace => hplace houtside
    · exact h.mem j v hold
  · rw [List.length_append]
    exact Nat.lt_add_right _ (h.bound j hj)
  · rcases Pool.getElem?_add hv with ⟨rfl, rfl⟩ | hold
    · rw [houtside] at hinside
      cases hinside
    · exact h.first j v hold hinside

theorem Linked.arrive (h : Linked place line tasks) (hwaiting : place t = .waiting)
    {outside : τ} (houtside : place outside = .outside) :
    Linked place (line ++ [tasks.length]) (tasks ++ [t]) := by
  have hjoin := (h.add houtside).join (Pool.getElem?_added tasks outside) houtside hwaiting
  rwa [Pool.set_add] at hjoin

/-- The line when the task at `i` goes from a place to another one. -/
def after (line : List ℕ) (i : ℕ) : LinePlace → LinePlace → List ℕ
  | .outside, .waiting => line ++ [i]
  | .inside, .outside => line.tail
  | _, _ => line

/-- A task goes on where it is, joins the line, goes in as the first of the line, or leaves. -/
def CanMove (line : List ℕ) (i : ℕ) (source target : LinePlace) : Prop :=
  target = source ∨ source = .outside ∧ target = .waiting ∨
    source = .waiting ∧ target = .inside ∧ line.head? = some i ∨
    source = .inside ∧ target = .outside

/-- **The line stays that of the tasks** when one goes on. -/
theorem Linked.move (h : Linked place line tasks) (ht : tasks[i]? = some t)
    (hmove : CanMove line i (place t) (place u)) :
    Linked place (after line i (place t) (place u)) (tasks.set i u) := by
  rcases hmove with hsame | ⟨hfrom, hto⟩ | ⟨hfrom, hto, hfirst⟩ | ⟨hfrom, hto⟩
  · have hline : after line i (place t) (place u) = line := by
      rw [hsame]
      cases place t <;> rfl
    rw [hline]
    exact h.stay ht (by rw [hsame]) fun hinside => h.first i t ht (hsame ▸ hinside)
  · rw [hfrom, hto]
    exact h.join ht hfrom hto
  · rw [hfrom, hto]
    refine h.stay ht ?_ fun _ => hfirst
    rw [hfrom, hto]
    exact ⟨nofun, nofun⟩
  · rw [hfrom, hto]
    exact h.leave ht hfrom hto

/-! ### What the line respects -/

/-- Of two tasks in the line, the first one stands in `before` to the second. -/
def Ordered (before : ℕ → ℕ → Prop) (line : List ℕ) : Prop :=
  line.Pairwise before

variable {before before' : ℕ → ℕ → Prop}

/-- The first of the line stands in the order to every other one. -/
theorem Ordered.first (h : Ordered before line) (hfirst : line.head? = some i) (hj : j ∈ line)
    (hne : j ≠ i) : before i j := by
  cases line with
  | nil => cases hfirst
  | cons a rest =>
    obtain rfl := Option.some.inj hfirst
    rcases List.mem_cons.mp hj with rfl | hrest
    · exact absurd rfl hne
    · exact (List.pairwise_cons.mp h).1 j hrest

theorem Ordered.join (h : Ordered before line) (hlast : ∀ j ∈ line, before j i) :
    Ordered before (line ++ [i]) := by
  rw [Ordered, List.pairwise_append]
  refine ⟨h, List.pairwise_singleton _ _, fun j hj k hk => ?_⟩
  obtain rfl := List.mem_singleton.mp hk
  exact hlast j hj

theorem Ordered.leave (h : Ordered before line) : Ordered before line.tail :=
  List.Pairwise.tail h

theorem Ordered.imp (h : Ordered before line)
    (himp : ∀ i ∈ line, ∀ j ∈ line, before i j → before' i j) : Ordered before' line :=
  List.Pairwise.imp_of_mem (fun {i j} hi hj hij => himp i hi j hj hij) h

end ServiceLine
