/-
# JSON values and merge patches

A JSON value as a program has it in memory: an object is a list of members, each with its key, and
no object in a `JsonDocument` has a key twice, which a map guarantees.  `JsonValue.mergePatch` is
the merge patch of RFC 7396 as a loop over the members of the patch; what it leaves is said member
by member (`lookup_mergeMembers`): a member that the patch does not have stays, a member that it has
as `null` is gone, and any other is the merge of the old one with it.
-/

import Mathlib.Data.List.Nodup
import Mathlib.Tactic.Common

/-- A number of a JSON value: a natural number, a negative integer, or any other one by its text. -/
inductive JsonNumber where
  | natural (n : ℕ)
  | negative (n : ℕ)
  | float (text : String)
  deriving DecidableEq

/-- A JSON value. -/
inductive JsonValue where
  | null
  | bool (value : Bool)
  | number (value : JsonNumber)
  | string (value : String)
  | array (elements : List JsonValue)
  | object (members : List (String × JsonValue))

namespace JsonValue

/-- The members of an object. -/
abbrev Members := List (String × JsonValue)

/-- The value is `null`. -/
def isNull : JsonValue → Bool
  | null => true
  | _ => false

/-- The members of an object, and none of any other value. -/
def membersOf : Option JsonValue → Members
  | some (object members) => members
  | _ => []

/-- A member gets a value: the one that has the key, or a new one. -/
def insert (key : String) (value : JsonValue) : Members → Members
  | [] => [(key, value)]
  | (k, v) :: rest => if k = key then (key, value) :: rest else (k, v) :: insert key value rest

/-- The members without a key. -/
def remove (key : String) (members : Members) : Members :=
  members.filter fun member => member.1 ≠ key

mutual

/-- **RFC 7396**: what a patch makes of a value that may be missing. -/
def mergePatch (target : Option JsonValue) : JsonValue → JsonValue
  | object patch => object (mergeMembers (membersOf target) patch)
  | null => null
  | bool value => bool value
  | number value => number value
  | string value => string value
  | array elements => array elements

/-- The loop over the members of a patch. -/
def mergeMembers (target : Members) : Members → Members
  | [] => target
  | (key, value) :: rest =>
    mergeMembers (if value.isNull then remove key target
      else insert key (mergePatch (target.lookup key) value) target) rest

end

mutual

/-- No object in the value has a key twice. -/
def keysDistinct : JsonValue → Bool
  | object members => (members.map Prod.fst).Nodup && membersDistinct members
  | array elements => elementsDistinct elements
  | null => true
  | bool _ => true
  | number _ => true
  | string _ => true

/-- No object in the members has a key twice. -/
def membersDistinct : Members → Bool
  | [] => true
  | (_, value) :: rest => value.keysDistinct && membersDistinct rest

/-- No object in the elements has a key twice. -/
def elementsDistinct : List JsonValue → Bool
  | [] => true
  | value :: rest => value.keysDistinct && elementsDistinct rest

end

/-! ### The members behind a change -/

theorem lookup_insert (key key' : String) (value : JsonValue) (members : Members) :
    (insert key value members).lookup key' =
      if key' = key then some value else members.lookup key' := by
  induction members with
  | nil =>
    rw [insert, List.lookup_cons]
    by_cases h : key' = key
    · rw [if_pos h, beq_iff_eq.mpr h]
    · rw [if_neg h, beq_eq_false_iff_ne.mpr h]
  | cons member rest ih =>
    obtain ⟨k, v⟩ := member
    rw [insert]
    by_cases hk : k = key
    · rw [if_pos hk, List.lookup_cons, List.lookup_cons, hk]
      by_cases h : key' = key
      · rw [if_pos h, beq_iff_eq.mpr h]
      · rw [if_neg h, beq_eq_false_iff_ne.mpr h]
    · rw [if_neg hk, List.lookup_cons, List.lookup_cons, ih]
      by_cases h : key' = k
      · have hne : key' ≠ key := fun heq => hk (h.symm.trans heq)
        rw [beq_iff_eq.mpr h, if_neg hne, if_neg hne]
      · rw [beq_eq_false_iff_ne.mpr h]

theorem lookup_remove (key key' : String) (members : Members) :
    (remove key members).lookup key' = if key' = key then none else members.lookup key' := by
  induction members with
  | nil => rw [remove, List.filter_nil, List.lookup_nil, ite_self]
  | cons member rest ih =>
    obtain ⟨k, v⟩ := member
    unfold remove at ih ⊢
    rw [List.filter_cons]
    by_cases hk : k = key
    · have hdrop : decide ((k, v).1 ≠ key) = false := decide_eq_false (not_not.mpr hk)
      rw [hdrop, if_neg Bool.false_ne_true, ih, List.lookup_cons]
      by_cases h : key' = key
      · rw [if_pos h, if_pos h]
      · rw [if_neg h, if_neg h, beq_eq_false_iff_ne.mpr (hk ▸ h)]
    · have hkeep : decide ((k, v).1 ≠ key) = true := decide_eq_true hk
      rw [hkeep, if_pos rfl, List.lookup_cons, List.lookup_cons, ih]
      by_cases h : key' = k
      · have hne : key' ≠ key := fun heq => hk (h.symm.trans heq)
        rw [beq_iff_eq.mpr h, if_neg hne, if_neg hne]
      · rw [beq_eq_false_iff_ne.mpr h]

theorem lookup_of_not_mem {key : String} {members : Members} (h : key ∉ members.map Prod.fst) :
    members.lookup key = none := by
  rw [List.lookup_eq_none_iff]
  intro member hmember
  rw [bne_iff_ne]
  rintro rfl
  exact h (List.mem_map_of_mem hmember)

/-- **Each member behind a patch.**  It stays, it is gone, or it is merged. -/
theorem lookup_mergeMembers {patch : Members} (hdistinct : (patch.map Prod.fst).Nodup)
    (target : Members) (key : String) :
    (mergeMembers target patch).lookup key =
      match patch.lookup key with
      | none => target.lookup key
      | some value =>
        if value.isNull then none else some (mergePatch (target.lookup key) value) := by
  induction patch generalizing target with
  | nil => rw [mergeMembers, List.lookup_nil]
  | cons member rest ih =>
    obtain ⟨k, v⟩ := member
    obtain ⟨hnew, hrest⟩ := List.nodup_cons.mp hdistinct
    rw [mergeMembers, ih hrest, List.lookup_cons]
    by_cases h : key = k
    · subst h
      rw [lookup_of_not_mem hnew, beq_self_eq_true]
      dsimp only
      by_cases hnull : v.isNull = true
      · rw [if_pos hnull, if_pos hnull, lookup_remove, if_pos rfl]
      · rw [if_neg hnull, if_neg hnull, lookup_insert, if_pos rfl]
    · have hsame : (if v.isNull then remove k target
          else insert k (mergePatch (target.lookup k) v) target).lookup key =
            target.lookup key := by
        split_ifs
        · rw [lookup_remove, if_neg h]
        · rw [lookup_insert, if_neg h]
      rw [hsame, beq_eq_false_iff_ne.mpr h]

theorem nodup_of_keysDistinct {members : Members} (h : (object members).keysDistinct = true) :
    (members.map Prod.fst).Nodup := by
  rw [keysDistinct, Bool.and_eq_true, decide_eq_true_iff] at h
  exact h.1

/-- The members of an object in a value whose keys are distinct. -/
theorem keysDistinct_of_lookup {members : Members} (h : (object members).keysDistinct = true)
    {key : String} {value : JsonValue} (hvalue : members.lookup key = some value) :
    value.keysDistinct = true := by
  rw [keysDistinct, Bool.and_eq_true] at h
  replace h := h.2
  induction members with
  | nil => cases hvalue
  | cons member rest ih =>
    obtain ⟨k, v⟩ := member
    rw [membersDistinct, Bool.and_eq_true] at h
    rw [List.lookup_cons] at hvalue
    split at hvalue
    · obtain rfl := Option.some.inj hvalue
      exact h.1
    · exact ih hvalue h.2

end JsonValue

/-- A value in which no object has a key twice. -/
structure JsonDocument where
  value : JsonValue
  keysDistinct : value.keysDistinct = true
