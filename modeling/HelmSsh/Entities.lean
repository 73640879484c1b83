/-
# Texts with character entities

A text can write some of its characters as entities: a sign that starts each of them, and a name.
The entities are put back one kind after the other, by replacing every occurrence of its text
(`replace`, non-overlapping and from the left).

* `replace_eq_self_iff` — a replacement by something shorter leaves exactly the texts that do not
  have the pattern.
* `Table.replace_coded` — as long as the sign itself is coded, a replacement puts one kind of
  entity back and touches nothing else.
* `Table.replace_coded_raw` — when the sign has been put back already, what looks like an entity
  in the text that was coded is replaced as well.
-/

import Mathlib.Data.Nat.Notation
import Mathlib.Logic.Function.Basic
import Mathlib.Tactic.Common

namespace Entities

variable {α : Type} [DecidableEq α]

/-! ### Replacing a pattern -/

/-- The replacement of every occurrence of a pattern that is not empty; `skip` counts the
characters of an occurrence that is under way. -/
def replaceFrom (pattern by' : List α) : ℕ → List α → List α
  | _, [] => []
  | skip + 1, _ :: text => replaceFrom pattern by' skip text
  | 0, c :: text =>
    if pattern <+: c :: text then by' ++ replaceFrom pattern by' (pattern.length - 1) text
    else c :: replaceFrom pattern by' 0 text

/-- The replacement of every occurrence, from the left. -/
def replace (pattern by' text : List α) : List α :=
  replaceFrom pattern by' 0 text

variable {x c : α} {r by' text : List α}

theorem replaceFrom_append (pattern skipped text : List α) :
    replaceFrom pattern by' skipped.length (skipped ++ text) = replace pattern by' text := by
  induction skipped with
  | nil => rfl
  | cons c skipped ih => exact ih

/-- **An occurrence is replaced.** -/
theorem replace_pattern (text : List α) :
    replace (x :: r) by' (x :: r ++ text) = by' ++ replace (x :: r) by' text := by
  have hprefix : x :: r <+: x :: (r ++ text) := List.prefix_append (x :: r) text
  rw [List.cons_append, replace, replaceFrom, if_pos hprefix]
  exact congrArg (by' ++ ·) (replaceFrom_append (x :: r) r text)

/-- **A character at which the pattern does not occur stays.** -/
theorem replace_cons (h : ¬ x :: r <+: c :: text) :
    replace (x :: r) by' (c :: text) = c :: replace (x :: r) by' text := by
  rw [replace, replaceFrom, if_neg h]
  rfl

theorem replace_cons_of_ne (h : c ≠ x) :
    replace (x :: r) by' (c :: text) = c :: replace (x :: r) by' text :=
  replace_cons fun hprefix => h (List.cons_prefix_cons.mp hprefix).1.symm

/-- A part that does not have the pattern's first character stays. -/
theorem replace_append_of_notMem {part : List α} (h : x ∉ part) :
    replace (x :: r) by' (part ++ text) = part ++ replace (x :: r) by' text := by
  induction part with
  | nil => rfl
  | cons c part ih =>
    have hne : c ≠ x := fun heq => h (heq ▸ List.mem_cons_self)
    rw [List.cons_append, replace_cons_of_ne hne, ih fun hx => h (List.mem_cons_of_mem c hx)]
    rfl

/-- **A text is read from the left**: it is empty, or the pattern stands at its start, or its first
character stays. -/
theorem replace_induction {motive : List α → Prop} (pattern : List α) (hne : pattern ≠ [])
    (nil : motive []) (occurs : ∀ text, motive text → motive (pattern ++ text))
    (stays : ∀ c text, ¬ pattern <+: c :: text → motive text → motive (c :: text))
    (text : List α) : motive text := by
  induction hn : text.length using Nat.strongRecOn generalizing text with
  | ind n ih =>
    subst hn
    by_cases hprefix : pattern <+: text
    · obtain ⟨rest, rfl⟩ := hprefix
      refine occurs rest (ih rest.length ?_ rest rfl)
      have := List.length_pos_iff.mpr hne
      rw [List.length_append]
      omega
    · cases text with
      | nil => exact nil
      | cons c text => exact stays c text hprefix (ih text.length (Nat.lt_succ_self _) text rfl)

theorem replace_eq_self (h : ¬ x :: r <:+: text) : replace (x :: r) by' text = text := by
  induction text with
  | nil => rfl
  | cons c text ih =>
    rw [replace_cons fun hprefix => h hprefix.isInfix,
      ih fun hin => h ( hin.trans (List.suffix_cons c text).isInfix)]

/-- A replacement by something shorter makes no text longer. -/
theorem length_replace_le (hby : by'.length ≤ r.length) (text : List α) :
    (replace (x :: r) by' text).length ≤ text.length := by
  induction text using replace_induction (x :: r) (List.cons_ne_nil x r) with
  | nil => exact Nat.le_refl _
  | occurs text ih =>
    rw [replace_pattern, List.length_append, List.length_append, List.length_cons]
    omega
  | stays c text hprefix ih =>
    rw [replace_cons hprefix, List.length_cons, List.length_cons]
    omega

/-- **What has the pattern gets shorter.** -/
theorem length_replace_lt (hby : by'.length ≤ r.length) {text : List α} (h : x :: r <:+: text) :
    (replace (x :: r) by' text).length < text.length := by
  induction text using replace_induction (x :: r) (List.cons_ne_nil x r) with
  | nil => exact absurd (List.eq_nil_of_infix_nil h) (List.cons_ne_nil x r)
  | occurs text ih =>
    have := length_replace_le (x := x) hby text
    rw [replace_pattern, List.length_append, List.length_append, List.length_cons]
    omega
  | stays c text hprefix ih =>
    have := ih ((List.infix_cons_iff.mp h).resolve_left hprefix)
    rw [replace_cons hprefix, List.length_cons, List.length_cons]
    omega

/-- **A replacement by something shorter leaves exactly the texts that do not have the pattern.** -/
theorem replace_eq_self_iff (hby : by'.length ≤ r.length) :
    replace (x :: r) by' text = text ↔ ¬ x :: r <:+: text := by
  refine ⟨fun heq h => ?_, replace_eq_self⟩
  have := length_replace_lt hby h
  rw [heq] at this
  exact Nat.lt_irrefl _ this

/-! ### Coded texts -/

/-- The characters that can be coded, each with the rest of its entity. -/
structure Table (α : Type) where
  /-- The sign that every entity starts with. -/
  sign : α
  names : List (α × List α)
  /-- The sign does not stand in a name. -/
  fresh : ∀ e ∈ names, sign ∉ e.2
  /-- No name starts another one. -/
  apart : ∀ e ∈ names, ∀ e' ∈ names, e.1 ≠ e'.1 → ¬ e.2 <+: e'.2
  /-- The names are written without entities. -/
  plain : ∀ e ∈ names, ∀ e' ∈ names, e.1 ∉ e'.2

namespace Table

variable (t : Table α) {k : α} {name : List α} {on : α → Bool}

/-- The entity of a character, or the character where it has none or `on` is false. -/
def code (on : α → Bool) (c : α) : List α :=
  match t.names.lookup c with
  | some name => if on c then t.sign :: name else [c]
  | none => [c]

/-- A text with the entities of the characters that `on` picks. -/
def coded (on : α → Bool) (text : List α) : List α :=
  text.flatMap (t.code on)

theorem coded_cons (on : α → Bool) (c : α) (text : List α) :
    t.coded on (c :: text) = t.code on c ++ t.coded on text :=
  List.flatMap_cons

variable {t}

theorem mem_of_lookup (h : t.names.lookup c = some name) : (c, name) ∈ t.names := by
  obtain ⟨before, after, hnames, -⟩ := List.lookup_eq_some_iff.mp h
  rw [hnames]
  exact List.mem_append_right _ List.mem_cons_self

theorem code_off (h : on c = false) : t.code on c = [c] := by
  unfold code
  cases t.names.lookup c with
  | none => rfl
  | some name => exact if_neg (by rw [h]; exact Bool.false_ne_true)

theorem code_cases (on : α → Bool) (c : α) :
    t.code on c = [c] ∨ ∃ name, t.names.lookup c = some name ∧ t.code on c = t.sign :: name := by
  cases hon : on c with
  | false => exact Or.inl (code_off hon)
  | true =>
    unfold code
    cases hlookup : t.names.lookup c with
    | none => exact Or.inl rfl
    | some name => exact Or.inr ⟨name, rfl, if_pos hon⟩

theorem code_on (hlookup : t.names.lookup c = some name) (hon : on c = true) :
    t.code on c = t.sign :: name := by
  unfold code
  rw [hlookup]
  exact if_pos hon

theorem code_of_mem_name (on : α → Bool) (hk : t.names.lookup k = some name) (hc : c ∈ name) :
    t.code on c = [c] := by
  rcases t.code_cases on c with h | ⟨name', hlookup, -⟩
  · exact h
  · exact absurd hc (t.plain _ (mem_of_lookup hlookup) _ (mem_of_lookup hk))

theorem code_update (on : α → Bool) (h : c ≠ k) :
    t.code (Function.update on k false) c = t.code on c := by
  unfold code
  rw [Function.update_of_ne h]

theorem code_update_self (t : Table α) (on : α → Bool) (k : α) :
    t.code (Function.update on k false) k = [k] :=
  code_off (Function.update_self k false on)

/-- A text is written as it is when no character of the table is picked. -/
theorem coded_off (h : ∀ e ∈ t.names, on e.1 = false) (text : List α) : t.coded on text = text := by
  induction text with
  | nil => rfl
  | cons c text ih =>
    have hc : t.code on c = [c] := by
      rcases t.code_cases on c with hc | ⟨name, hlookup, -⟩
      · exact hc
      · exact code_off (h _ (mem_of_lookup hlookup))
    rw [coded_cons, hc, ih, List.singleton_append]

/-- **A name stands at the start of a coded text where it stands at the start of the text.** -/
theorem name_prefix_coded (on : α → Bool) {part : List α} (hsign : t.sign ∉ part)
    (hpart : ∀ c ∈ part, t.code on c = [c]) (text : List α) :
    part <+: t.coded on text ↔ part <+: text := by
  induction part generalizing text with
  | nil => simp
  | cons c part ih =>
    obtain ⟨hc, hpart⟩ := List.forall_mem_cons.mp hpart
    have hne : t.sign ≠ c := fun heq => hsign (heq ▸ List.mem_cons_self)
    have ih := ih (fun h => hsign (List.mem_cons_of_mem c h)) hpart
    cases text with
    | nil => rfl
    | cons d text =>
      rw [coded_cons]
      rcases t.code_cases on d with hd | ⟨name, -, hd⟩
      · rw [hd, List.singleton_append, List.cons_prefix_cons, List.cons_prefix_cons, ih]
      · have hcd : c ≠ d := by
          rintro rfl
          rw [hc] at hd
          exact hne (List.cons.inj hd).1.symm
        rw [hd, List.cons_append, List.cons_prefix_cons, List.cons_prefix_cons]
        exact ⟨fun h => absurd h.1.symm hne, fun h => absurd h.1 hcd⟩

/-- **Another entity is not touched.** -/
theorem replace_other {name' : List α} (hk : t.names.lookup k = some name)
    (hc : t.names.lookup c = some name') (hne : c ≠ k) (by' text : List α) :
    replace (t.sign :: name) by' (t.sign :: name' ++ text)
      = t.sign :: name' ++ replace (t.sign :: name) by' text := by
  have hk := mem_of_lookup hk
  have hc := mem_of_lookup hc
  rw [List.cons_append, List.cons_append, replace_cons, replace_append_of_notMem (t.fresh _ hc)]
  intro hprefix
  obtain ⟨-, hprefix⟩ := List.cons_prefix_cons.mp hprefix
  rcases List.prefix_or_prefix_of_prefix hprefix (List.prefix_append name' text) with h | h
  · exact t.apart _ hk _ hc hne.symm h
  · exact t.apart _ hc _ hk hne h

/-- **One kind of entity is put back**, and nothing else is touched, as long as the sign itself is
written as an entity. -/
theorem replace_coded (hk : t.names.lookup k = some name) (hsign : t.code on t.sign ≠ [t.sign])
    (text : List α) :
    replace (t.sign :: name) [k] (t.coded on text) = t.coded (Function.update on k false) text := by
  induction text with
  | nil => rfl
  | cons c text ih =>
    rw [coded_cons, coded_cons]
    by_cases hck : c = k
    · subst hck
      rw [code_update_self]
      rcases t.code_cases on c with hcode | ⟨name', hc, hcode⟩
      · have hne : c ≠ t.sign := fun heq => hsign (heq ▸ hcode)
        rw [hcode, List.singleton_append, replace_cons_of_ne hne, ih]
        rfl
      · obtain rfl := Option.some.inj (hk.symm.trans hc)
        rw [hcode, replace_pattern, ih]
    · rw [code_update on hck]
      rcases t.code_cases on c with hcode | ⟨name', hc, hcode⟩
      · have hne : c ≠ t.sign := fun heq => hsign (heq ▸ hcode)
        rw [hcode, List.singleton_append, replace_cons_of_ne hne, ih]
        rfl
      · rw [hcode, replace_other hk hc hck, ih]

/-- **When the sign stands for itself**, what looks like an entity in the text is replaced
together with the entities. -/
theorem replace_coded_raw (hk : t.names.lookup k = some name) (hsign : t.code on t.sign = [t.sign])
    (text : List α) :
    replace (t.sign :: name) [k] (t.coded on text)
      = t.coded (Function.update on k false) (replace (t.sign :: name) [k] text) := by
  have hfresh := t.fresh _ (mem_of_lookup hk)
  have hname : t.coded on name = name := by
    have hgo : ∀ part : List α, (∀ c ∈ part, c ∈ name) → t.coded on part = part := by
      intro part hpart
      induction part with
      | nil => rfl
      | cons c part ih =>
        obtain ⟨hc, hpart⟩ := List.forall_mem_cons.mp hpart
        rw [coded_cons, code_of_mem_name on hk hc, ih hpart, List.singleton_append]
    exact hgo name fun _ h => h
  induction text using replace_induction (t.sign :: name) (List.cons_ne_nil _ _) with
  | nil => rfl
  | occurs text ih =>
    have hcoded : t.coded on (t.sign :: name ++ text) = t.sign :: name ++ t.coded on text := by
      rw [coded, List.flatMap_append, List.flatMap_cons, hsign]
      exact congrArg (t.sign :: · ++ t.coded on text) hname
    rw [hcoded, replace_pattern, replace_pattern, ih, List.singleton_append, List.singleton_append,
      coded_cons, code_update_self, List.singleton_append]
  | stays c text hprefix ih =>
    have hstays : ¬ t.sign :: name <+: c :: t.coded on text := by
      intro h
      obtain ⟨hc, hrest⟩ := List.cons_prefix_cons.mp h
      have hrest := (name_prefix_coded on hfresh (fun d => code_of_mem_name on hk) text).mp hrest
      exact hprefix (List.cons_prefix_cons.mpr ⟨hc, hrest⟩)
    rw [replace_cons hprefix, coded_cons, coded_cons]
    by_cases hck : c = k
    · subst hck
      rw [code_update_self]
      rcases t.code_cases on c with hcode | ⟨name', hc, hcode⟩
      · rw [hcode, List.singleton_append, replace_cons hstays, ih]
        rfl
      · obtain rfl := Option.some.inj (hk.symm.trans hc)
        rw [hcode, replace_pattern, ih]
    · rw [code_update on hck]
      rcases t.code_cases on c with hcode | ⟨name', hc, hcode⟩
      · rw [hcode, List.singleton_append, replace_cons hstays, ih]
        rfl
      · rw [hcode, replace_other hk hc hck, ih]

end Table

end Entities
