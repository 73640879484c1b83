/-
# Remote paths of the user interface

`normalizePath`, `joinPath` and `getParentPath` of `src/lib/path.ts`, on the characters of a
path.  A path is read as the list of its proper parts: what stands between slashes, without
the empty ones and `.`, and with `..` taking back the part before it.

* `normalizePath_idem` — a path written from its parts reads as these parts.
* `joinPath_inj` — below normalized directories, a path made of a directory and a proper name
  gives back both.
-/

import Mathlib.Data.Nat.Notation
import Mathlib.Tactic.Common

namespace HelmSsh
namespace Frontend
namespace RemotePath

/-- The characters that `String.prototype.trim` takes off. -/
def isJsSpace (c : Char) : Bool :=
  let n := c.toNat
  (9 ≤ n && n ≤ 13) || n = 0x20 || n = 0xa0 || n = 0x1680 || (0x2000 ≤ n && n ≤ 0x200a) ||
    n = 0x2028 || n = 0x2029 || n = 0x202f || n = 0x205f || n = 0x3000 || n = 0xfeff

/-- `String.prototype.trim`. -/
def trim (text : List Char) : List Char :=
  ((text.dropWhile isJsSpace).reverse.dropWhile isJsSpace).reverse

/-- The loop of `normalizePath` over the parts between slashes. -/
def normalizeParts (parts : List (List Char)) : List (List Char) → List (List Char)
  | [] => parts
  | part :: rest =>
    if part = [] ∨ part = ['.'] then normalizeParts parts rest
    else if part = ['.', '.'] then normalizeParts parts.dropLast rest
    else normalizeParts (parts ++ [part]) rest

/-- The parts that `normalizePath` keeps. -/
def partsOf (path : List Char) : List (List Char) :=
  normalizeParts [] (path.splitOn '/')

/-- `parts.join("/")`. -/
def joinParts (parts : List (List Char)) : List Char :=
  ['/'].intercalate parts

/-- `normalizePath`. -/
def normalizePath (path : List Char) : List Char :=
  '/' :: joinParts (partsOf path)

/-- `joinPath`. -/
def joinPath (basePath name : List Char) : List Char :=
  normalizePath (basePath ++ '/' :: name)

/-- `getParentPath`. -/
def getParentPath (path : List Char) : List Char :=
  let parts := ((normalizePath path).splitOn '/').filter (· ≠ [])
  let parts := parts.dropLast
  if parts = [] then ['/'] else '/' :: joinParts parts

/-- A part that names an entry of a directory. -/
structure Proper (part : List Char) : Prop where
  ne_nil : part ≠ []
  ne_dot : part ≠ ['.']
  ne_dots : part ≠ ['.', '.']
  no_slash : '/' ∉ part

variable {path base base' name name' : List Char} {parts rest : List (List Char)}

theorem not_mem_of_mem_splitOn : ∀ {path part : List Char}, part ∈ path.splitOn '/' → '/' ∉ part
  | [], part, h => by
    rw [List.splitOn_nil, List.mem_singleton] at h
    subst h
    exact List.not_mem_nil
  | c :: path, part, h => by
    rw [List.splitOn_cons_eq_if_modifyHead] at h
    have ih : ∀ part ∈ path.splitOn '/', '/' ∉ part := fun _ => not_mem_of_mem_splitOn
    obtain ⟨first, others, hsplit⟩ := List.exists_cons_of_ne_nil (List.splitOn_ne_nil '/' path)
    rw [hsplit] at h ih
    split_ifs at h with hc
    · rcases List.mem_cons.mp h with rfl | h
      · exact List.not_mem_nil
      · exact ih part h
    · rw [List.modifyHead_cons] at h
      rcases List.mem_cons.mp h with rfl | h
      · intro hmem
        rcases List.mem_cons.mp hmem with rfl | hmem
        · exact hc (beq_self_eq_true _)
        · exact ih first (List.mem_cons_self ..) hmem
      · exact ih part (List.mem_cons_of_mem _ h)

theorem exists_part_of_mem {c : Char} : ∀ {path : List Char}, c ∈ path → c ≠ '/' →
    ∃ part ∈ path.splitOn '/', c ∈ part
  | x :: path, hmem, hc => by
    rw [List.splitOn_cons_eq_if_modifyHead]
    obtain ⟨first, others, hsplit⟩ := List.exists_cons_of_ne_nil (List.splitOn_ne_nil '/' path)
    have ih : c ∈ path → ∃ part ∈ path.splitOn '/', c ∈ part :=
      fun hmem => exists_part_of_mem hmem hc
    rw [hsplit] at ih ⊢
    rcases List.mem_cons.mp hmem with rfl | hmem
    · rw [if_neg (by rw [beq_iff_eq]; exact hc), List.modifyHead_cons]
      exact ⟨_, List.mem_cons_self .., List.mem_cons_self ..⟩
    · obtain ⟨part, hpart, hin⟩ := ih hmem
      split_ifs
      · exact ⟨part, List.mem_cons_of_mem _ hpart, hin⟩
      · rw [List.modifyHead_cons]
        rcases List.mem_cons.mp hpart with rfl | hpart
        · exact ⟨_, List.mem_cons_self .., List.mem_cons_of_mem _ hin⟩
        · exact ⟨part, List.mem_cons_of_mem _ hpart, hin⟩

theorem append_slash_inj {parent parent' : List Char} (hname : '/' ∉ name) (hname' : '/' ∉ name')
    (h : parent ++ '/' :: name = parent' ++ '/' :: name') : parent = parent' ∧ name = name' := by
  have hsplit := congrArg (List.splitOn '/') h
  rw [List.splitOn_append_cons_self, List.splitOn_append_cons_self,
    List.splitOn_eq_singleton hname, List.splitOn_eq_singleton hname'] at hsplit
  obtain ⟨hparent, hlast⟩ := List.append_inj' hsplit rfl
  refine ⟨?_, List.singleton_inj.mp hlast⟩
  have hjoin := congrArg (List.intercalate ['/']) hparent
  rwa [List.intercalate_splitOn, List.intercalate_splitOn] at hjoin

theorem proper_normalizeParts (hparts : ∀ part ∈ parts, Proper part)
    (hrest : ∀ part ∈ rest, '/' ∉ part) : ∀ part ∈ normalizeParts parts rest, Proper part := by
  induction rest generalizing parts with
  | nil => exact hparts
  | cons part rest ih =>
    have hrest' : ∀ part ∈ rest, '/' ∉ part := fun p hp => hrest p (List.mem_cons_of_mem _ hp)
    unfold normalizeParts
    split_ifs with hskip hdots
    · exact ih hparts hrest'
    · exact ih (fun p hp => hparts p ((List.dropLast_sublist _).subset hp)) hrest'
    · refine ih (fun p hp => ?_) hrest'
      rcases List.mem_append.mp hp with hp | hp
      · exact hparts p hp
      · rw [List.mem_singleton.mp hp]
        exact ⟨fun h => hskip (Or.inl h), fun h => hskip (Or.inr h), hdots,
          hrest part (List.mem_cons_self ..)⟩

theorem proper_partsOf : ∀ part ∈ partsOf path, Proper part :=
  proper_normalizeParts (fun _ h => absurd h List.not_mem_nil) fun _ => not_mem_of_mem_splitOn

theorem normalizeParts_append (l l' : List (List Char)) :
    normalizeParts parts (l ++ l') = normalizeParts (normalizeParts parts l) l' := by
  induction l generalizing parts with
  | nil => rfl
  | cons part l ih =>
    rw [List.cons_append, normalizeParts, normalizeParts]
    split_ifs
    · exact ih
    · exact ih
    · exact ih

theorem normalizeParts_proper (h : ∀ part ∈ rest, Proper part) :
    normalizeParts parts rest = parts ++ rest := by
  induction rest generalizing parts with
  | nil => exact (List.append_nil _).symm
  | cons part rest ih =>
    have hpart := h part (List.mem_cons_self ..)
    rw [normalizeParts, if_neg (not_or.mpr ⟨hpart.ne_nil, hpart.ne_dot⟩), if_neg hpart.ne_dots,
      ih fun p hp => h p (List.mem_cons_of_mem _ hp), List.append_assoc, List.singleton_append]

theorem partsOf_append_slash (path rest : List Char) :
    partsOf (path ++ '/' :: rest) = normalizeParts (partsOf path) (rest.splitOn '/') := by
  rw [partsOf, List.splitOn_append_cons_self, normalizeParts_append]
  rfl

theorem partsOf_joinParts (h : ∀ part ∈ parts, Proper part) :
    normalizeParts [] ((joinParts parts).splitOn '/') = parts := by
  by_cases hnil : parts = []
  · subst hnil
    rfl
  · rw [joinParts, List.splitOn_intercalate '/' (fun part hp => (h part hp).no_slash) hnil,
      normalizeParts_proper h, List.nil_append]

/-- **A normalized path has the parts of the path.** -/
theorem partsOf_normalizePath (path : List Char) : partsOf (normalizePath path) = partsOf path := by
  have h := partsOf_append_slash [] (joinParts (partsOf path))
  rw [List.nil_append] at h
  rw [normalizePath, h]
  exact partsOf_joinParts proper_partsOf

/-- **Normalizing twice changes nothing more.** -/
theorem normalizePath_idem (path : List Char) :
    normalizePath (normalizePath path) = normalizePath path := by
  rw [normalizePath, partsOf_normalizePath]
  rfl

theorem partsOf_eq_of_normalizePath_eq {path' : List Char}
    (h : normalizePath path = normalizePath path') : partsOf path = partsOf path' := by
  rw [← partsOf_normalizePath path, h, partsOf_normalizePath]

theorem partsOf_joinPath (hname : Proper name) :
    partsOf (joinPath base name) = partsOf base ++ [name] := by
  rw [joinPath, partsOf_normalizePath, partsOf_append_slash,
    List.splitOn_eq_singleton hname.no_slash]
  exact normalizeParts_proper fun part hp => List.mem_singleton.mp hp ▸ hname

/-- **A directory and a proper name are read off the path they make.** -/
theorem joinPath_inj (hbase : normalizePath base = base) (hbase' : normalizePath base' = base')
    (hname : Proper name) (hname' : Proper name')
    (h : joinPath base name = joinPath base' name') : base = base' ∧ name = name' := by
  have hparts := congrArg partsOf h
  rw [partsOf_joinPath hname, partsOf_joinPath hname'] at hparts
  obtain ⟨hdir, hlast⟩ := List.append_inj' hparts rfl
  refine ⟨?_, List.singleton_inj.mp hlast⟩
  rw [← hbase, ← hbase', normalizePath, normalizePath, hdir]

/-- What stands between the slashes of a normalized path are its parts. -/
theorem filter_splitOn_normalizePath (path : List Char) :
    ((normalizePath path).splitOn '/').filter (· ≠ []) = partsOf path := by
  have hproper : ∀ part ∈ partsOf path, Proper part := proper_partsOf
  have hsplit : (normalizePath path).splitOn '/' = [] :: (joinParts (partsOf path)).splitOn '/' :=
    List.splitOn_append_cons_self [] _
  rw [hsplit, List.filter_cons_of_neg (by decide)]
  generalize partsOf path = parts at hproper
  by_cases hnil : parts = []
  · subst hnil
    rfl
  · rw [joinParts, List.splitOn_intercalate '/' (fun part hp => (hproper part hp).no_slash) hnil,
      List.filter_eq_self]
    exact fun part hp => decide_eq_true (hproper part hp).ne_nil

/-- **A parent path is normalized.** -/
theorem normalizePath_getParentPath (path : List Char) :
    normalizePath (getParentPath path) = getParentPath path := by
  unfold getParentPath
  rw [filter_splitOn_normalizePath]
  dsimp only
  split_ifs with hnil
  · rfl
  · have hproper : ∀ part ∈ (partsOf path).dropLast, Proper part :=
      fun part hp => proper_partsOf part ((List.dropLast_sublist _).subset hp)
    have hparts := partsOf_append_slash [] (joinParts (partsOf path).dropLast)
    rw [List.nil_append] at hparts
    rw [normalizePath, hparts]
    exact congrArg (fun parts => '/' :: joinParts parts) (partsOf_joinParts hproper)

theorem normalizePath_joinPath (base name : List Char) :
    normalizePath (joinPath base name) = joinPath base name :=
  normalizePath_idem _

example : normalizePath "srv//./logs/../www/".toList = "/srv/www".toList := by decide

example : getParentPath "/srv/www".toList = "/srv".toList := by decide

end RemotePath
end Frontend
end HelmSsh
