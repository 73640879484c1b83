/-
# One normal form of a remote path

`normalize_remote_path`, `is_same_or_child_remote_path` and `ensure_not_same_or_child_path` of
`src-tauri/src/remote/sftp.rs`, beside `normalize_remote_path` of `src-tauri/src/config.rs` and
`normalizePath` of `src/lib/path.ts`.  All three go over what stands between the slashes from left
to right and keep a stack of names.

What a path names can be read without a stack, from its end (`resolve`): a name counts unless a
`..` after it takes it back.

* `normalizeParts_eq_resolve` — the stack holds what the path names.
* `isSameOrChild_iff` — a path is below another one when its names start with those of the other.
* `normalize_one_function` — the three normal forms are one, with what that gives.
-/

import HelmSsh.Config.Data
import HelmSsh.Frontend.RemotePath
import Mathlib.Data.List.Induction

namespace HelmSsh
namespace Remote
namespace SftpPath

open Frontend.RemotePath (partsOf joinParts normalizeParts normalizePath Proper)

/-- `normalize_remote_path` of `sftp.rs`.  Its loop over the parts is that of `config.rs`. -/
def normalizeRemotePath (path : String) : String :=
  let parts := (Text.split path '/').foldl Config.pushSegment []
  if parts = [] then "/" else "/" ++ Text.join parts "/"

/-- `is_same_or_child_remote_path`. -/
def isSameOrChildRemotePath (parent candidate : String) : Bool :=
  let parent := normalizeRemotePath parent
  let candidate := normalizeRemotePath candidate
  parent = candidate || (parent ≠ "/" && (parent ++ "/").toList.isPrefixOf candidate.toList)

/-- `ensure_not_same_or_child_path`. -/
def ensureNotSameOrChildPath (source target message : String) : AppResult Unit :=
  if isSameOrChildRemotePath source target then .error (.invalidInput message) else .ok ()

/-! ### What a path names -/

/-- The names on a path, read from its last segment to its first, when `skip` of them are taken
back by what comes after. -/
def resolveFrom : ℕ → List (List Char) → List (List Char)
  | _, [] => []
  | skip, segment :: before =>
    if segment = [] ∨ segment = ['.'] then resolveFrom skip before
    else if segment = ['.', '.'] then resolveFrom (skip + 1) before
    else if skip = 0 then resolveFrom 0 before ++ [segment]
    else resolveFrom (skip - 1) before

/-- The names from the root to what a path names. -/
def resolve (path : String) : List (List Char) :=
  resolveFrom 0 (path.toList.splitOn '/').reverse

/-- What the stack holds is what the segments name, without the names on its top that are taken
back later. -/
theorem normalizeParts_eq_resolveFrom (segments : List (List Char)) (skip : ℕ) :
    (normalizeParts [] segments).take ((normalizeParts [] segments).length - skip)
      = resolveFrom skip segments.reverse := by
  induction segments using List.reverseRecOn generalizing skip with
  | nil => exact List.take_nil
  | append_singleton segments segment ih =>
    rw [Frontend.RemotePath.normalizeParts_append, List.reverse_append, List.reverse_singleton,
      List.singleton_append, normalizeParts, resolveFrom]
    split_ifs with hstay hparent hskip
    · exact ih skip
    · rw [← ih (skip + 1), normalizeParts, List.length_dropLast, List.dropLast_eq_take,
        List.take_take]
      congr 1
      omega
    · rw [hskip, normalizeParts, Nat.sub_zero, List.take_length, ← ih 0, Nat.sub_zero,
        List.take_length]
    · rw [normalizeParts, ← ih (skip - 1), List.length_append, List.length_singleton]
      have hlen : (normalizeParts [] segments).length + 1 - skip
          = (normalizeParts [] segments).length - (skip - 1) := by omega
      rw [hlen, List.take_append_of_le_length (Nat.sub_le _ _)]

/-- **The stack holds what the path names.** -/
theorem normalizeParts_eq_resolve (path : String) : partsOf path.toList = resolve path := by
  have h := normalizeParts_eq_resolveFrom (path.toList.splitOn '/') 0
  rwa [Nat.sub_zero, List.take_length] at h

theorem proper_resolve (path : String) : ∀ segment ∈ resolve path, Proper segment := by
  rw [← normalizeParts_eq_resolve]
  exact Frontend.RemotePath.proper_partsOf

/-! ### The three normal forms -/

theorem ofList_eq_iff (segment : List Char) (s : String) :
    String.ofList segment = s ↔ segment = s.toList :=
  ⟨fun h => h ▸ (String.toList_ofList).symm, fun h => h ▸ String.ofList_toList⟩

/-- One segment on strings is one segment on their characters. -/
theorem pushSegment_toList (parts : List String) (segment : List Char) :
    (Config.pushSegment parts (String.ofList segment)).map String.toList
      = normalizeParts (parts.map String.toList) [segment] := by
  have hstay : String.ofList segment = "" ∨ String.ofList segment = "." ↔
      segment = [] ∨ segment = ['.'] :=
    or_congr (ofList_eq_iff segment "") (ofList_eq_iff segment ".")
  have hparent : String.ofList segment = ".." ↔ segment = ['.', '.'] := ofList_eq_iff segment ".."
  rw [Config.pushSegment, normalizeParts]
  by_cases hskip : segment = [] ∨ segment = ['.']
  · rw [if_pos (hstay.mpr hskip), if_pos hskip]
    rfl
  · rw [if_neg (fun h => hskip (hstay.mp h)), if_neg hskip]
    by_cases hdots : segment = ['.', '.']
    · rw [if_pos (hparent.mpr hdots), if_pos hdots]
      exact List.map_dropLast
    · rw [if_neg (fun h => hdots (hparent.mp h)), if_neg hdots, List.map_append,
        List.map_singleton, String.toList_ofList]
      rfl

/-- The loop on strings is the loop on their characters. -/
theorem foldl_pushSegment (segments : List (List Char)) (parts : List String) :
    ((segments.map String.ofList).foldl Config.pushSegment parts).map String.toList
      = normalizeParts (parts.map String.toList) segments := by
  induction segments generalizing parts with
  | nil => rfl
  | cons segment segments ih =>
    rw [List.map_cons, List.foldl_cons, ih, pushSegment_toList,
      ← Frontend.RemotePath.normalizeParts_append]
    rfl

theorem toList_joined (parts : List String) :
    (if parts = [] then "/" else "/" ++ Text.join parts "/").toList
      = '/' :: joinParts (parts.map String.toList) := by
  cases parts with
  | nil => rfl
  | cons part parts =>
    have hslash : "/".toList = ['/'] := rfl
    rw [if_neg (List.cons_ne_nil _ _), String.toList_append, Text.join, hslash,
      String.toList_ofList, joinParts, List.singleton_append]

/-- **The normal form of `sftp.rs` is that of the user interface.** -/
theorem toList_normalizeRemotePath (path : String) :
    (normalizeRemotePath path).toList = normalizePath path.toList := by
  have hparts := foldl_pushSegment (path.toList.splitOn '/') []
  rw [normalizePath, partsOf]
  exact (toList_joined _).trans (congrArg (fun parts => '/' :: joinParts parts) hparts)

theorem normalizeRemotePath_eq (path : String) :
    (normalizeRemotePath path).toList = '/' :: joinParts (resolve path) := by
  rw [toList_normalizeRemotePath, normalizePath, normalizeParts_eq_resolve]

theorem config_normalizeRemotePath (path : String) :
    Config.normalizeRemotePath path
      = if Text.isBlank path then "" else normalizeRemotePath path := rfl

theorem normalizeRemotePath_idem (path : String) :
    normalizeRemotePath (normalizeRemotePath path) = normalizeRemotePath path := by
  refine String.toList_injective ?_
  rw [toList_normalizeRemotePath, toList_normalizeRemotePath,
    Frontend.RemotePath.normalizePath_idem]

/-! ### Below another path -/

section Below

variable {parent child : List (List Char)}

theorem splitOn_joinParts (h : ∀ segment ∈ parent, Proper segment) (hnil : parent ≠ []) :
    (joinParts parent).splitOn '/' = parent :=
  List.splitOn_intercalate '/' (fun segment hmem => (h segment hmem).no_slash) hnil

theorem joinParts_append (hparent : ∀ segment ∈ parent, Proper segment) (hnil : parent ≠ [])
    (hchild : ∀ segment ∈ child, Proper segment) (hcnil : child ≠ []) :
    joinParts (parent ++ child) = joinParts parent ++ '/' :: joinParts child := by
  have hsplit : (joinParts parent ++ '/' :: joinParts child).splitOn '/' = parent ++ child := by
    rw [List.splitOn_append_cons_self, splitOn_joinParts hparent hnil,
      splitOn_joinParts hchild hcnil]
  rw [joinParts, ← hsplit, List.intercalate_splitOn]

/-- **A path starts with another one and a slash when it has its names and more.** -/
theorem joined_prefix_iff (hparent : ∀ segment ∈ parent, Proper segment) (hnil : parent ≠ [])
    (hchild : ∀ segment ∈ child, Proper segment) :
    joinParts parent ++ ['/'] <+: joinParts child ↔ parent <+: child ∧ parent ≠ child := by
  constructor
  · rintro ⟨tail, htail⟩
    rw [List.append_assoc, List.singleton_append] at htail
    have hcnil : child ≠ [] := by
      rintro rfl
      have hlen := congrArg List.length htail
      rw [List.length_append, List.length_cons] at hlen
      cases hlen
    have hsplit := congrArg (List.splitOn '/') htail
    rw [List.splitOn_append_cons_self, splitOn_joinParts hparent hnil,
      splitOn_joinParts hchild hcnil] at hsplit
    refine ⟨⟨_, hsplit⟩, ?_⟩
    rintro rfl
    exact List.splitOn_ne_nil '/' tail (List.append_right_eq_self.mp hsplit)
  · rintro ⟨⟨more, rfl⟩, hne⟩
    have hmore : more ≠ [] := by
      rintro rfl
      exact hne (List.append_nil _).symm
    rw [joinParts_append hparent hnil
      (fun segment hmem => hchild segment (List.mem_append_right _ hmem)) hmore]
    exact ⟨joinParts more, by rw [List.append_assoc, List.singleton_append]⟩

end Below

theorem normalizeRemotePath_inj {source target : String} :
    normalizeRemotePath source = normalizeRemotePath target ↔ resolve source = resolve target := by
  rw [← String.toList_inj, toList_normalizeRemotePath, toList_normalizeRemotePath,
    ← normalizeParts_eq_resolve, ← normalizeParts_eq_resolve]
  exact ⟨Frontend.RemotePath.partsOf_eq_of_normalizePath_eq,
    fun h => congrArg (fun parts => '/' :: joinParts parts) h⟩

theorem normalizeRemotePath_eq_root {source : String} :
    normalizeRemotePath source = "/" ↔ resolve source = [] := by
  have hroot : normalizeRemotePath "" = "/" := by decide
  have hnames : resolve "" = [] := by decide
  rw [← hroot, normalizeRemotePath_inj, hnames]

/-- **A path is the same as another one, or below it, when its names start with those of the
other.**  Below the root nothing is. -/
theorem isSameOrChild_iff (source target : String) :
    isSameOrChildRemotePath source target = true ↔
      resolve source <+: resolve target ∧ (resolve source = [] → resolve target = []) := by
  unfold isSameOrChildRemotePath
  dsimp only
  rw [Bool.or_eq_true, Bool.and_eq_true, decide_eq_true_iff, decide_eq_true_iff,
    List.isPrefixOf_iff_prefix, normalizeRemotePath_inj, String.toList_append,
    normalizeRemotePath_eq, normalizeRemotePath_eq, Ne, normalizeRemotePath_eq_root]
  change _ ∨ _ ∧ '/' :: (joinParts (resolve source) ++ ['/']) <+: _ ↔ _
  rw [List.cons_prefix_cons]
  by_cases hnil : resolve source = []
  · rw [hnil]
    refine ⟨?_, fun h => Or.inl (h.2 rfl).symm⟩
    rintro (heq | ⟨hne, -⟩)
    · exact ⟨List.nil_prefix, fun _ => heq.symm⟩
    · exact absurd rfl hne
  · rw [joined_prefix_iff (proper_resolve source) hnil (proper_resolve target)]
    constructor
    · rintro (heq | ⟨-, -, hstarts, -⟩)
      · exact ⟨heq ▸ List.prefix_refl _, fun h => absurd h hnil⟩
      · exact ⟨hstarts, fun h => absurd h hnil⟩
    · rintro ⟨hstarts, -⟩
      by_cases heq : resolve source = resolve target
      · exact Or.inl heq
      · exact Or.inr ⟨hnil, rfl, hstarts, heq⟩

/-- **The normal form of a remote path is one function**: the back end, the configuration and the
user interface agree on every path, on a slash and the names of the path, which are proper and
settled; and a move or a copy is refused exactly when the names of its target start with those of
its source. -/
theorem normalize_one_function (path : String) :
    (normalizeRemotePath path).toList = normalizePath path.toList ∧
      (¬ Text.isBlank path → Config.normalizeRemotePath path = normalizeRemotePath path) ∧
      (normalizeRemotePath path).toList = '/' :: joinParts (resolve path) ∧
      (∀ segment ∈ resolve path, Proper segment) ∧
      normalizeRemotePath (normalizeRemotePath path) = normalizeRemotePath path ∧
      (resolve path ≠ [] → ∀ target message,
        ensureNotSameOrChildPath path target message = .error (.invalidInput message) ↔
          resolve path <+: resolve target) := by
  refine ⟨toList_normalizeRemotePath path, fun hblank => ?_, normalizeRemotePath_eq path,
    proper_resolve path, normalizeRemotePath_idem path, fun hroot target message => ?_⟩
  · rw [config_normalizeRemotePath, if_neg hblank]
  · have hbelow := isSameOrChild_iff path target
    unfold ensureNotSameOrChildPath
    split_ifs with hsame
    · exact iff_of_true rfl (hbelow.mp hsame).1
    · refine iff_of_false (fun h => ?_) fun hstarts =>
        hsame (hbelow.mpr ⟨hstarts, fun hnil => absurd hnil hroot⟩)
      cases h

/-- A directory with dots and repeated slashes on its path, and one below it. -/
theorem normalize_one_function_srv :
    ensureNotSameOrChildPath "/srv//a/../www/." "srv/www/img" "no"
      = .error (.invalidInput "no") := by
  obtain ⟨-, -, -, -, -, hbelow⟩ := normalize_one_function "/srv//a/../www/."
  exact (hbelow (by decide) "srv/www/img" "no").mpr (by decide)

end SftpPath
end Remote
end HelmSsh
