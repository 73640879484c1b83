/-
# Paths, component by component

The paths of Rust's standard library on Unix and on Windows, as far as they are texts: how one is
cut into components, and what pushing a text onto a path does.  A path is kept as its components.
On Windows a path may start with a volume, and behind a verbatim one (`\\?\`) only the backslash
separates; a text that is pushed there is cut like any other, and its `.` and `..` are taken out.

* `components` — the components of a text.
* `push`, `push_name` — a name that is pushed ends the path, or only what stands behind its last
  separator does.
* `normalize`, `normalize_concat` — the lexical normal form, and how it ends.
-/

import Mathlib.Data.List.TakeWhile
import Mathlib.Data.Nat.Notation
import Mathlib.Tactic.Common

namespace StdPath

/-- The platforms. -/
inductive Platform
  | unix
  | windows
  deriving DecidableEq

/-- `Component`. -/
inductive Component
  /-- The volume that a path on Windows starts with. -/
  | volume (text : List Char)
  | rootDir
  | curDir
  | parentDir
  | normal (name : List Char)
  deriving DecidableEq

/-- A volume: its length, whether the path is verbatim, and whether it is only a drive, which has no
root by itself. -/
structure Volume where
  length : ℕ
  verbatim : Bool
  drive : Bool
  deriving DecidableEq

/-! ### Reading a path -/

/-- The separators of a path. -/
def isSeparator (platform : Platform) (verbatim : Bool) (c : Char) : Bool :=
  match platform with
  | .unix => c = '/'
  | .windows => c = '\\' || c = '/' && !verbatim

/-- What stands in front of the next separator, and what behind it. -/
def nextComponent (verbatim : Bool) (path : List Char) : List Char × List Char :=
  let inside (c : Char) : Bool := !isSeparator .windows verbatim c
  (path.takeWhile inside, (path.dropWhile inside).tail)

/-- A letter with a colon. -/
def isDrive : List Char → Bool
  | letter :: ':' :: _ => letter.isAlpha
  | _ => false

/-- A letter with a colon, and then a separator or nothing. -/
def isExactDrive (path : List Char) : Bool :=
  isDrive path && path[2]?.all (isSeparator .windows false)

/-- The volume behind `\\?\`. -/
def verbatimVolume (path : List Char) : Volume :=
  let head := path.take 8 |>.map fun c => if c = '/' then '\\' else c
  if ['\\', '\\', '?', '\\', 'U', 'N', 'C', '\\'] <+: head then
    let (server, rest) := nextComponent true (path.drop 8)
    let (share, _) := nextComponent true rest
    let length := 8 + server.length + if share = [] then 0 else 1 + share.length
    { length := length, verbatim := true, drive := false }
  else if isExactDrive (path.drop 4) then
    { length := 6, verbatim := true, drive := false }
  else
    { length := 4 + (nextComponent true (path.drop 4)).1.length, verbatim := true, drive := false }

/-- The volume that a path on Windows starts with. -/
def parseVolume (path : List Char) : Option Volume :=
  let head := path.take 8 |>.map fun c => if c = '/' then '\\' else c
  if ['\\', '\\'] <+: head then
    if ['\\', '\\', '?', '\\'] <+: path then
      some (verbatimVolume path)
    else if ['\\', '\\', '.', '\\'] <+: head then
      some
        { length := 4 + (nextComponent false (path.drop 4)).1.length, verbatim := false,
          drive := false }
    else
      let (server, rest) := nextComponent false (path.drop 2)
      let (share, _) := nextComponent false rest
      if server ≠ [] ∧ share ≠ [] then
        some
          { length := 2 + server.length + 1 + share.length, verbatim := false, drive := false }
      else none
  else if isDrive path then some { length := 2, verbatim := false, drive := true }
  else none

/-- The volume of a path. -/
def volume (platform : Platform) (path : List Char) : Option Volume :=
  match platform with
  | .unix => none
  | .windows => parseVolume path

/-- What stands behind the volume. -/
def behindVolume (platform : Platform) (path : List Char) : List Char :=
  path.drop ((volume platform path).elim 0 Volume.length)

/-- A separator stands behind the volume. -/
def hasPhysicalRoot (platform : Platform) (path : List Char) : Bool :=
  (behindVolume platform path).head?.any (isSeparator platform false)

/-- `Path::has_root`. -/
def hasRoot (platform : Platform) (path : List Char) : Bool :=
  hasPhysicalRoot platform path || (volume platform path).any fun v => !v.drive

/-- `Path::is_absolute`. -/
def isAbsolute (platform : Platform) (path : List Char) : Bool :=
  hasRoot platform path && (platform = .unix || (volume platform path).isSome)

/-- A part between two separators. -/
def part (verbatim : Bool) (text : List Char) : Option Component :=
  if text = [] then none
  else if text = ['.'] then if verbatim then some .curDir else none
  else if text = ['.', '.'] then some .parentDir
  else some (.normal text)

/-- A path that starts with a dot of its own. -/
def startsWithDot (platform : Platform) (path : List Char) : Bool :=
  path.head? = some '.' && path[1]?.all (isSeparator platform false)

/-- The components in front of the parts. -/
def startComponents (platform : Platform) (path : List Char) : List Component :=
  match volume platform path with
  | some v =>
    .volume (path.take v.length) ::
      if hasPhysicalRoot platform path || !v.drive && !v.verbatim then [.rootDir] else []
  | none =>
    if hasPhysicalRoot platform path then [.rootDir]
    else if startsWithDot platform path then [.curDir]
    else []

/-- `Path::components`. -/
def components (platform : Platform) (path : List Char) : List Component :=
  let verbatim := (volume platform path).any Volume.verbatim
  let rest := behindVolume platform path
  let body := if hasPhysicalRoot platform path then rest.tail else rest
  startComponents platform path
    ++ (body.splitOnP (isSeparator platform verbatim)).filterMap (part verbatim)

/-! ### Paths -/

/-- `Path::parent`, and `PathBuf::pop`. -/
def parent (path : List Component) : Option (List Component) :=
  match path.getLast? with
  | some (.normal _) | some .curDir | some .parentDir => some path.dropLast
  | _ => none

/-- `Path::file_name`. -/
def fileName (path : List Component) : Option (List Char) :=
  match path.getLast? with
  | some (.normal name) => some name
  | _ => none

/-- `Component::as_os_str`. -/
def Component.text (platform : Platform) : Component → List Char
  | .volume text => text
  | .rootDir => match platform with
    | .unix => ['/']
    | .windows => ['\\']
  | .curDir => ['.']
  | .parentDir => ['.', '.']
  | .normal name => name

/-- The path has a verbatim volume. -/
def isVerbatim (path : List Component) : Bool :=
  match path.head? with
  | some (.volume text) => (parseVolume text).any Volume.verbatim
  | _ => false

/-- A component that is pushed onto a verbatim path. -/
def pushVerbatim (path : List Component) : Component → List Component
  | .rootDir => path.take 1 ++ [.rootDir]
  | .curDir => path
  | .parentDir => if (fileName path).isSome then path.dropLast else path
  | component => if path.length = 1 then path ++ [.rootDir, component] else path ++ [component]

/-- A volume at the start of the path. -/
def volumeOf (path : List Component) : List Component :=
  path.takeWhile fun component => match component with
    | .volume _ => true
    | _ => false

/-- `PathBuf::push`, and `Path::join`. -/
def push (platform : Platform) (path : List Component) (text : List Char) : List Component :=
  if isAbsolute platform text || (volume platform text).isSome then components platform text
  else if isVerbatim path && !text.isEmpty then
    (components platform text).foldl pushVerbatim path
  else if hasRoot platform text then volumeOf path ++ components platform text
  else if path = [] then components platform text
  else path ++ (components platform text).filter (· ≠ .curDir)

/-- One component of a path that is brought to its normal form. -/
def normalizeStep (platform : Platform) (normalized : List Component) :
    Component → Option (List Component)
  | .curDir => some normalized
  | .parentDir => parent normalized
  | component => some (push platform normalized (component.text platform))

/-- The normal form of a path, without looking at any file. -/
def normalize (platform : Platform) (path : List Component) : Option (List Component) :=
  path.foldlM (normalizeStep platform) []

/-- The path as a text. -/
def render (platform : Platform) (path : List Component) : List Char :=
  let separator := Component.rootDir.text platform
  let names := path.filterMap fun component => match component with
    | .volume _ | .rootDir => none
    | component => some (component.text platform)
  ((volumeOf path).flatMap (Component.text platform))
    ++ (if Component.rootDir ∈ path then separator else []) ++ separator.intercalate names

/-! ### How a path ends -/

variable {platform : Platform} {path init : List Component} {text name : List Char}

/-- What stands behind the last separator. -/
def lastPart (platform : Platform) (name : List Char) : List Char :=
  (name.reverse.takeWhile fun c => !isSeparator platform false c).reverse

theorem fileName_eq_some :
    fileName path = some name ↔ ∃ init, path = init ++ [.normal name] := by
  constructor
  · intro h
    rcases List.eq_nil_or_concat path with rfl | ⟨init, last, rfl⟩
    · cases h
    · rw [List.concat_eq_append, fileName, List.getLast?_concat] at h
      cases last with
      | normal other =>
        obtain rfl := Option.some.inj h
        exact ⟨init, List.concat_eq_append⟩
      | volume | rootDir | curDir | parentDir => cases h
  · rintro ⟨init, rfl⟩
    rw [fileName, List.getLast?_concat]

theorem parent_concat (init : List Component) (name : List Char) :
    parent (init ++ [.normal name]) = some init := by
  rw [parent, List.getLast?_concat, List.dropLast_concat]

/-- The last part of a text that is cut at separators. -/
theorem splitOnP_last (p : Char → Bool) (text : List Char) :
    ∃ parts, text.splitOnP p = parts ++ [(text.reverse.takeWhile fun c => !p c).reverse] := by
  have hinside : ∀ c ∈ (text.reverse.takeWhile fun c => !p c).reverse, p c = false := by
    intro c hc
    simpa using List.all_eq_true.mp List.all_takeWhile c (List.mem_reverse.mp hc)
  have hsplit := congrArg List.reverse
    (List.takeWhile_append_dropWhile (p := fun c => !p c) (l := text.reverse))
  rw [List.reverse_append, List.reverse_reverse] at hsplit
  cases hdrop : text.reverse.dropWhile fun c => !p c with
  | nil =>
    rw [hdrop, List.reverse_nil, List.nil_append] at hsplit
    refine ⟨[], ?_⟩
    rw [List.nil_append, ← List.splitOnP_eq_singleton hinside, hsplit]
  | cons separator before =>
    have hseparator : p separator = true := by
      have hhead := List.head?_dropWhile_not (fun c => !p c) text.reverse
      rw [hdrop] at hhead
      simpa using hhead
    refine ⟨before.reverse.splitOnP p, ?_⟩
    rw [← List.splitOnP_eq_singleton hinside, ← List.splitOnP_append_cons _ _ hseparator]
    rw [hdrop, List.reverse_cons, List.append_assoc, List.singleton_append] at hsplit
    rw [hsplit]

/-- The parts of a text that is cut at separators have none. -/
theorem splitOnP_inside {p : Char → Bool} {text w : List Char} (hw : w ∈ text.splitOnP p) :
    ∀ c ∈ w, p c = false := by
  induction hn : text.length using Nat.strongRecOn generalizing text with
  | ind n ih =>
    subst hn
    have hfirst : ∀ c ∈ text.takeWhile fun c => !p c, p c = false := fun c hc => by
      simpa using List.all_eq_true.mp List.all_takeWhile c hc
    have hsplit := List.takeWhile_append_dropWhile (p := fun c => !p c) (l := text)
    cases hdrop : text.dropWhile fun c => !p c with
    | nil =>
      rw [hdrop, List.append_nil] at hsplit
      rw [← hsplit, List.splitOnP_eq_singleton hfirst, List.mem_singleton] at hw
      exact hw ▸ hfirst
    | cons separator rest =>
      have hseparator : p separator = true := by
        have hhead := List.head?_dropWhile_not (fun c => !p c) text
        rw [hdrop] at hhead
        simpa using hhead
      rw [hdrop] at hsplit
      rw [← hsplit, List.splitOnP_append_cons_of_forall_mem hfirst separator hseparator] at hw
      rcases List.mem_cons.mp hw with rfl | hw
      · exact hfirst
      · refine ih rest.length ?_ hw rfl
        have hlength := congrArg List.length hsplit
        rw [List.length_append, List.length_cons] at hlength
        omega

theorem eq_of_part {verbatim : Bool} {w : List Char} (h : part verbatim w = some (.normal name)) :
    w = name := by
  rw [part] at h
  split_ifs at h
  · cases Option.some.inj h
  · cases Option.some.inj h
  · exact Component.normal.inj (Option.some.inj h)

/-- **The names of a path have no separator in them**, of those that count in the path. -/
theorem isSeparator_of_mem_components (h : .normal name ∈ components platform text) :
    ∀ c ∈ name, isSeparator platform ((volume platform text).any Volume.verbatim) c = false := by
  rw [components] at h
  rcases List.mem_append.mp h with h | h
  · rw [startComponents] at h
    split at h
    · rcases List.mem_cons.mp h with h | h
      · cases h
      · split_ifs at h
        · cases List.mem_singleton.mp h
        · cases h
    · split_ifs at h
      · cases List.mem_singleton.mp h
      · cases List.mem_singleton.mp h
      · cases h
  · obtain ⟨w, hw, hpart⟩ := List.mem_filterMap.mp h
    exact eq_of_part hpart ▸ splitOnP_inside hw

/-- A name without separators is what stands behind the last one. -/
theorem lastPart_eq_self (h : ∀ c ∈ name, isSeparator platform false c = false) :
    lastPart platform name = name := by
  have hall : name.reverse.takeWhile (fun c => !isSeparator platform false c) = name.reverse := by
    refine List.takeWhile_eq_self_iff.mpr fun c hc => ?_
    rw [h c (List.mem_reverse.mp hc)]
    rfl
  rw [lastPart, hall, List.reverse_reverse]

/-- **A name ends in what stands behind its last separator**, when that is a name. -/
theorem components_last (hvolume : volume platform name = none)
    (hroot : hasPhysicalRoot platform name = false)
    (hlast : part false (lastPart platform name) = some (.normal (lastPart platform name))) :
    ∃ init, components platform name = init ++ [Component.normal (lastPart platform name)] := by
  obtain ⟨parts, hparts⟩ := splitOnP_last (isSeparator platform false) name
  have hbody : behindVolume platform name = name := by
    rw [behindVolume, hvolume]
    rfl
  rw [components, hvolume, hbody, hroot, if_neg Bool.false_ne_true]
  refine ⟨startComponents platform name ++ parts.filterMap (part false), ?_⟩
  have hend : [lastPart platform name].filterMap (part false)
      = [.normal (lastPart platform name)] := by
    rw [List.filterMap_cons_some hlast, List.filterMap_nil]
  rw [List.append_assoc, ← hend, ← List.filterMap_append]
  exact congrArg (fun parts => startComponents platform name ++ parts.filterMap (part false)) hparts

/-- A name that is pushed onto a verbatim path ends it. -/
theorem foldl_pushVerbatim_concat (path init : List Component) (name : List Char) :
    ∃ before, (init ++ [Component.normal name]).foldl pushVerbatim path
      = before ++ [Component.normal name] := by
  rw [List.foldl_append, List.foldl_cons, List.foldl_nil]
  generalize init.foldl pushVerbatim path = path
  change ∃ before, (if path.length = 1 then path ++ [Component.rootDir, .normal name]
    else path ++ [.normal name]) = before ++ [.normal name]
  split_ifs
  · exact ⟨path ++ [Component.rootDir], by simp⟩
  · exact ⟨path, rfl⟩

/-- **A text that is pushed ends the path as it ends.** -/
theorem push_concat (path : List Component)
    (h : components platform text = init ++ [.normal name]) :
    ∃ before, push platform path text = before ++ [.normal name] := by
  unfold push
  rw [h]
  split_ifs
  · exact ⟨init, rfl⟩
  · exact foldl_pushVerbatim_concat path init name
  · exact ⟨volumeOf path ++ init, (List.append_assoc ..).symm⟩
  · exact ⟨init, rfl⟩
  · refine ⟨path ++ init.filter (· ≠ .curDir), ?_⟩
    rw [List.filter_append, List.append_assoc]
    rfl

/-- **The normal form ends with the last name that was pushed.** -/
theorem normalize_concat {normalized : List Component}
    (h : normalize platform (init ++ [.normal name]) = some normalized) :
    ∃ before, normalized = push platform before name := by
  rw [normalize, List.foldlM_append] at h
  obtain ⟨before, -, h⟩ := Option.bind_eq_some_iff.mp h
  rw [List.foldlM_cons] at h
  obtain ⟨after, hafter, h⟩ := Option.bind_eq_some_iff.mp h
  obtain rfl : after = normalized := Option.some.inj h
  exact ⟨before, (Option.some.inj hafter).symm⟩

end StdPath
